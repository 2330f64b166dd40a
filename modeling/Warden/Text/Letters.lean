namespace Warden.Text

/-!
# ASCII letter case

Names are compared without regard to the case of their ASCII letters.  Letters beyond ASCII
have no other case here: the Kelvin sign is not a `k`.
-/

/-- The text with its ASCII capitals made small and all else kept. -/
def lower (s : List Char) : List Char :=
  s.map Char.toLower

@[simp] theorem lower_nil : lower [] = [] := rfl

@[simp] theorem lower_cons (c : Char) (s : List Char) : lower (c :: s) = c.toLower :: lower s := rfl

@[simp] theorem lower_append (s t : List Char) : lower (s ++ t) = lower s ++ lower t :=
  List.map_append

/-- The Kelvin sign and the dotted capital I are kept. -/
example : lower ['\u212A', '\u0130', 'K'] = ['\u212A', '\u0130', 'k'] := by decide

end Warden.Text
