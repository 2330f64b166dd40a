namespace Warden.Text

/-!
# White space at the ends of a text

Names of actions and roles may stand between blanks, and a blank is any character with the
Unicode property `White_Space`, not only the six of ASCII.

* `isBlank c` — whether `c` has the property, read from the table `blankRanges`.
* `trim s` — `s` without the blanks at its two ends.
-/

/-- The code points with the property `White_Space`, as closed ranges. -/
def blankRanges : List (Nat × Nat) :=
  [(0x09, 0x0D), (0x20, 0x20), (0x85, 0x85), (0xA0, 0xA0), (0x1680, 0x1680), (0x2000, 0x200A),
    (0x2028, 0x2029), (0x202F, 0x202F), (0x205F, 0x205F), (0x3000, 0x3000)]

/-- Whether `c` is white space. -/
def isBlank (c : Char) : Bool :=
  blankRanges.any fun range => range.1 ≤ c.toNat && c.toNat ≤ range.2

/-- The text without its leading blanks. -/
def trimLeft (s : List Char) : List Char :=
  s.dropWhile isBlank

/-- The text without the blanks at its two ends. -/
def trim (s : List Char) : List Char :=
  (trimLeft (trimLeft s).reverse).reverse

/-! ### What the table holds -/

/-- The property has twenty-five characters. -/
example : (blankRanges.map fun range => range.2 + 1 - range.1).sum = 25 := by decide

/-- The byte order mark is not one of them. -/
example : isBlank '\uFEFF' = false := by decide

/-! ### Trimming -/

@[simp] theorem trimLeft_nil : trimLeft [] = [] := rfl

theorem trimLeft_cons_of_not_blank {c : Char} (h : isBlank c = false) (s : List Char) :
    trimLeft (c :: s) = c :: s := by
  simp [trimLeft, h]

@[simp] theorem trim_nil : trim [] = [] := rfl

end Warden.Text
