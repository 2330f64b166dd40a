namespace Warden.Text

/-!
# Characters that may be ignored

Characters that are shown as nothing where they have no meaning: the property
`Default_Ignorable_Code_Point` of Unicode 17.  Most of them are format characters or marks, but
the Hangul fillers are letters.
-/

/-- The code points with the property, as closed ranges in ascending order. -/
def ignorableRanges : List (Nat × Nat) :=
  [
    (0xAD, 0xAD), (0x34F, 0x34F), (0x61C, 0x61C), (0x115F, 0x1160), (0x17B4, 0x17B5),
    (0x180B, 0x180F), (0x200B, 0x200F), (0x202A, 0x202E), (0x2060, 0x206F), (0x3164, 0x3164),
    (0xFE00, 0xFE0F), (0xFEFF, 0xFEFF), (0xFFA0, 0xFFA0), (0xFFF0, 0xFFF8), (0x1BCA0, 0x1BCA3),
    (0x1D173, 0x1D17A), (0xE0000, 0xE0FFF)]

/-- Whether `c` may be ignored. -/
def isIgnorable (c : Char) : Bool :=
  ignorableRanges.any fun range => range.1 ≤ c.toNat && c.toNat ≤ range.2

/-- The fillers may be ignored, the Hangul letters beside them may not. -/
example : isIgnorable '\u3164' = true ∧ isIgnorable '\uFFA0' = true ∧
    isIgnorable '\u3163' = false ∧ isIgnorable '\u1161' = false := by decide +kernel

end Warden.Text
