import Warden.Text.Extending
import Warden.Text.Ignorable
import Warden.Text.Unprintable

namespace Warden.Text

/-!
# Quoted texts in messages

A message that cites a text puts it in double quotes and makes it readable: the quote and the
backslash get a backslash in front, four controls have short escapes, and every other character
that cannot be seen by itself is given by its code point in lower-case hexadecimal.

* `isHidden` — whether a character is one that cannot be seen by itself.
* `quoted` — a text in quotes.
-/

/-- The halfwidth sound marks of Katakana, which extend a syllable but have a place of their own
    on the line. -/
def isHalfwidthMark (c : Char) : Bool :=
  c == '\uFF9E' || c == '\uFF9F'

/-- Whether a character cannot be seen by itself: it has no shape, or it is drawn on the
    character before it. -/
def isHidden (c : Char) : Bool :=
  isUnprintable c || isIgnorable c || (isExtending c && !isHalfwidthMark c)

/-- The digits of a number in lower-case hexadecimal, without leading zeros. -/
def hexadecimal (n : Nat) : List Char :=
  Nat.toDigits 16 n

/-- The escape that gives a character by its code point. -/
def codePointEscape (c : Char) : List Char :=
  ['\\', 'u', '\x7b'] ++ hexadecimal c.toNat ++ ['\x7d']

/-- A character as it stands inside a quoted text. -/
def quotedChar (c : Char) : List Char :=
  if c = '"' ∨ c = '\\' then ['\\', c]
  else if c = '\x00' then ['\\', '0']
  else if c = '\t' then ['\\', 't']
  else if c = '\n' then ['\\', 'n']
  else if c = '\r' then ['\\', 'r']
  else if ' ' ≤ c ∧ c ≤ '~' then [c]
  else if isHidden c then codePointEscape c
  else [c]

/-- A text in quotes. -/
def quoted (s : List Char) : List Char :=
  '"' :: s.flatMap quotedChar ++ ['"']

/-! ### Quoting, tried out -/

example : quoted "it's \"x\"\n".toList = "\"it's \\\"x\\\"\\n\"".toList := by decide +kernel

example : quoted ['e', '\u0301', '\x7f', 'é'] = "\"e\\u\x7b301\x7d\\u\x7b7f\x7dé\"".toList := by
  decide +kernel

example : quoted ['\uFF9E', '\u3164', '\u088F', '\u0890'] =
    "\"\uFF9E\\u\x7b3164\x7d\u088F\\u\x7b890\x7d\"".toList := by decide +kernel

end Warden.Text
