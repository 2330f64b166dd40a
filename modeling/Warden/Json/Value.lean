import Warden.Json.Lexeme.Scalar

namespace Warden

/-!
# JSON values and their texts

* `Json` — a value; an object is the list of its members, in order and with repetitions.
* `Json.compact` and `Json.pretty` — the text of a value, without any white space or with each
  element and member on a line of its own, indented by two spaces.
-/

/-- A JSON value. -/
inductive Json where
  | null
  | boolean (value : Bool)
  | number (numeral : Json.Numeral)
  | text (chars : List Char)
  | array (items : List Json)
  | object (members : List (List Char × Json))
  deriving Repr, Inhabited

namespace Json

/-- The string of a text. -/
def ofString (s : String) : Json :=
  .text s.toList

/-- The numeral of an integer. -/
def ofInt (n : Int) : Json :=
  .number (.ofInt n)

/-! ### Strings -/

/-- A sixteen-bit unit in four lower-case hexadecimal digits. -/
def fourDigits (n : Nat) : List Char :=
  [n / 4096 % 16, n / 256 % 16, n / 16 % 16, n % 16].map Nat.digitChar

/-- A character as it is written inside a string: escaped only where it has to be. -/
def writeChar (c : Char) : List Char :=
  if c = '"' then ['\\', '"']
  else if c = '\\' then ['\\', '\\']
  else if c = '\x08' then ['\\', 'b']
  else if c = '\x0c' then ['\\', 'f']
  else if c = '\n' then ['\\', 'n']
  else if c = '\r' then ['\\', 'r']
  else if c = '\t' then ['\\', 't']
  else if c.toNat < 0x20 then '\\' :: 'u' :: fourDigits c.toNat
  else [c]

/-- A string in its quotes. -/
def writeString (chars : List Char) : List Char :=
  '"' :: chars.flatMap writeChar ++ ['"']

/-! ### Values -/

/-- Where line breaks and spaces go. -/
structure Spacing where
  broken : Bool
  deriving DecidableEq, Repr

namespace Spacing

/-- No white space at all. -/
def compact : Spacing := ⟨false⟩

/-- Each element and member on a line of its own. -/
def pretty : Spacing := ⟨true⟩

/-- What starts a line at a depth of indentation. -/
def newline (sp : Spacing) (depth : Nat) : List Char :=
  if sp.broken then '\n' :: List.replicate (2 * depth) ' ' else []

/-- What stands between a key and its value. -/
def colon (sp : Spacing) : List Char :=
  if sp.broken then [':', ' '] else [':']

end Spacing

mutual

/-- A value at a depth of indentation. -/
def write (sp : Spacing) (depth : Nat) : Json → List Char
  | null => ['n', 'u', 'l', 'l']
  | boolean true => ['t', 'r', 'u', 'e']
  | boolean false => ['f', 'a', 'l', 's', 'e']
  | number numeral => numeral.text
  | text chars => writeString chars
  | array [] => ['[', ']']
  | array (item :: items) =>
      '[' :: sp.newline (depth + 1) ++ write sp (depth + 1) item ++
        writeItems sp (depth + 1) items ++ sp.newline depth ++ [']']
  | object [] => ['\x7b', '\x7d']
  | object ((key, value) :: members) =>
      '\x7b' :: sp.newline (depth + 1) ++ writeString key ++ sp.colon ++
        write sp (depth + 1) value ++ writeMembers sp (depth + 1) members ++ sp.newline depth ++
        ['\x7d']

/-- The elements behind the first one, each with the comma in front of it. -/
def writeItems (sp : Spacing) (depth : Nat) : List Json → List Char
  | [] => []
  | item :: items =>
      ',' :: sp.newline depth ++ write sp depth item ++ writeItems sp depth items

/-- The members behind the first one, each with the comma in front of it. -/
def writeMembers (sp : Spacing) (depth : Nat) : List (List Char × Json) → List Char
  | [] => []
  | (key, value) :: members =>
      ',' :: sp.newline depth ++ writeString key ++ sp.colon ++ write sp depth value ++
        writeMembers sp depth members

end

/-- The text of a value without white space. -/
def compact (v : Json) : String :=
  String.ofList (v.write .compact 0)

/-- The text of a value with one element or member on each line. -/
def pretty (v : Json) : String :=
  String.ofList (v.write .pretty 0)

/-! ### Texts, written -/

example : (object [(['k'], array []), ([], text ['\n', '\x01', 'é'])]).compact =
    "\x7b\"k\":[],\"\":\"\\n\\u0001é\"\x7d" := by decide +kernel

example : (array [ofInt (-1), boolean true]).pretty = "[\n  -1,\n  true\n]" := by decide +kernel

end Json

end Warden
