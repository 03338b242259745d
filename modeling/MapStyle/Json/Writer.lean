import MapStyle.Json.Basic

/-!
# Writing documents

Documents are written without blanks.  Text is written as it is, except for quotes, backslashes and
control characters.  Integers are written plain and other numbers in the document layout.
-/

set_option autoImplicit false

namespace MapStyle

/-- A control character's escape without a name of its own: four hexadecimal digits. -/
def unicodeEscape (c : Char) : List Char :=
  let ds := Nat.toDigits 16 c.toNat
  '\\' :: 'u' :: (List.replicate (4 - ds.length) '0' ++ ds)

def escapeChar (c : Char) : List Char :=
  if c = '"' then ['\\', '"']
  else if c = '\\' then ['\\', '\\']
  else if c = '\n' then ['\\', 'n']
  else if c = '\r' then ['\\', 'r']
  else if c = '\t' then ['\\', 't']
  else if c.toNat = 8 then ['\\', 'b']
  else if c.toNat = 12 then ['\\', 'f']
  else if c.toNat < 32 then unicodeEscape c
  else [c]

def quote (s : String) : String := String.ofList ('"' :: (s.toList.flatMap escapeChar ++ ['"']))

namespace Json

variable {ν : Type} [Scalar ν]

/-- The text of a number that is not an integer; values without a numeral have none and are written
as `null`. -/
def numberText (x : ν) : String := (Scalar.toNumeral .toEven x).render .document

mutual

def render : Json ν → String
  | .null => "null"
  | .bool b => if b then "true" else "false"
  | .int n => toString n
  | .float x => numberText x
  | .str s => quote s
  | .arr items => "[" ++ ",".intercalate (renderItems items) ++ "]"
  | .obj members => "\x7b" ++ ",".intercalate (renderMembers members) ++ "\x7d"
termination_by structural j => j

def renderItems : List (Json ν) → List String
  | [] => []
  | j :: rest => j.render :: renderItems rest
termination_by structural items => items

def renderMembers : List (String × Json ν) → List String
  | [] => []
  | (k, j) :: rest => (quote k ++ ":" ++ j.render) :: renderMembers rest
termination_by structural ms => ms

end

end Json

end MapStyle
