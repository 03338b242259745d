import MapStyle.Json.Written

/-!
# Tokens of a document

A written document is a sequence of tokens: brackets, separators, text, and other scalars.  Text
stands in quotes and may spell characters as escapes.  Numbers have no leading zeros and no digits
missing around a point or in an exponent.
-/

set_option autoImplicit false

namespace MapStyle

/-- A bracket, a separator, a text, or a scalar that is no text. -/
inductive Token where
  | openArray
  | closeArray
  | openObject
  | closeObject
  | comma
  | colon
  | text (gs : List Glyph)
  | scalar (w : Written)

def hexDigit? (c : Char) : Option Nat :=
  if '0' ≤ c ∧ c ≤ '9' then some (c.toNat - '0'.toNat)
  else if 'a' ≤ c ∧ c ≤ 'f' then some (c.toNat - 'a'.toNat + 10)
  else if 'A' ≤ c ∧ c ≤ 'F' then some (c.toNat - 'A'.toNat + 10)
  else none

def hexUnit? (a b c d : Char) : Option Nat :=
  match hexDigit? a, hexDigit? b, hexDigit? c, hexDigit? d with
  | some a, some b, some c, some d => some (((a * 16 + b) * 16 + c) * 16 + d)
  | _, _, _, _ => none

def shortEscape? (c : Char) : Option Char :=
  match c with
  | '"' => some '"'
  | '\\' => some '\\'
  | '/' => some '/'
  | 'b' => some (Char.ofNat 8)
  | 'f' => some (Char.ofNat 12)
  | 'n' => some '\n'
  | 'r' => some '\r'
  | 't' => some '\t'
  | _ => none

/-- The glyphs up to a closing quote, and what follows it. -/
def glyphs? : List Char → Option (List Glyph × List Char)
  | [] => none
  | '\\' :: 'u' :: a :: b :: c :: d :: rest =>
    match hexUnit? a b c d, glyphs? rest with
    | some n, some (gs, rest) => some (.unit n :: gs, rest)
    | _, _ => none
  | '\\' :: c :: rest =>
    match shortEscape? c, glyphs? rest with
    | some c, some (gs, rest) => some (.char c :: gs, rest)
    | _, _ => none
  | c :: rest =>
    if c = '"' then some ([], rest)
    else if c = '\\' || c.toNat < 32 then none
    else (glyphs? rest).map fun (gs, rest) => (.char c :: gs, rest)

def number? (cs : List Char) : Option (WrittenNumber × List Char) :=
  let (negative, cs) := match cs with
    | '-' :: rest => (true, rest)
    | cs => (false, cs)
  let (whole, rest) := spanDigits cs
  if whole.isEmpty || (whole.head? = some '0' && 1 < whole.length) then none
  else
    let pointed := rest.head? = some '.'
    let (fraction, rest) := spanFraction rest
    if pointed && fraction.isEmpty then none
    else
      let marked := rest.head? = some 'e' || rest.head? = some 'E'
      match exponent? rest with
      | none => none
      | some (e, rest) => some (⟨negative, whole, fraction, e, !pointed && !marked⟩, rest)

def word? (word : String) (cs : List Char) : Option (List Char) :=
  if word.toList.isPrefixOf cs then some (cs.drop word.length) else none

namespace Token

/-- The token at the start of a text that does not start with a blank, and what follows it. -/
def next? (c : Char) (rest : List Char) : Option (Token × List Char) :=
  match c with
  | '[' => some (.openArray, rest)
  | ']' => some (.closeArray, rest)
  | '\x7b' => some (.openObject, rest)
  | '\x7d' => some (.closeObject, rest)
  | ',' => some (.comma, rest)
  | ':' => some (.colon, rest)
  | '"' => (glyphs? rest).map fun (gs, rest) => (.text gs, rest)
  | 't' => (word? "rue" rest).map (.scalar (.bool true), ·)
  | 'f' => (word? "alse" rest).map (.scalar (.bool false), ·)
  | 'n' => (word? "ull" rest).map (.scalar .null, ·)
  | _ => (number? (c :: rest)).map fun (n, rest) => (.scalar (.number n), rest)

def isBlank (c : Char) : Bool := c = ' ' || c = '\t' || c = '\n' || c = '\r'

/-- The tokens of a text that has at most `n` characters. -/
def scan : Nat → List Char → Option (List Token)
  | _, [] => some []
  | 0, _ :: _ => none
  | n + 1, c :: rest =>
    if isBlank c then scan n rest
    else
      match next? c rest with
      | none => none
      | some (t, after) => (scan n after).map (t :: ·)

def ofChars? (cs : List Char) : Option (List Token) := scan cs.length cs

end Token

end MapStyle
