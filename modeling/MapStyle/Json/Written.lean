import MapStyle.Json.Basic
import MapStyle.Number.Text

/-!
# Documents as they are written

A written document keeps what stands in a text: escapes that are not yet spelled out, the digits of
its numbers, and members in their order, repeated keys among them.  `Written.toJson?` is the
document that it describes.  Not every written document describes one: surrogates may stand alone,
a number may be beyond every finite scalar, and arrays and objects may lie too deep.
-/

set_option autoImplicit false

namespace MapStyle

/-- What stands between quotes: a character, or the 16-bit unit of a `\u` escape. -/
inductive Glyph where
  | char (c : Char)
  | unit (n : Nat)
deriving DecidableEq, Repr, Inhabited

namespace Glyph

/-- The characters of glyphs; a high surrogate and the low one after it are one character. -/
def join? : List Glyph → Option (List Char)
  | [] => some []
  | .char c :: rest => (join? rest).map (c :: ·)
  | .unit high :: .unit low :: rest =>
    if 0xD800 ≤ high ∧ high < 0xDC00 then
      if 0xDC00 ≤ low ∧ low < 0xE000 then
        (join? rest).map (Char.ofNat (0x10000 + (high - 0xD800) * 0x400 + (low - 0xDC00)) :: ·)
      else none
    else if 0xDC00 ≤ high ∧ high < 0xE000 then none
    else (join? (.unit low :: rest)).map (Char.ofNat high :: ·)
  | .unit n :: rest =>
    if 0xD800 ≤ n ∧ n < 0xE000 then none else (join? rest).map (Char.ofNat n :: ·)

def text? (gs : List Glyph) : Option String := (join? gs).map String.ofList

end Glyph

/-- A number as it is written: a sign, digits before and after a point, and a power of ten;
`isWhole` if neither point nor power is written. -/
structure WrittenNumber where
  negative : Bool
  whole : List Char
  fraction : List Char
  exponent : Int
  isWhole : Bool
deriving DecidableEq, Repr, Inhabited

namespace WrittenNumber

/-- A significand followed by as many digits as an unsigned word holds, and how many these are. -/
def significand : Nat → List Char → Nat × Nat
  | n, [] => (n, 0)
  | n, c :: cs =>
    let next := digitsValue [c] + 10 * n
    if (next : Int) ≤ Word.greatest then
      let (n, taken) := significand next cs
      (n, taken + 1)
    else (n, 0)

variable {ν : Type} [Scalar ν]

/-- The greatest power of ten by which a scalar is multiplied or divided at once. -/
def greatestPower : Nat := 308

/-- A scalar times a power of ten, in at most `steps` multiplications or divisions; none if the
result is beyond every finite scalar. -/
def scaled? : Nat → ν → Int → Option ν
  | 0, x, _ => some x
  | steps + 1, x, e =>
    if e.natAbs ≤ greatestPower then
      let power : ν := Scalar.ofDecimal 1 e.natAbs
      if e < 0 then some (x / power)
      else if Scalar.isFinite (x * power) then some (x * power)
      else none
    else if x == Scalar.ofInt 0 then some x
    else if e < 0 then
      scaled? steps (x / (Scalar.ofDecimal 1 greatestPower : ν)) (e + greatestPower)
    else none

/-- The document of a number.  Digits beyond an unsigned word do not count, except that those before
the point keep their places.  A number written without point and exponent is an integer if all its
digits count and a signed or an unsigned word holds it; minus zero is none. -/
def toJson? (w : WrittenNumber) : Option (Json ν) :=
  let (n, wholeDigits) := significand 0 w.whole
  let left := w.whole.length - wholeDigits
  let (m, fractionDigits) := significand n w.fraction
  let signed : Int := if w.negative then -(m : Int) else m
  if w.isWhole && left = 0 && Word.holds signed && !(w.negative && m = 0) then some (.int signed)
  else
    let e := w.exponent + left - fractionDigits
    (scaled? (e.natAbs / greatestPower + 1) (Scalar.ofInt m : ν) e).map fun x =>
      .float (if w.negative then -x else x)

end WrittenNumber

inductive Written where
  | null
  | bool (b : Bool)
  | number (n : WrittenNumber)
  | text (gs : List Glyph)
  | arr (items : List Written)
  | obj (members : List (List Glyph × Written))
deriving Inhabited

namespace Written

/-- At most this many arrays and objects of a document lie in each other. -/
def depthLimit : Nat := 127

variable {ν : Type} [Scalar ν]

mutual

/-- The document that is written, with at most `depth` arrays and objects in each other; the last of
equal keys stays. -/
def toJsonWithin? (depth : Nat) : Written → Option (Json ν)
  | .null => some .null
  | .bool b => some (.bool b)
  | .number n => n.toJson?
  | .text gs => (Glyph.text? gs).map .str
  | .arr items => if depth = 0 then none else (itemsWithin? (depth - 1) items).map .arr
  | .obj members =>
    if depth = 0 then none else (membersWithin? (depth - 1) members).map Json.ofMembers
termination_by structural w => w

def itemsWithin? (depth : Nat) : List Written → Option (List (Json ν))
  | [] => some []
  | w :: rest =>
    match toJsonWithin? depth w, itemsWithin? depth rest with
    | some j, some js => some (j :: js)
    | _, _ => none
termination_by structural ws => ws

def membersWithin? (depth : Nat) : List (List Glyph × Written) → Option (List (String × Json ν))
  | [] => some []
  | (key, w) :: rest =>
    match Glyph.text? key, toJsonWithin? depth w, membersWithin? depth rest with
    | some key, some j, some ms => some ((key, j) :: ms)
    | _, _, _ => none
termination_by structural ms => ms

end

def toJson? (w : Written) : Option (Json ν) := w.toJsonWithin? depthLimit

end Written

end MapStyle
