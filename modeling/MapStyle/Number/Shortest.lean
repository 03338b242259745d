import MapStyle.Number.Numeral

/-!
# Shortest decimals

A binary floating-point value `m * 2 ^ q` stands for every real number that rounds to it.  The
shortest decimal of the value is the one with the fewest digits among those reals, and of these the
nearest to the value.  The search tests, for one, two, … digits, the two neighbours of the value on
that decimal grid; all comparisons are exact, between natural numbers.
-/

set_option autoImplicit false

namespace MapStyle

/-- The finite value `mantissa * 2 ^ exponent`, with a mark for a value whose lower neighbour is
half as far away as its upper one. -/
structure Binary where
  mantissa : Nat
  exponent : Int
  narrowBelow : Bool
deriving DecidableEq, Repr

def Binary.ofBits (bits : UInt64) : Binary :=
  let e := ((bits >>> 52) &&& 0x7FF).toNat
  let f := (bits &&& 0xFFFFFFFFFFFFF).toNat
  if e = 0 then ⟨f, -1074, false⟩ else ⟨Nat.pow 2 52 + f, (e : Int) - 1075, f = 0 && 1 < e⟩

namespace Binary

/-- Compares `a * 10 ^ i` with `b * 2 ^ j`. -/
def compareScaled (a : Nat) (i : Int) (b : Nat) (j : Int) : Ordering :=
  compare (a * Nat.pow 10 i.toNat * Nat.pow 2 (-j).toNat)
    (b * Nat.pow 2 j.toNat * Nat.pow 10 (-i).toNat)

/-- Whether a decimal is among the reals that round to the value; the two halfway points are when
the mantissa is even. -/
def readsBack (x : Binary) (d : Decimal) : Bool :=
  let low := if x.narrowBelow then 4 * x.mantissa - 1 else 4 * x.mantissa - 2
  let high := 4 * x.mantissa + 2
  let closed := x.mantissa % 2 = 0
  let below := compareScaled d.digits d.exponent low (x.exponent - 2)
  let above := compareScaled d.digits d.exponent high (x.exponent - 2)
  (below = .gt || (closed && below = .eq)) && (above = .lt || (closed && above = .eq))

/-- The greatest multiple of `10 ^ e`, as a count of that unit, that does not exceed the value. -/
def floorAt (x : Binary) (e : Int) : Nat :=
  x.mantissa * Nat.pow 2 x.exponent.toNat * Nat.pow 10 (-e).toNat /
    (Nat.pow 2 (-x.exponent).toNat * Nat.pow 10 e.toNat)

/-- Compares the value with the middle of two neighbours `n` and `n + 1` on the grid `10 ^ e`. -/
def compareMiddle (x : Binary) (n : Nat) (e : Int) : Ordering :=
  (compareScaled (2 * n + 1) e (2 * x.mantissa) x.exponent).swap

/-- The neighbour of the value on the grid `10 ^ e` that reads back, if one does; of two the nearer,
and of two equally near ones the one that `tie` names. -/
def onGrid? (tie : Tie) (x : Binary) (e : Int) : Option Decimal :=
  let n := x.floorAt e
  match x.readsBack ⟨n, e⟩, x.readsBack ⟨n + 1, e⟩ with
  | false, false => none
  | true, false => some ⟨n, e⟩
  | false, true => some ⟨n + 1, e⟩
  | true, true =>
    match x.compareMiddle n e with
    | .lt => some ⟨n, e⟩
    | .gt => some ⟨n + 1, e⟩
    | .eq =>
      match tie with
      | .toEven => some (if n % 2 = 0 then ⟨n, e⟩ else ⟨n + 1, e⟩)
      | .away => some ⟨n + 1, e⟩

/-- Searches the grids `10 ^ e`, `10 ^ (e - 1)`, …, `steps` of them. -/
def search (tie : Tie) (x : Binary) : Nat → Int → Option Decimal
  | 0, _ => none
  | steps + 1, e =>
    match x.onGrid? tie e with
    | some d => some d
    | none => search tie x steps (e - 1)

/-- The least power of ten above the value, by at most `steps` exact corrections upward. -/
def scaleFrom (x : Binary) : Nat → Int → Int
  | 0, k => k
  | steps + 1, k =>
    if compareScaled 1 k x.mantissa x.exponent = .gt then k else scaleFrom x steps (k + 1)

/-- The least power of ten above a value that is not zero; the estimate from the binary length is
at most two too small. -/
def scale (x : Binary) : Int :=
  let bits : Int := (x.mantissa.log2 : Int) + x.exponent
  x.scaleFrom 4 ((bits * 30103).fdiv 100000 - 1)

def exact (x : Binary) : Decimal :=
  ⟨x.mantissa * Nat.pow 2 x.exponent.toNat * Nat.pow 5 (-x.exponent).toNat, min x.exponent 0⟩

/-- The shortest decimal of a value, without trailing zeros. -/
def shortest (tie : Tie) (x : Binary) : Decimal :=
  if x.mantissa = 0 then Decimal.zero
  else (((x.search tie 18 (x.scale - 1)).getD x.exact).strip 400)

end Binary

end MapStyle
