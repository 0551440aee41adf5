import ZeroRun.Decimal.Binary64

/-!
The fewest decimal digits that still single out a floating-point number. A decimal stands for a
number when it lies in the interval of reals that round to it. On the grid of decimals with one
digit, then two, and so on, the two neighbours of the number are tried, and the first grid with
a hit gives the digits; of two hits the nearer one.
-/
namespace ZeroRun.Decimal

/-- The decimal `digits * 10 ^ exponent`. -/
structure Digits where
  digits : Nat
  exponent : Int
deriving Repr, DecidableEq

/-- A fraction scaled by a power of ten. -/
def scaledTen (num den : Nat) (power : Int) : Nat × Nat :=
  if 0 ≤ power then (num * Nat.pow 10 power.toNat, den) else (num, den * Nat.pow 10 (-power).toNat)

/-- The largest `e` with `10 ^ e ≤ num / den`, for a positive fraction, found from an estimate. -/
def magnitude (num den : Nat) : Int :=
  let estimate : Int := ((Nat.log2 num : Int) - Nat.log2 den) * 30103 / 100000 - 1
  let reaches (e : Int) : Bool :=
    let (n, d) := scaledTen num den (-e)
    decide (d ≤ n)
  if reaches (estimate + 2) then estimate + 2
  else if reaches (estimate + 1) then estimate + 1
  else if reaches estimate then estimate
  else estimate - 1

/-- The reals that round to a number, scaled so that the number itself is `4 * mantissa`. -/
structure Interval where
  lower : Nat
  upper : Nat
  closed : Bool

/-- Half the gap to each neighbour; the gap below a power of two is half as wide. -/
def intervalOf (p : Binary64.Parts) : Interval :=
  let narrow := p.mantissa = Binary64.leadingBit ∧ Binary64.minExponent < p.exponent
  { lower := 4 * p.mantissa - (if narrow then 1 else 2)
    upper := 4 * p.mantissa + 2
    closed := p.mantissa % 2 = 0 }

/-- Does the decimal lie in the interval around `p`? -/
def within (p : Binary64.Parts) (d : Digits) : Bool :=
  let range := intervalOf p
  let (n10, d10) := scaledTen d.digits 1 d.exponent
  let (num, den) := Binary64.scaled n10 d10 (2 - p.exponent)
  if range.closed then decide (range.lower * den ≤ num) && decide (num ≤ range.upper * den)
  else decide (range.lower * den < num) && decide (num < range.upper * den)

/-- The decimal with the given exponent that stands for `p`, if one of its two neighbours does. -/
def onGrid? (p : Binary64.Parts) (exponent : Int) : Option Digits :=
  let (num, den) := p.ratio
  let (n, d) := scaledTen num den (-exponent)
  let low := n / d
  let rest := n % d
  let nearHigh := decide (d < 2 * rest) || (decide (d = 2 * rest) && decide (low % 2 = 1))
  let lowHit := within p ⟨low, exponent⟩
  let highHit := within p ⟨low + 1, exponent⟩
  match lowHit, highHit with
  | true, true => some ⟨if nearHigh then low + 1 else low, exponent⟩
  | true, false => some ⟨low, exponent⟩
  | false, true => some ⟨low + 1, exponent⟩
  | false, false => none

/-- Removes the zeros at the end of the digits. -/
def stripZeros : Nat → Digits → Digits
  | 0, d => d
  | fuel + 1, d =>
    if d.digits ≠ 0 ∧ d.digits % 10 = 0 then stripZeros fuel ⟨d.digits / 10, d.exponent + 1⟩ else d

/-- The shortest digits of a positive magnitude. Seventeen always suffice. -/
def shortest (p : Binary64.Parts) : Digits :=
  let (num, den) := p.ratio
  let top := magnitude num den
  let grids : List Int := (List.range 17).map fun (n : Nat) => top - n
  match grids.findSome? (onGrid? p) with
  | some d => stripZeros 20 d
  | none => ⟨0, 0⟩

/-- Zeros in front, up to a width. -/
def padLeft (width : Nat) (s : String) : String :=
  "".pushn '0' (width - s.length) ++ s

/-- Where the point stands and when an exponent is written. -/
structure Layout where
  leastFixed : Int
  mostFixed : Int
  exponentWidth : Nat

/-- Numbers are written positionally from `10 ^ -4` up to below `10 ^ 16`, and with an exponent of
at least two digits otherwise. -/
def plainLayout : Layout := ⟨-4, 16, 2⟩

/-- A positive decimal in positional notation, with at least one digit on each side. -/
def writeFixed (digits : String) (point : Int) : String :=
  if point ≤ 0 then "0." ++ "".pushn '0' (-point).toNat ++ digits
  else if (digits.length : Int) ≤ point then
    digits ++ "".pushn '0' (point.toNat - digits.length) ++ ".0"
  else (digits.take point.toNat).toString ++ "." ++ (digits.drop point.toNat).toString

/-- A positive decimal with an exponent. -/
def writeExponent (layout : Layout) (digits : String) (exponent : Int) : String :=
  let lead := (digits.take 1).toString
  let tail := (digits.drop 1).toString
  let sign := if exponent < 0 then "-" else "+"
  lead ++ (if tail.isEmpty then "" else "." ++ tail) ++ "e" ++ sign
    ++ padLeft layout.exponentWidth (toString exponent.natAbs)

/-- The written form of positive digits. -/
def write (layout : Layout) (d : Digits) : String :=
  let digits := toString d.digits
  let exponent := d.exponent + digits.length - 1
  if layout.leastFixed ≤ exponent ∧ exponent < layout.mostFixed then
    writeFixed digits (exponent + 1)
  else writeExponent layout digits exponent

/-- Names of the numbers without digits. -/
structure Special where
  infinity : String
  nan : String

/-- The written form of a floating-point number: shortest digits in plain notation. -/
def writeFloat (names : Special) (x : Float) : String :=
  match Binary64.view x with
  | .nan => names.nan
  | .infinite negative => (if negative then "-" else "") ++ names.infinity
  | .finite p =>
    (if p.negative then "-" else "")
      ++ (if p.mantissa = 0 then "0.0" else write plainLayout (shortest p))

/-- A fraction with a fixed number of places, halves to the even last digit. -/
def writePlaces (places : Nat) (negative : Bool) (num den : Nat) : String :=
  let units := Binary64.roundHalfEven (num * Nat.pow 10 places) den
  let whole := toString (units / Nat.pow 10 places)
  let part := padLeft places (toString (units % Nat.pow 10 places))
  (if negative then "-" else "") ++ whole ++ "." ++ part

end ZeroRun.Decimal
