/-!
Floating-point numbers as exact quantities. A finite number is a sign, a mantissa and a power of
two, and every positive fraction is rounded to the nearest number, halves to the even mantissa.
-/
namespace ZeroRun.Binary64

/-- The finite number with the given sign and magnitude `mantissa * 2 ^ exponent`. -/
structure Parts where
  negative : Bool
  mantissa : Nat
  exponent : Int
deriving Repr, DecidableEq

/-- What a floating-point number is. -/
inductive View where
  | finite (parts : Parts)
  | infinite (negative : Bool)
  | nan

/-- The exponent of the numbers closest to zero. -/
def minExponent : Int := -1074

/-- The exponent of the largest numbers. -/
def maxExponent : Int := 971

/-- The stored bit above the exponent, which is the sign. -/
def signBit : Nat := Nat.pow 2 63

/-- The leading bit of a mantissa, which is not stored. -/
def leadingBit : Nat := Nat.pow 2 52

/-- Reads sign, mantissa and exponent off the stored bits. -/
def view (x : Float) : View :=
  let bits := x.toBits.toNat
  let negative := bits / signBit = 1
  let biased : Nat := bits / leadingBit % 2048
  let fraction : Nat := bits % leadingBit
  if biased = 2047 then
    if fraction = 0 then .infinite negative else .nan
  else if biased = 0 then .finite ⟨negative, fraction, minExponent⟩
  else .finite ⟨negative, fraction + leadingBit, biased - 1075⟩

/-- Positive or negative infinity. -/
def infinity (negative : Bool) : Float :=
  Float.ofBits (UInt64.ofNat ((if negative then signBit else 0) + 2047 * leadingBit))

/-- The number that is not a number. -/
def notANumber : Float :=
  Float.ofBits (UInt64.ofNat (2047 * leadingBit + leadingBit / 2))

/-- Stores a mantissa below `2 ^ 53`. An exponent above the largest gives infinity. -/
def ofParts (p : Parts) : Float :=
  let sign := if p.negative then signBit else 0
  if p.mantissa < leadingBit then Float.ofBits (UInt64.ofNat (sign + p.mantissa))
  else if maxExponent < p.exponent then infinity p.negative
  else
    let biased := (p.exponent + 1075).toNat
    Float.ofBits (UInt64.ofNat (sign + biased * leadingBit + (p.mantissa - leadingBit)))

/-- The nearest whole number to `num / den`; of two equally near ones, the even one. -/
def roundHalfEven (num den : Nat) : Nat :=
  let quotient := num / den
  let twice := 2 * (num % den)
  if twice < den then quotient
  else if den < twice then quotient + 1
  else quotient + quotient % 2

/-- The fraction `num / den` scaled by a power of two. -/
def scaled (num den : Nat) (power : Int) : Nat × Nat :=
  if 0 ≤ power then (num * Nat.pow 2 power.toNat, den) else (num, den * Nat.pow 2 (-power).toNat)

/-- The nearest number to `num / den`, and `none` where it would be infinite. -/
def ofRatio? (negative : Bool) (num den : Nat) : Option Float :=
  if num = 0 then some (ofParts ⟨negative, 0, minExponent⟩)
  else
    let estimate : Int := (Nat.log2 num : Int) - Nat.log2 den - 53
    let candidate : Int :=
      let (n, d) := scaled num den (-estimate)
      if n / d < 2 * leadingBit then estimate else estimate + 1
    let exponent := max minExponent candidate
    let (n, d) := scaled num den (-exponent)
    let mantissa := roundHalfEven n d
    let parts : Parts :=
      if mantissa = 2 * leadingBit then ⟨negative, leadingBit, exponent + 1⟩
      else ⟨negative, mantissa, exponent⟩
    if maxExponent < parts.exponent then none else some (ofParts parts)

/-- The nearest number to `num / den`, infinity where it is out of range. -/
def ofRatio (negative : Bool) (num den : Nat) : Float :=
  (ofRatio? negative num den).getD (infinity negative)

/-- The nearest number to a whole number, and `none` where it would be infinite. -/
def ofInt? (n : Int) : Option Float :=
  ofRatio? (n < 0) n.natAbs 1

/-- The fraction that a magnitude `mantissa * 2 ^ exponent` is. -/
def Parts.ratio (p : Parts) : Nat × Nat :=
  scaled p.mantissa 1 p.exponent

/-- The whole number next to `p` on the side of zero. -/
def Parts.truncate (p : Parts) : Int :=
  let (num, den) := p.ratio
  if p.negative then -(num / den : Nat) else (num / den : Nat)

/-- Is the whole number `n` greater than the number `p`? Exact for all sizes. -/
def Parts.below (p : Parts) (n : Int) : Bool :=
  let (num, den) := p.ratio
  let value : Int := if p.negative then -num else num
  decide (value < n * den)

end ZeroRun.Binary64
