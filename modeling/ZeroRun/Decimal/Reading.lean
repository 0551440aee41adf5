import ZeroRun.Decimal.Binary64
import ZeroRun.Decimal.Whole

/-!
Reading decimals written by people. Blanks around the number are skipped, digits may be of any
script, and a single underscore may stand between two digits.
-/
namespace ZeroRun.Decimal

private def isDigit (c : Char) : Bool :=
  '0' ≤ c && c ≤ '9'

/-- The characters without the underscores, if each of these stands between two digits. The
first argument is the character before. -/
def dropUnderscores : (previous : Char) → List Char → Option (List Char)
  | previous, [] => if previous = '_' then none else some []
  | previous, c :: cs =>
    if c = '_' then
      if isDigit previous then dropUnderscores '_' cs else none
    else if previous = '_' && !isDigit c then none
    else (dropUnderscores c cs).map (c :: ·)

/-- The value of a row of digits. -/
def digitsValue (cs : List Char) : Nat :=
  cs.foldl (fun n c => 10 * n + (c.toNat - '0'.toNat)) 0

/-- The number without blanks and underscores, in ordinary digits. -/
def normalized? (cs : List Char) : Option (List Char) :=
  dropUnderscores ' ' (Text.trimBlank (asciiDigits cs))

/-- An unsigned decimal: digits in front of and behind the point, and an exponent. -/
structure Unsigned where
  whole : List Char
  fraction : List Char
  exponent : Int

/-- Reads the exponent, which may be left out. -/
def readExponent? : List Char → Option Int
  | [] => some 0
  | e :: cs =>
    if e = 'e' || e = 'E' then
      let (negative, digits) := splitSign cs
      if digits.isEmpty || !digits.all isDigit then none
      else
        let value : Int := digitsValue digits
        some (if negative then -value else value)
    else none

/-- Reads an unsigned decimal; a digit has to stand on one side of the point. -/
def readUnsigned? (cs : List Char) : Option Unsigned :=
  let whole := cs.takeWhile isDigit
  let rest := cs.dropWhile isDigit
  let (fraction, tail) :=
    match rest with
    | '.' :: more => (more.takeWhile isDigit, more.dropWhile isDigit)
    | _ => ([], rest)
  if whole.isEmpty && fraction.isEmpty then none
  else (readExponent? tail).map fun exponent => ⟨whole, fraction, exponent⟩

/-- The nearest floating-point number. Exponents far out of range need no exact arithmetic. -/
def Unsigned.toFloat (negative : Bool) (u : Unsigned) : Float :=
  let digits := digitsValue (u.whole ++ u.fraction)
  let exponent := u.exponent - u.fraction.length
  let top := exponent + (u.whole.length + u.fraction.length : Nat)
  if digits = 0 || top < -400 then Binary64.ofRatio negative 0 1
  else if 400 + (u.whole.length + u.fraction.length : Nat) < exponent then
    Binary64.infinity negative
  else if 0 ≤ exponent then Binary64.ofRatio negative (digits * Nat.pow 10 exponent.toNat) 1
  else Binary64.ofRatio negative digits (Nat.pow 10 (-exponent).toNat)

/-- Reads a decimal, an infinity or the number that is not one. -/
def readFloat? (cs : List Char) : Option Float :=
  match normalized? cs with
  | none => none
  | some cs =>
    let (negative, rest) := splitSign cs
    let name := String.ofList (rest.map Char.toLower)
    if name = "inf" || name = "infinity" then some (Binary64.infinity negative)
    else if name = "nan" then some Binary64.notANumber
    else (readUnsigned? rest).map (Unsigned.toFloat negative)

end ZeroRun.Decimal
