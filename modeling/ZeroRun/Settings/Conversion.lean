import ZeroRun.Decimal.Reading
import ZeroRun.Error

/-!
Numbers out of document values. A truth value counts as zero or one, a text or a row of bytes is
read, and a floating-point number loses its fraction where a whole number is wanted.
-/
namespace ZeroRun

/-- A whole number to a base in a text, whose quoted form is shown if it is none. -/
def wholeFrom (base : Nat) (cs : List Char) (written : String) : Except ConversionError Int :=
  match Decimal.readWhole base cs with
  | .ok n => .ok n
  | .error .malformed => .error (.notWhole base written)
  | .error (.tooManyDigits count) => .error (.tooManyDigits count)

/-- A floating-point number in a text, whose quoted form is shown if it is none. -/
def decimalFrom (cs : List Char) (written : String) : Except ConversionError Float :=
  match Decimal.readFloat? cs with
  | some x => .ok x
  | none => .error (.notDecimal written)

/-- Bytes as the characters of a number; those beyond the plain ones stand for none. -/
def plainCharacters (bytes : List UInt8) : List Char :=
  bytes.map fun b => if b < 0x80 then Char.ofNat b.toNat else '?'

namespace Datum

/-- The value as a whole number. -/
def toWhole : Datum → Except ConversionError Int
  | .bool b => .ok (if b then 1 else 0)
  | .int n => .ok n
  | .float x =>
    match Binary64.view x with
    | .nan => .error .wholeFromNaN
    | .infinite _ => .error .wholeFromInfinity
    | .finite parts => .ok parts.truncate
  | .text s => wholeFrom 10 s.toList (Text.quoted s)
  | .bytes value =>
    wholeFrom 10 (plainCharacters value) (Text.quotedBytes (value.take shownCharacters))
  | other => .error (.wholeFrom other.fullKindName)

/-- The value as a floating-point number. -/
def toDecimal : Datum → Except ConversionError Float
  | .bool b => .ok (if b then 1.0 else 0.0)
  | .int n =>
    match Binary64.ofInt? n with
    | some x => .ok x
    | none => .error .decimalTooLarge
  | .float x => .ok x
  | .text s => decimalFrom s.toList (Text.quoted s)
  | .bytes value => decimalFrom (plainCharacters value) (Text.quotedBytes value)
  | other => .error (.decimalFrom other.fullKindName)

end Datum
end ZeroRun
