import ZeroRun.Document.Tag
import ZeroRun.Settings.Conversion
import ZeroRun.Text.Base64
import ZeroRun.Text.Lowercase

/-!
The values of scalars. A tag that a scalar carries may not fit its text, so that reading may fail in
many ways.
-/
namespace ZeroRun.Document

/-- A failed conversion of a scalar. -/
def numberFault {α : Type} (result : Except ConversionError α) : Except Error α :=
  result.mapError fun cause => .scalar (.number cause)

/-- A whole number to a base in characters. -/
def wholeOf (base : Nat) (cs : List Char) : Except Error Int :=
  numberFault (wholeFrom base cs (Text.quoted (String.ofList cs)))

/-- A decimal in characters. -/
def decimalOf (cs : List Char) : Except Error Float :=
  numberFault (decimalFrom cs (Text.quoted (String.ofList cs)))

/-- The sign in front of a number without underscores, and the rest; something has to be there. -/
def signed (cs : List Char) : Except Error (Bool × List Char) :=
  match cs.filter (· ≠ '_') with
  | [] => .error (.scalar .missingDigit)
  | bare => .ok (Decimal.splitSign bare)

/-- A whole number without its sign: to base two, eight, ten, sixteen or sixty. -/
def unsignedWhole : List Char → Except Error Int
  | [] => .error (.scalar .missingDigit)
  | ['0'] => .ok 0
  | '0' :: 'b' :: cs => wholeOf 2 cs
  | '0' :: 'x' :: cs => wholeOf 16 cs
  | '0' :: cs => wholeOf 8 ('0' :: cs)
  | cs =>
    if cs.contains ':' then do
      let places ← (splitColons cs).mapM (wholeOf 10)
      return places.foldl (fun sum place => 60 * sum + place) 0
    else wholeOf 10 cs

/-- The value of a whole number. -/
def wholeValue (cs : List Char) : Except Error Int := do
  let (negative, rest) ← signed cs
  let value ← unsignedWhole rest
  return if negative then -value else value

/-- The sum of sexagesimal places from the last one on, each with its weight. A weight may be too
large for a floating-point number. -/
def sixtySum : (weight : Nat) → (sum : Float) → List Float → Except Error Float
  | _, sum, [] => .ok sum
  | weight, sum, place :: places =>
    match Binary64.ofInt? weight with
    | some factor => sixtySum (weight * 60) (sum + place * factor) places
    | none => .error (.scalar (.number .decimalTooLarge))

/-- The value of a decimal. -/
def decimalValue (cs : List Char) : Except Error Float := do
  let small := (Text.lower (String.ofList (cs.filter (· ≠ '_')))).toList
  let (negative, rest) ← signed small
  let text := String.ofList rest
  let value ←
    if text = ".inf" then pure (Binary64.infinity false)
    else if text = ".nan" then pure Binary64.notANumber
    else if rest.contains ':' then do
      let places ← (splitColons rest).mapM decimalOf
      sixtySum 1 0.0 places.reverse
    else decimalOf rest
  return if negative then -value else value

/-- The truth values by name. -/
def truthValue (text : String) : Except Error Bool :=
  let name := Text.lower text
  if ["yes", "true", "on"].contains name then .ok true
  else if ["no", "false", "off"].contains name then .ok false
  else .error (.scalar (.notTruth name))

/-- Bytes in a text of plain characters. -/
def bytesValue (text : String) : Except Error (List UInt8) :=
  if text.toList.all fun c => c.toNat < 0x80 then
    match Text.base64? text.toList with
    | some bytes => .ok bytes
    | none => .error .unreadable
  else .error .unreadable

/-- The value of digits. -/
def figure (cs : List Char) : Nat :=
  Decimal.digitsTo 10 cs

/-- The minutes of a zone, if there is one. -/
def zoneMinutes? (zone : List Char) : Option Int :=
  match zone.dropWhile fun c => c = ' ' || c = '\t' with
  | [] => none
  | 'Z' :: _ => some 0
  | sign :: rest =>
    let hour := figure (rest.takeWhile Char.isDigit)
    let minute := figure ((rest.dropWhile Char.isDigit).drop 1)
    let minutes : Int := (60 * hour + minute : Nat)
    some (if sign = '-' then -minutes else minutes)

/-- A fraction of a second in millionths; further digits are cut off. -/
def microseconds (fraction : List Char) : Nat :=
  figure ((fraction ++ List.replicate 6 '0').take 6)

/-- The value of a day or moment. -/
def momentValue (cs : List Char) : Except Error Datum :=
  match Timestamp.ofText? cs with
  | none => .error (.scalar .notMoment)
  | some stamp =>
    let result : Except CalendarFault Datum :=
      match stamp.time with
      | none => (Date.make (figure stamp.year) (figure stamp.month) (figure stamp.day)).map .date
      | some (hour, minute, second, fraction, zone) =>
        (Moment.make (figure stamp.year) (figure stamp.month) (figure stamp.day) (figure hour)
          (figure minute) (figure second) (microseconds fraction) (zoneMinutes? zone)).map .moment
    result.mapError fun cause => .scalar (.calendar cause)

/-- The characters without a line break at the end. -/
def dropLastBreak (cs : List Char) : List Char :=
  match cs.reverse with
  | '\n' :: rest => rest.reverse
  | _ => cs

/-- The value of a scalar of a kind. -/
def scalarValue (tag : Tag) (text : String) : Except Error Datum :=
  match tag with
  | .null => .ok .null
  | .bool => (truthValue text).map .bool
  | .int => (wholeValue text.toList).map .int
  | .float => (decimalValue text.toList).map .float
  | .binary => (bytesValue text).map .bytes
  | .timestamp => momentValue (dropLastBreak text.toList)
  | .str => .ok (.text text)
  | _ => .error .unreadable

end ZeroRun.Document
