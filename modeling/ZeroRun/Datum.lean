import ZeroRun.Calendar
import ZeroRun.Decimal.Shortest
import ZeroRun.Decimal.Whole
import ZeroRun.Text.Quoted

/-!
Values of a document whose shape is not known in advance: a configuration as read from a file,
or the description of a counter system before it has been checked.
-/
namespace ZeroRun

/-- The brackets around a collection. -/
inductive Brackets where
  | square
  | curly
deriving DecidableEq, Repr

/-- A document value. A mapping keeps its entries in order. A collection that may stand at several
places of a document is kept apart, and its places hold its number. -/
inductive Datum where
  | null
  | bool (value : Bool)
  | int (value : Int)
  | float (value : Float)
  | text (value : String)
  | bytes (value : List UInt8)
  | date (value : Date)
  | moment (value : Moment)
  | list (items : List Datum)
  | pair (first second : Datum)
  | map (entries : List (Datum × Datum))
  | set (items : List Datum)
  /-- The collection with a number. -/
  | shared (number : Nat)
  /-- A collection inside itself. -/
  | again (brackets : Brackets)
deriving Inhabited

/-- The names of the numbers without digits in messages. -/
def messageNumbers : Decimal.Special := ⟨"inf", "nan"⟩

/-- What is shown of a collection inside itself, or of one that is kept apart. -/
def Brackets.around : Brackets → String
  | .square => "[...]"
  | .curly => "\x7b...\x7d"

namespace Datum

mutual
/-- The form in which a value appears in a message, if no number in it has too many digits. -/
def quoted? : Datum → Option String
  | .null => some "None"
  | .bool b => some (Text.bool b)
  | .int n => Text.int? n
  | .float x => some (Decimal.writeFloat messageNumbers x)
  | .text s => some (Text.quoted s)
  | .bytes value => some (Text.quotedBytes value)
  | .date value => some value.quoted
  | .moment value => some value.quoted
  | .list items => (quotedItems? items).map Text.bracketed
  | .pair first second => do return Text.parenthesized [← first.quoted?, ← second.quoted?]
  | .map entries => (quotedEntries? entries).map Text.braced
  | .set items => (quotedItems? items).map Text.setOf
  | .shared _ => some Brackets.square.around
  | .again brackets => some brackets.around
/-- The written items of a list. -/
def quotedItems? : List Datum → Option (List String)
  | [] => some []
  | item :: items => do return (← item.quoted?) :: (← quotedItems? items)
/-- The written entries of a mapping. -/
def quotedEntries? : List (Datum × Datum) → Option (List (String × String))
  | [] => some []
  | (key, value) :: entries => do
    return (← key.quoted?, ← value.quoted?) :: (← quotedEntries? entries)
end

/-- The form in running text: a text stands without quotes. -/
def plain? : Datum → Option String
  | .text s => some s
  | .date value => some value.plain
  | .moment value => some value.plain
  | other => other.quoted?

/-- The name of a value's kind. -/
def kindName : Datum → String
  | .null => "NoneType"
  | .bool _ => "bool"
  | .int _ => "int"
  | .float _ => "float"
  | .text _ => "str"
  | .bytes _ => "bytes"
  | .date _ => "date"
  | .moment _ => "datetime"
  | .list _ | .shared _ | .again .square => "list"
  | .pair _ _ => "tuple"
  | .map _ | .again .curly => "dict"
  | .set _ => "set"

/-- The name of a value's kind with the family that it comes from. -/
def fullKindName : Datum → String
  | .date _ => "datetime.date"
  | .moment _ => "datetime.datetime"
  | other => other.kindName

/-- Nothing, false, zero, or an empty text or collection. -/
def isBlank : Datum → Bool
  | .null => true
  | .bool b => !b
  | .int n => n = 0
  | .float x => x == 0.0
  | .text s => s.isEmpty
  | .bytes value => value.isEmpty
  | .list items => items.isEmpty
  | .map entries => entries.isEmpty
  | .set items => items.isEmpty
  | _ => false

/-- The value under a textual key; a later entry of the same key replaces an earlier one. -/
def lookup? (key : String) (entries : List (Datum × Datum)) : Option Datum :=
  entries.foldl (fun found entry =>
    match entry.1 with
    | .text k => if k = key then some entry.2 else found
    | _ => found) none

end Datum

/-- A figure in a budget or report: whole, or floating-point. -/
inductive Number where
  | int (value : Int)
  | float (value : Float)
deriving Inhabited, BEq

namespace Number

/-- The nearest floating-point number, unless it is out of range. -/
def toFloat? : Number → Option Float
  | .int n => Binary64.ofInt? n
  | .float x => some x

/-- Exact comparison: is `a` greater than `b`? -/
def exceeds : Number → Number → Bool
  | .int m, .int n => decide (n < m)
  | .float x, .float y => decide (y < x)
  | .int m, .float y =>
    match Binary64.view y with
    | .nan => false
    | .infinite negative => negative
    | .finite p => p.below m
  | .float x, .int n =>
    match Binary64.view x with
    | .nan => false
    | .infinite negative => !negative
    | .finite p => Binary64.Parts.below { p with negative := !p.negative } (-n)

/-- The difference. It is whole only between whole numbers; otherwise there has to be a nearest
floating-point number to both. -/
def sub? : Number → Number → Option Number
  | .int m, .int n => some (.int (m - n))
  | a, b => do return .float ((← a.toFloat?) - (← b.toFloat?))

/-- Is it the number that is not one? -/
def isNaN : Number → Bool
  | .int _ => false
  | .float x => x.isNaN

/-- Is the number below zero? A number that is not one is not below zero. -/
def isNegative (a : Number) : Bool :=
  (Number.int 0).exceeds a

/-- The written form with the given names for numbers without digits. -/
def write? (names : Decimal.Special) : Number → Option String
  | .int n => Text.int? n
  | .float x => some (Decimal.writeFloat names x)

/-- The form in messages. -/
def plain? (a : Number) : Option String :=
  a.write? messageNumbers

/-- Is there a nearest floating-point number? -/
def hasFloat (a : Number) : Bool :=
  a.toFloat?.isSome

/-- A floating-point number with a fixed count of decimal places. -/
def floatPlaces (count : Nat) (x : Float) : String :=
  match Binary64.view x with
  | .nan => messageNumbers.nan
  | .infinite negative => (if negative then "-" else "") ++ messageNumbers.infinity
  | .finite p =>
    let (num, den) := p.ratio
    Decimal.writePlaces count p.negative num den

/-- The nearest floating-point number with a fixed count of decimal places. -/
def places? (count : Nat) (a : Number) : Option String :=
  a.toFloat?.map (floatPlaces count)

end Number
end ZeroRun
