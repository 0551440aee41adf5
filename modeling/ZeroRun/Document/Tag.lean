import ZeroRun.Decimal.Whole

/-!
What kind of value a node of a YAML 1.1 document stands for. A scalar without a tag of its own is
told from its form: nothing, a truth value, a number in one of many notations, a day or moment, or
else a text.
-/
namespace ZeroRun.Document

/-- The kind of a node. Two kinds have a meaning only as keys. -/
inductive Tag where
  | null
  | bool
  | int
  | float
  | binary
  | timestamp
  | omap
  | pairs
  | set
  | str
  | seq
  | map
  | merge
  | value
  | unknown
deriving DecidableEq, Repr

/-- What the names of the known kinds begin with. -/
def tagBeginning : String := "tag:yaml.org,2002:"

/-- The names of the known kinds. -/
def tagNames : List (String × Tag) :=
  [("null", .null), ("bool", .bool), ("int", .int), ("float", .float), ("binary", .binary),
    ("timestamp", .timestamp), ("omap", .omap), ("pairs", .pairs), ("set", .set), ("str", .str),
    ("seq", .seq), ("map", .map), ("merge", .merge), ("value", .value)]

/-- The kind with a full name. -/
def Tag.ofName (name : String) : Tag :=
  ((tagNames.find? fun (short, _) => name = tagBeginning ++ short).map Prod.snd).getD .unknown

private def isDigitMark (c : Char) : Bool :=
  c.isDigit || c = '_'

/-- Has a row of characters of a class, and is it not empty? -/
def isRow (p : Char → Bool) (cs : List Char) : Bool :=
  !cs.isEmpty && cs.all p

/-- The parts between colons. -/
def splitColons (cs : List Char) : List (List Char) :=
  cs.foldr (fun c parts =>
    match parts with
    | [] => [[c]]
    | part :: rest => if c = ':' then [] :: part :: rest else (c :: part) :: rest) [[]]

/-- A sexagesimal place: one digit, or two of which the first is at most five. -/
def isSixty : List Char → Bool
  | [a] => a.isDigit
  | [a, b] => '0' ≤ a && a ≤ '5' && b.isDigit
  | _ => false

/-- Has a whole number without its sign this form? Its base is two, eight, ten, sixteen or
sixty. -/
def isWholeForm : List Char → Bool
  | '0' :: 'b' :: cs => isRow (fun c => c = '0' || c = '1' || c = '_') cs
  | '0' :: 'x' :: cs => isRow (fun c => (Decimal.digitOf? 16 c).isSome || c = '_') cs
  | '0' :: cs => cs.all fun c => ('0' ≤ c && c ≤ '7') || c = '_'
  | cs =>
    (cs.head?.map Char.isDigit).getD false
      && match splitColons cs with
        | whole :: places => whole.all isDigitMark && places.all isSixty
        | [] => false

/-- An exponent as a decimal may end with; it has a sign. -/
def isExponent : List Char → Bool
  | [] => true
  | e :: sign :: digits =>
    (e = 'e' || e = 'E') && (sign = '+' || sign = '-') && isRow Char.isDigit digits
  | _ => false

/-- Has a decimal without its sign this form? A digit stands in front of the point, or right behind
it if there is no sign. -/
def isDecimalForm (signed : Bool) (cs : List Char) : Bool :=
  let whole := cs.takeWhile isDigitMark
  match cs.dropWhile isDigitMark with
  | '.' :: rest =>
    isExponent (rest.dropWhile isDigitMark)
      && match whole, rest with
        | [], d :: _ => !signed && d.isDigit
        | d :: _, _ => d.isDigit
        | [], [] => false
  | _ => false

/-- Has a decimal whose whole part is sexagesimal, without its sign, this form? -/
def isSixtyDecimalForm (cs : List Char) : Bool :=
  match splitColons (cs.takeWhile (· ≠ '.')), cs.dropWhile (· ≠ '.') with
  | whole :: place :: places, '.' :: fraction =>
    (whole.head?.map Char.isDigit).getD false && whole.all isDigitMark
      && (place :: places).all isSixty && fraction.all isDigitMark
  | _, _ => false

/-- Has a decimal, an infinity or the number that is not one this form? -/
def isFloatForm (cs : List Char) : Bool :=
  let rest := (Decimal.splitSign cs).2
  let signed := rest.length < cs.length
  let text := String.ofList rest
  [".inf", ".Inf", ".INF"].contains text
    || (!signed && [".nan", ".NaN", ".NAN"].contains text)
    || isDecimalForm signed rest || isSixtyDecimalForm rest

/-- The figures of a day or moment as they are written. -/
structure Timestamp where
  year : List Char
  month : List Char
  day : List Char
  /-- Hour, minute, second, the fraction of the second, and the zone. -/
  time : Option (List Char × List Char × List Char × List Char × List Char)

/-- One or two digits in front, and the rest. -/
def upToTwoDigits? : List Char → Option (List Char × List Char)
  | a :: b :: cs =>
    if a.isDigit then (if b.isDigit then some ([a, b], cs) else some ([a], b :: cs)) else none
  | [a] => if a.isDigit then some ([a], []) else none
  | [] => none

/-- Two digits in front, and the rest. -/
def twoDigits? : List Char → Option (List Char × List Char)
  | a :: b :: cs => if a.isDigit && b.isDigit then some ([a, b], cs) else none
  | _ => none

/-- What follows a character. -/
def behind? (c : Char) : List Char → Option (List Char)
  | d :: cs => if c = d then some cs else none
  | [] => none

/-- The gap between a day and a time: a letter, or blanks. -/
def timeGap? : List Char → Option (List Char)
  | c :: cs =>
    if c = 'T' || c = 't' then some cs
    else if c = ' ' || c = '\t' then some (cs.dropWhile fun c => c = ' ' || c = '\t')
    else none
  | [] => none

/-- Has a zone this form? It may be left out, and blanks may stand in front of it. -/
def isZoneForm (cs : List Char) : Bool :=
  match cs.dropWhile fun c => c = ' ' || c = '\t' with
  | [] => cs.isEmpty
  | ['Z'] => true
  | sign :: rest =>
    (sign = '+' || sign = '-')
      && match upToTwoDigits? rest with
        | some (_, []) => true
        | some (_, ':' :: minute) => (twoDigits? minute).any fun (_, rest) => rest.isEmpty
        | _ => false

/-- The figures of a day or moment. -/
def Timestamp.ofText? (cs : List Char) : Option Timestamp := do
  let year := cs.take 4
  if !(year.length = 4 && year.all Char.isDigit) then none
  else
    let (month, rest) ← upToTwoDigits? (← behind? '-' (cs.drop 4))
    let (day, rest) ← upToTwoDigits? (← behind? '-' rest)
    if rest.isEmpty then return ⟨year, month, day, none⟩
    else
      let (hour, rest) ← upToTwoDigits? (← timeGap? rest)
      let (minute, rest) ← twoDigits? (← behind? ':' rest)
      let (second, rest) ← twoDigits? (← behind? ':' rest)
      let (fraction, zone) :=
        match rest with
        | '.' :: rest => (rest.takeWhile Char.isDigit, rest.dropWhile Char.isDigit)
        | rest => ([], rest)
      if isZoneForm zone then
        return ⟨year, month, day, some (hour, minute, second, fraction, zone)⟩
      else none

/-- Has a day or moment this form? A day alone has two digits for the month and for the day. -/
def isTimestampForm (cs : List Char) : Bool :=
  match Timestamp.ofText? cs with
  | some stamp => stamp.time.isSome || (stamp.month.length = 2 && stamp.day.length = 2)
  | none => false

/-- The spellings of the truth values. -/
def truthForms : List String :=
  ["yes", "Yes", "YES", "no", "No", "NO", "true", "True", "TRUE", "false", "False", "FALSE", "on",
    "On", "ON", "off", "Off", "OFF"]

/-- The kind of a scalar by its form, where a line break at the end does not count. -/
def Tag.ofForm (text : String) : Tag :=
  let cs :=
    match text.toList.reverse with
    | '\n' :: rest => rest.reverse
    | _ => text.toList
  let form := String.ofList cs
  if text.isEmpty then .null
  else if cs.isEmpty then .str
  else if truthForms.contains form then .bool
  else if isFloatForm cs then .float
  else if isWholeForm (Decimal.splitSign cs).2 then .int
  else if form = "<<" then .merge
  else if ["~", "null", "Null", "NULL"].contains form then .null
  else if isTimestampForm cs then .timestamp
  else if form = "=" then .value
  else .str

end ZeroRun.Document
