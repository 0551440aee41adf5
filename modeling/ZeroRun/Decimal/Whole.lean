import ZeroRun.Text.Blank
import ZeroRun.Text.DecimalDigit

/-!
Whole numbers in texts. Blanks around the number are skipped, digits may be of any script, and a
single underscore may stand between two digits. A number to a base that is no power of two has a
limit to its digits, both when it is read and when it is written.
-/
namespace ZeroRun.Decimal

/-- The greatest number of decimal digits that are read or written. -/
def maxDigits : Nat := 4300

/-- The least magnitude with more digits than are written. -/
@[irreducible]
def digitBound : Nat := Nat.pow 10 maxDigits

/-- Is the number short enough to be written in decimal digits? -/
def isWritable (n : Int) : Bool :=
  n.natAbs < digitBound

/-- Why a text is no whole number. -/
inductive WholeFault where
  | malformed
  | tooManyDigits (count : Nat)
deriving DecidableEq, Repr

/-- Digits of any script as ordinary ones. -/
def asciiDigits (cs : List Char) : List Char :=
  cs.map fun c =>
    match Text.digitValue? c with
    | some d => Nat.digitChar d
    | none => c

/-- The sign in front, and the rest. -/
def splitSign : List Char → Bool × List Char
  | '-' :: cs => (true, cs)
  | '+' :: cs => (false, cs)
  | cs => (false, cs)

/-- The value of a letter or digit as a digit to a base. -/
def digitOf? (base : Nat) (c : Char) : Option Nat :=
  let value :=
    if '0' ≤ c && c ≤ '9' then c.toNat - '0'.toNat
    else if 'a' ≤ c && c ≤ 'z' then c.toNat - 'a'.toNat + 10
    else if 'A' ≤ c && c ≤ 'Z' then c.toNat - 'A'.toNat + 10
    else base
  if value < base then some value else none

/-- The value of digits to a base. -/
def digitsTo (base : Nat) (digits : List Char) : Nat :=
  digits.foldl (fun n c => base * n + (digitOf? base c).getD 0) 0

/-- The letter that may stand behind a zero in front of digits to a base. -/
def baseLetter? : Nat → Option Char
  | 2 => some 'b'
  | 8 => some 'o'
  | 16 => some 'x'
  | _ => none

/-- The characters without the mark of their base; one underscore may follow the mark. -/
def dropBaseMark (base : Nat) (cs : List Char) : List Char :=
  match cs, baseLetter? base with
  | '0' :: c :: rest, some letter =>
    if c.toLower = letter then
      match rest with
      | '_' :: rest => rest
      | rest => rest
    else cs
  | _, _ => cs

/-- Does every underscore stand between two other characters? The first argument is the character
in front, which is an underscore at the beginning. -/
def wellSpaced : (previous : Char) → List Char → Bool
  | previous, [] => previous ≠ '_'
  | previous, c :: cs => !(previous = '_' && c = '_') && wellSpaced c cs

/-- Is the number of digits to a base limited? -/
def isLimited (base : Nat) : Bool :=
  (baseLetter? base).isNone

/-- Reads a whole number to a base. The digits are counted before what follows them is looked
at. -/
def readWhole (base : Nat) (cs : List Char) : Except WholeFault Int :=
  let (negative, signless) := splitSign ((asciiDigits cs).dropWhile Text.isBlank)
  let bare := dropBaseMark base signless
  let body := bare.takeWhile fun c => (digitOf? base c).isSome || c = '_'
  let digits := body.filter (· ≠ '_')
  if !wellSpaced '_' body then .error .malformed
  else if isLimited base && maxDigits < digits.length then .error (.tooManyDigits digits.length)
  else if (bare.drop body.length).all Text.isBlank then
    let value : Int := digitsTo base digits
    .ok (if negative then -value else value)
  else .error .malformed

end ZeroRun.Decimal
