import ZeroRun.Decimal.Whole
import ZeroRun.Text.Printable

/-!
Texts as they appear inside messages. A quoted text stands between single quotes, or between double
quotes when it holds a single quote and no double one; a backslash marks the quote in use, the
backslash itself and the characters that cannot be shown. Sequences are written with brackets,
tuples with parentheses and mappings with braces. A whole number with too many digits has no text.
-/
namespace ZeroRun.Text

/-- The quote that needs no mark if one exists, and the single quote otherwise. -/
def quoteFor (s : String) : Char :=
  if s.toList.contains '\'' && !s.toList.contains '"' then '"' else '\''

/-- A code in hexadecimal digits, filled up to a width. -/
def hexDigits : (width code : Nat) → List Char
  | 0, _ => []
  | width + 1, code => hexDigits width (code / 16) ++ [Nat.digitChar (code % 16)]

/-- The first of the private codes that stand for halves of surrogate pairs, which are no characters
but may be asked for by their codes. -/
def firstHalfCode : Nat := 0xf0000

/-- The character for a code, where a half of a surrogate pair has a private one. -/
def characterOf (code : Nat) : Char :=
  if 0xd800 ≤ code && code < 0xe000 then Char.ofNat (code - 0xd800 + firstHalfCode)
  else Char.ofNat code

/-- A code that cannot be shown, in as many digits as its size asks for. -/
def hiddenCode (code : Nat) : List Char :=
  if firstHalfCode ≤ code && code < firstHalfCode + 0x800 then
    '\\' :: 'u' :: hexDigits 4 (code - firstHalfCode + 0xd800)
  else if code < 0x100 then '\\' :: 'x' :: hexDigits 2 code
  else if code < 0x10000 then '\\' :: 'u' :: hexDigits 4 code
  else '\\' :: 'U' :: hexDigits 8 code

/-- One character of a quoted text. -/
def quoteChar (quote c : Char) : List Char :=
  if c = quote || c = '\\' then ['\\', c]
  else if c = '\n' then ['\\', 'n']
  else if c = '\r' then ['\\', 'r']
  else if c = '\t' then ['\\', 't']
  else if isPrintable c then [c]
  else hiddenCode c.toNat

/-- The quoted form of a text. -/
def quoted (s : String) : String :=
  let quote := quoteFor s
  String.ofList (quote :: s.toList.flatMap (quoteChar quote) ++ [quote])

/-- The quoted form of a row of bytes; only the plain printable ones are shown. -/
def quotedBytes (bytes : List UInt8) : String :=
  let cs := bytes.map fun b => Char.ofNat b.toNat
  let quote := quoteFor (String.ofList cs)
  String.ofList ('b' :: quote :: cs.flatMap (fun c =>
    if c.toNat < 0x7f then quoteChar quote c else hiddenCode c.toNat) ++ [quote])

/-- Written items between brackets. -/
def bracketed (items : List String) : String :=
  "[" ++ ", ".intercalate items ++ "]"

/-- Written items between parentheses; a single item keeps a comma, so that it is no mere
grouping. -/
def parenthesized : List String → String
  | [item] => "(" ++ item ++ ",)"
  | items => "(" ++ ", ".intercalate items ++ ")"

/-- Written entries between braces. -/
def braced (entries : List (String × String)) : String :=
  "\x7b" ++ ", ".intercalate (entries.map fun e => e.1 ++ ": " ++ e.2) ++ "\x7d"

/-- Written members of a set between braces. -/
def setOf (items : List String) : String :=
  if items.isEmpty then "set()" else "\x7b" ++ ", ".intercalate items ++ "\x7d"

/-- A whole number, if it does not have too many digits. -/
def int? (n : Int) : Option String :=
  if Decimal.isWritable n then some (toString n) else none

/-- A list of whole numbers, such as the transitions of a walk. -/
def ints? (ns : List Int) : Option String :=
  (ns.mapM int?).map bracketed

/-- Three words as the segments of a loop: the middle one is repeated. -/
def loop? (stem cycle tail : List Int) : Option String := do
  return (← ints? stem) ++ " (" ++ (← ints? cycle) ++ ")* " ++ (← ints? tail)

/-- A truth value. -/
def bool (b : Bool) : String :=
  if b then "True" else "False"

end ZeroRun.Text
