/-!
Texts of a data interchange format in which only printable ASCII characters stand for themselves.
Every other character is written as its UTF-16 units, four hexadecimal digits each.
-/
namespace ZeroRun.Text

/-- A UTF-16 unit as four hexadecimal digits after a mark. -/
def unitEscape (unit : Nat) : List Char :=
  ['\\', 'u', Nat.digitChar (unit / 4096 % 16), Nat.digitChar (unit / 256 % 16),
    Nat.digitChar (unit / 16 % 16), Nat.digitChar (unit % 16)]

/-- The UTF-16 units of a character: one, or a surrogate pair. -/
def unitsOf (c : Char) : List Nat :=
  if c.toNat < 0x10000 then [c.toNat]
  else
    let rest := c.toNat - 0x10000
    [0xd800 + rest / 0x400, 0xdc00 + rest % 0x400]

/-- One character of an escaped text. -/
def escapeChar (c : Char) : List Char :=
  match c with
  | '"' => ['\\', '"']
  | '\\' => ['\\', '\\']
  | '\n' => ['\\', 'n']
  | '\r' => ['\\', 'r']
  | '\t' => ['\\', 't']
  | '\x0c' => ['\\', 'f']
  | '\x08' => ['\\', 'b']
  | c => if 0x20 ≤ c.toNat ∧ c.toNat ≤ 0x7e then [c] else (unitsOf c).flatMap unitEscape

/-- A text between double quotes. -/
def escaped (s : String) : String :=
  String.ofList ('"' :: s.toList.flatMap escapeChar ++ ['"'])

end ZeroRun.Text
