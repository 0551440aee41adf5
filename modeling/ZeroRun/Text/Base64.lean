/-!
Bytes written with sixty-four characters, six bits each. Other characters are passed over, and two
signs of equality, or one behind three characters, end the text.
-/
namespace ZeroRun.Text

/-- The six bits of a character. -/
def sixBits? (c : Char) : Option Nat :=
  if 'A' ≤ c && c ≤ 'Z' then some (c.toNat - 'A'.toNat)
  else if 'a' ≤ c && c ≤ 'z' then some (c.toNat - 'a'.toNat + 26)
  else if '0' ≤ c && c ≤ '9' then some (c.toNat - '0'.toNat + 52)
  else if c = '+' then some 62
  else if c = '/' then some 63
  else none

/-- The bytes behind those that are kept in reverse, after so many characters of a group of four,
with the bits that are left of the last one and the signs of equality since then. -/
def base64Onto : (bytes : List UInt8) → (place left equals : Nat) → List Char →
    Option (List UInt8)
  | bytes, place, _, _, [] => if place = 0 then some bytes.reverse else none
  | bytes, place, left, equals, c :: cs =>
    if c = '=' then
      if 2 ≤ place && 4 ≤ place + equals + 1 then some bytes.reverse
      else base64Onto bytes place left (if 2 ≤ place then equals + 1 else equals) cs
    else
      match sixBits? c with
      | none => base64Onto bytes place left equals cs
      | some bits =>
        match place with
        | 0 => base64Onto bytes 1 bits 0 cs
        | 1 => base64Onto (UInt8.ofNat (left * 4 + bits / 16) :: bytes) 2 (bits % 16) 0 cs
        | 2 => base64Onto (UInt8.ofNat (left * 16 + bits / 4) :: bytes) 3 (bits % 4) 0 cs
        | _ => base64Onto (UInt8.ofNat (left * 64 + bits) :: bytes) 0 0 0 cs

/-- The bytes of a text, if it ends between two groups or is filled up. -/
def base64? (cs : List Char) : Option (List UInt8) :=
  base64Onto [] 0 0 0 cs

end ZeroRun.Text
