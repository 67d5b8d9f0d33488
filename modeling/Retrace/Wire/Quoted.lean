import Retrace.Wire.Bytes

/-!
# Quoted text

A text stands between two quotes. Inside, the quote, the backslash and every control character are
escaped, so a quoted text holds no newline and ends at its first bare quote; all else is written as
it is, in UTF-8.

Reading is more liberal: any byte but a quote and a backslash stands for itself, and any character
below `U+10000` that is no surrogate may be given by four hexadecimal digits, the first of which may
be a plus sign.
-/

namespace Retrace
namespace Quoted

/-- The lower-case digit of a number below sixteen. -/
def hexDigit (n : Nat) : UInt8 := UInt8.ofNat (if n < 10 then 48 + n else 87 + n)

/-- How a character is written inside quotes. -/
def escape (c : Char) : Bytes :=
  if c = '"' then [92, 34]
  else if c = '\\' then [92, 92]
  else if c = '\n' then [92, 110]
  else if c = '\r' then [92, 114]
  else if c = '\t' then [92, 116]
  else if c.toNat < 32 then [92, 117, 48, 48, hexDigit (c.toNat / 16), hexDigit (c.toNat % 16)]
  else String.utf8EncodeChar c

/-- A text in quotes. -/
def written (s : String) : Bytes := 34 :: s.toList.flatMap escape ++ [34]

/-! ## Reading -/

/-- The number that a hexadecimal digit stands for, in either case. -/
def digitValue? (b : UInt8) : Option Nat :=
  if 48 ≤ b ∧ b ≤ 57 then some (b.toNat - 48)
  else if 97 ≤ b ∧ b ≤ 102 then some (b.toNat - 87)
  else if 65 ≤ b ∧ b ≤ 70 then some (b.toNat - 55)
  else none

/-- The number that hexadecimal digits write. -/
def hexValue? (digits : Bytes) : Option Nat :=
  digits.foldl (fun n? d => n?.bind fun n => (digitValue? d).map fun v => 16 * n + v) (some 0)

/-- The character that four bytes after `\u` stand for. -/
def unicode? (a b c d : UInt8) : Option Char :=
  let code? := if a = 43 then hexValue? [b, c, d] else hexValue? [a, b, c, d]
  code?.bind fun n => if n.isValidChar then some (Char.ofNat n) else none

/-- The byte that a one-letter escape stands for. -/
def letter? (b : UInt8) : Option UInt8 :=
  if b = 34 then some 34
  else if b = 92 then some 92
  else if b = 110 then some 10
  else if b = 114 then some 13
  else if b = 116 then some 9
  else none

/-- How far the reading of a quoted text gets. -/
inductive Scan where
  /-- The closing quote was found: the bytes before it, unescaped, and those after it. -/
  | closed (content rest : Bytes)
  /-- An escape stands for nothing; `rest` follows it. -/
  | malformed (rest : Bytes)
  | unfinished
deriving DecidableEq, Repr

/-- Reads up to the closing quote. What has been read is held in reverse. -/
def scan (done : Bytes) : Bytes → Scan
  | [] => .unfinished
  | b :: rest =>
    if b = 34 then .closed done.reverse rest
    else if b = 92 then
      match rest with
      | [] => .unfinished
      | e :: rest =>
        if e = 117 then
          match rest with
          | h₁ :: h₂ :: h₃ :: h₄ :: rest =>
            match unicode? h₁ h₂ h₃ h₄ with
            | some c => scan ((String.utf8EncodeChar c).reverse ++ done) rest
            | none => .malformed rest
          | _ => .unfinished
        else
          match letter? e with
          | some x => scan (x :: done) rest
          | none => .malformed rest
    else scan (b :: done) rest

end Quoted
end Retrace
