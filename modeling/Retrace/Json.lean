import Retrace.Double.Text

/-!
# JSON for people

JSON data, and its layout over several lines: every element and every member on a line of its own,
two spaces further in than what encloses it, and nothing between the brackets of what is empty.
-/

namespace Retrace

/-- JSON data. The members of an object keep their order. -/
inductive Json where
  | null
  | bool (b : Bool)
  | int (n : Int)
  | double (x : Double)
  | str (s : String)
  | arr (items : List Json)
  | obj (members : List (String × Json))

namespace Json

/-- Doubles in JSON: positional from `1e-5` up to `1e16`, a signed exponent beyond, and nothing for
what is no number. -/
def doubleStyle : Double.Style where
  plainFrom := -5
  plainBelow := 16
  signedExponent := true
  tie := .even
  nan := "null"
  infinity := "null"
  negativeInfinity := "null"

/-- The lower-case digit of a number below sixteen. -/
def hexDigit (n : Nat) : Char := Char.ofNat (if n < 10 then 48 + n else 87 + n)

/-- How a character is written inside quotes. -/
def escape (c : Char) : List Char :=
  if c = '"' then ['\\', '"']
  else if c = '\\' then ['\\', '\\']
  else if c = '\n' then ['\\', 'n']
  else if c = '\r' then ['\\', 'r']
  else if c = '\t' then ['\\', 't']
  else if c.toNat = 8 then ['\\', 'b']
  else if c.toNat = 12 then ['\\', 'f']
  else if c.toNat < 32 then
    ['\\', 'u', '0', '0', hexDigit (c.toNat / 16), hexDigit (c.toNat % 16)]
  else [c]

/-- A text in quotes. -/
def quoted (s : String) : String := "\"" ++ String.ofList (s.toList.flatMap escape) ++ "\""

/-- A line break, and the blanks in front of what is so deep. -/
def newline (depth : Nat) : String := "\n" ++ String.ofList (List.replicate (2 * depth) ' ')

/-- Puts parts between brackets, each on a line of its own. -/
def enclosed (depth : Nat) (opening closing : String) (parts : List String) : String :=
  if parts.isEmpty then opening ++ closing
  else
    opening ++ newline (depth + 1) ++ String.intercalate ("," ++ newline (depth + 1)) parts ++
      newline depth ++ closing

mutual

/-- Lays out data that is enclosed so many times. -/
def layOut (depth : Nat) : Json → String
  | null => "null"
  | bool b => toString b
  | int n => toString n
  | double x => x.text doubleStyle
  | str s => quoted s
  | arr items => enclosed depth "[" "]" (layOutItems (depth + 1) items)
  | obj members => enclosed depth "\x7b" "\x7d" (layOutMembers (depth + 1) members)

/-- Lays out the items of an array. -/
def layOutItems (depth : Nat) : List Json → List String
  | [] => []
  | item :: more => item.layOut depth :: layOutItems depth more

/-- Lays out the members of an object, each behind its name. -/
def layOutMembers (depth : Nat) : List (String × Json) → List String
  | [] => []
  | (name, value) :: more =>
    (quoted name ++ ": " ++ value.layOut depth) :: layOutMembers depth more

end

/-- Lays out data. -/
def pretty (data : Json) : String := data.layOut 0

end Json
end Retrace
