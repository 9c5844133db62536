import RemoteSigning.Json.Value
import RemoteSigning.Number.Shortest
import RemoteSigning.Text.Hex
/-!
# Writing JSON

Compact text without blanks, and indented text with one item or member a line. Of strings only the
quote, the backslash and control characters are escaped.
-/

namespace RemoteSigning.Json

open Number Text

/-- The escape of a character inside a string, or the character itself. -/
def escape (c : Char) : List Char :=
  if c = '"' then ['\\', '"']
  else if c = '\\' then ['\\', '\\']
  else if c = Char.ofNat 8 then ['\\', 'b']
  else if c = Char.ofNat 12 then ['\\', 'f']
  else if c = '\n' then ['\\', 'n']
  else if c = '\r' then ['\\', 'r']
  else if c = '\t' then ['\\', 't']
  else if c.toNat < 32 then
    ['\\', 'u', '0', '0', Hex.lowerDigit (c.toNat / 16), Hex.lowerDigit (c.toNat % 16)]
  else [c]

def quote (s : String) : List Char := '"' :: s.toList.flatMap escape ++ ['"']

/-- Where numbers are written without an exponent: with a decimal exponent from `-5` to `15`. -/
def positionalFrom : Int := -5

/-- The greatest decimal exponent that is written positionally. -/
def positionalTo : Int := 15

def natDigits (n : Nat) : List Char := Nat.toDigits 10 n

/-- The shortest decimal of a number. Within the positional range it has at least one digit after
the point; outside, the exponent always has a sign. -/
def realText (x : Binary64) : List Char :=
  let sign := if x.negative then ['-'] else []
  if x.isZero then sign ++ ['0', '.', '0']
  else
    let d := x.shortest.trimmed
    let digits := natDigits d.digits
    -- The exponent of the first digit.
    let e : Int := d.exponent + digits.length - 1
    if positionalFrom ≤ e ∧ e ≤ positionalTo then
      if e < 0 then sign ++ '0' :: '.' :: List.replicate (-e - 1).toNat '0' ++ digits
      else if 0 ≤ d.exponent then
        sign ++ digits ++ List.replicate d.exponent.toNat '0' ++ ['.', '0']
      else
        let whole := (e + 1).toNat
        sign ++ digits.take whole ++ '.' :: digits.drop whole
    else
      let fraction := if digits.length ≤ 1 then [] else '.' :: digits.drop 1
      let exponent := (if e < 0 then '-' else '+') :: natDigits e.natAbs
      sign ++ digits.take 1 ++ fraction ++ 'e' :: exponent

def integerText (n : Int) : List Char :=
  if n < 0 then '-' :: natDigits n.natAbs else natDigits n.natAbs

def Numeral.text : Numeral → List Char
  | .integer n => integerText n
  | .real x => realText x

namespace Value

mutual

/-- The characters of a value, without blanks. -/
def compactChars : Value → List Char
  | .null => ['n', 'u', 'l', 'l']
  | .bool true => ['t', 'r', 'u', 'e']
  | .bool false => ['f', 'a', 'l', 's', 'e']
  | .number n => n.text
  | .string s => quote s
  | .array [] => ['[', ']']
  | .array (v :: rest) => '[' :: compactChars v ++ compactItems rest
  | .object [] => ['{', '}']
  | .object ((k, v) :: rest) => '{' :: quote k ++ ':' :: compactChars v ++ compactMembers rest

def compactItems : List Value → List Char
  | [] => [']']
  | v :: rest => ',' :: compactChars v ++ compactItems rest

def compactMembers : List (String × Value) → List Char
  | [] => ['}']
  | (k, v) :: rest => ',' :: quote k ++ ':' :: compactChars v ++ compactMembers rest

end

/-- The value as text without blanks. -/
def compact (v : Value) : String := String.ofList v.compactChars

def lineBreak (level : Nat) : List Char := '\n' :: List.replicate (2 * level) ' '

mutual

def indentedChars (level : Nat) : Value → List Char
  | .array [] => ['[', ']']
  | .array (v :: rest) =>
    '[' :: lineBreak (level + 1) ++ indentedChars (level + 1) v ++ indentedItems level rest
  | .object [] => ['{', '}']
  | .object ((k, v) :: rest) =>
    '{' :: lineBreak (level + 1) ++ quote k ++ ':' :: ' ' :: indentedChars (level + 1) v
      ++ indentedMembers level rest
  | .null => compactChars .null
  | .bool b => compactChars (.bool b)
  | .number n => compactChars (.number n)
  | .string s => compactChars (.string s)

def indentedItems (level : Nat) : List Value → List Char
  | [] => lineBreak level ++ [']']
  | v :: rest =>
    ',' :: lineBreak (level + 1) ++ indentedChars (level + 1) v ++ indentedItems level rest

def indentedMembers (level : Nat) : List (String × Value) → List Char
  | [] => lineBreak level ++ ['}']
  | (k, v) :: rest =>
    ',' :: lineBreak (level + 1) ++ quote k ++ ':' :: ' ' :: indentedChars (level + 1) v
      ++ indentedMembers level rest

end

def indented (v : Value) : String := String.ofList (v.indentedChars 0)

end Value

end RemoteSigning.Json
