/-!
# UTF-8

Texts as octets, and octets as positions of a text. `octets` writes a text; `positions` reads any
octet sequence and marks what is not well formed, so that a reader of bytes and a reader of text can
share one input type.
-/

namespace RemoteSigning.Text

/-- The octets of a character in UTF-8. -/
abbrev charOctets (c : Char) : List UInt8 := String.utf8EncodeChar c

/-- The octets of a text in UTF-8. -/
def octets (s : String) : List UInt8 := s.toList.flatMap charOctets

/-- A source of characters. A position is `none` where the octets behind it are not UTF-8. -/
abbrev Source := List (Option Char)

/-- The source of a text, in which every position is a character. -/
def source (s : String) : Source := s.toList.map some

/-- Continuation octets, the only ones that may follow inside a character. -/
def isContinuation (b : UInt8) : Bool := 0x80 ≤ b && b ≤ 0xBF

/-- The octets that may stand second in a character, given the first. They rule out overlong forms,
surrogates and numbers beyond the last character. -/
def secondAllowed (lead second : UInt8) : Bool :=
  if lead == 0xE0 then 0xA0 ≤ second && second ≤ 0xBF
  else if lead == 0xED then 0x80 ≤ second && second ≤ 0x9F
  else if lead == 0xF0 then 0x90 ≤ second && second ≤ 0xBF
  else if lead == 0xF4 then 0x80 ≤ second && second ≤ 0x8F
  else isContinuation second

def payload (b : UInt8) : Nat := b.toNat % 64

/-- Reads octets as UTF-8. A position that is not well formed covers the longest start of a
character that is there, and at least one octet. -/
def positions : List UInt8 → Source
  | [] => []
  | lead :: rest =>
    if lead < 0x80 then some (Char.ofNat lead.toNat) :: positions rest
    else if 0xC2 ≤ lead && lead ≤ 0xDF then
      match rest with
      | [] => [none]
      | b :: rest' =>
        if isContinuation b then
          some (Char.ofNat (lead.toNat % 32 * 64 + payload b)) :: positions rest'
        else none :: positions (b :: rest')
    else if 0xE0 ≤ lead && lead ≤ 0xEF then
      match rest with
      | [] => [none]
      | b :: rest' =>
        if secondAllowed lead b then
          match rest' with
          | [] => [none]
          | c :: rest'' =>
            if isContinuation c then
              some (Char.ofNat (lead.toNat % 16 * 4096 + payload b * 64 + payload c))
                :: positions rest''
            else none :: positions (c :: rest'')
        else none :: positions (b :: rest')
    else if 0xF0 ≤ lead && lead ≤ 0xF4 then
      match rest with
      | [] => [none]
      | b :: rest' =>
        if secondAllowed lead b then
          match rest' with
          | [] => [none]
          | c :: rest'' =>
            if isContinuation c then
              match rest'' with
              | [] => [none]
              | d :: rest''' =>
                if isContinuation d then
                  some (Char.ofNat (lead.toNat % 8 * 262144 + payload b * 4096 + payload c * 64
                    + payload d)) :: positions rest'''
                else none :: positions (d :: rest''')
            else none :: positions (c :: rest'')
        else none :: positions (b :: rest')
    else none :: positions rest

/-- The text of octets that are UTF-8 throughout, and `none` otherwise. -/
def ofOctets? (bytes : List UInt8) : Option String :=
  ((positions bytes).mapM id).map String.ofList

/-- The text of octets, with a replacement character at each position that is not well formed. -/
def ofOctetsLossy (bytes : List UInt8) : String :=
  String.ofList ((positions bytes).map (·.getD '\uFFFD'))

end RemoteSigning.Text
