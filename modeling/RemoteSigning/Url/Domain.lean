import RemoteSigning.Text.Blank
import RemoteSigning.Text.Utf8
import RemoteSigning.Url.Punycode
/-!
# Domains

The name of a host in the lower-case ASCII form in which it is looked up. Capitals of the Latin,
Greek and Cyrillic scripts are folded; a label with any other character is written in Punycode.

Of the mapping of international names this is the part that every ASCII name needs, and little more.
Only the characters up to the first Latin extension, Greek, Cyrillic and the full-width forms of ASCII
are folded; those of any other script go to Punycode as they are. Names are not normalised, so a
letter and an accent after it stay two characters. Besides what `isForeign` names, nothing is refused
for what a label consists of: neither marks at its start, nor joiners out of place, nor both
directions of writing in one label. So there are names beyond ASCII that are looked up under another
form than the one given here, or not at all.
-/

namespace RemoteSigning.Url.Domain

open Text

/-- The characters that no domain may have, besides controls and the blank. -/
def forbidden : List Char :=
  ['%', '#', '/', ':', '<', '>', '?', '@', '[', '\\', ']', '^', '|']

/-- Whether a domain may have an ASCII character. -/
def isAllowed (c : Char) : Bool := 0x20 < c.toNat && c.toNat < 0x7F && !forbidden.contains c

/-- The character with the code point `n` above that of another one. -/
def shift (c : Char) (n : Nat) : List Char := [Char.ofNat (c.toNat + n)]

/-- The character after a character with an even code point, and any other as it is. -/
def evenUp (c : Char) : List Char := if c.toNat % 2 = 0 then shift c 1 else [c]

/-- The character after a character with an odd code point, and any other as it is. -/
def oddUp (c : Char) : List Char := if c.toNat % 2 = 1 then shift c 1 else [c]

def foldLatin (c : Char) : List Char :=
  let n := c.toNat
  if n = 0xAA then ['a']
  else if n = 0xB2 then ['2']
  else if n = 0xB3 then ['3']
  else if n = 0xB5 then ['μ']
  else if n = 0xB9 then ['1']
  else if n = 0xBA then ['o']
  else if 0xC0 ≤ n ∧ n ≤ 0xDE ∧ n ≠ 0xD7 then shift c 32
  else if n = 0x130 then ['i', Char.ofNat 0x307]
  else if n = 0x132 ∨ n = 0x133 then ['i', 'j']
  else if n = 0x13F ∨ n = 0x140 then ['l', Char.ofNat 0xB7]
  else if n = 0x149 then [Char.ofNat 0x2BC, 'n']
  else if n = 0x178 then [Char.ofNat 0xFF]
  else if n = 0x17F then ['s']
  else if (0x100 ≤ n ∧ n ≤ 0x137) ∨ (0x14A ≤ n ∧ n ≤ 0x177) then
    if n = 0x131 then [c] else evenUp c
  else if (0x139 ≤ n ∧ n ≤ 0x148) ∨ (0x179 ≤ n ∧ n ≤ 0x17E) then oddUp c
  else [c]

/-- Folds a character of the Greek or the Cyrillic script. -/
def foldGreekOrCyrillic (c : Char) : List Char :=
  let n := c.toNat
  if n = 0x386 then shift c 38
  else if 0x388 ≤ n ∧ n ≤ 0x38A then shift c 37
  else if n = 0x38C then shift c 64
  else if n = 0x38E ∨ n = 0x38F then shift c 63
  else if 0x391 ≤ n ∧ n ≤ 0x3AB then shift c 32
  else if 0x400 ≤ n ∧ n ≤ 0x40F then shift c 80
  else if 0x410 ≤ n ∧ n ≤ 0x42F then shift c 32
  else [c]

/-- Whether a character does not count: soft hyphens, joiners of words and selectors of variants. -/
def isIgnored (c : Char) : Bool :=
  let n := c.toNat
  n == 0xAD || n == 0x200B || n == 0x2060 || n == 0xFEFF || (0xFE00 ≤ n && n ≤ 0xFE0F)

/-- Whether a character stands for a full stop. -/
def isFullStop (c : Char) : Bool := [0x3002, 0xFF0E, 0xFF61].contains c.toNat

/-- The characters that a character stands for. -/
def fold (c : Char) : List Char :=
  let n := c.toNat
  if n < 0x80 then [c.toLower]
  else if isIgnored c then []
  else if isFullStop c then ['.']
  else if 0xFF01 ≤ n ∧ n ≤ 0xFF5E then [(Char.ofNat (n - 0xFEE0)).toLower]
  else if n < 0x180 then foldLatin c
  else foldGreekOrCyrillic c

/-- Whether a character beyond ASCII has no place in a domain: controls, white space, and what has
no meaning of its own. -/
def isForeign (c : Char) : Bool :=
  let n := c.toNat
  (0x80 ≤ n && n < 0xA0) || (0x80 ≤ n && isBlank c) || [0xA8, 0xAF, 0xB4, 0xB8].contains n
    || (0x200E ≤ n && n ≤ 0x200F) || (0xE000 ≤ n && n ≤ 0xF8FF) || 0xFFF9 ≤ n && n ≤ 0xFFFF

def mark : List Char := ['x', 'n', '-', '-']

/-- Whether the rest of a label after the mark is the form of a label that needs it. -/
def isEncoded (rest : List Char) : Bool :=
  match Punycode.decode? rest with
  | some label =>
    label.any (!Punycode.isAscii ·) && label.flatMap fold == label && !label.any isForeign
      && Punycode.encode label == rest
  | none => false

def label? (cs : List Char) : Option (List Char) :=
  if mark.isPrefixOf cs then if isEncoded (cs.drop mark.length) then some cs else none
  else if cs.all Punycode.isAscii then some cs
  else if cs.any isForeign then none
  else some (mark ++ Punycode.encode cs)

/-- The form of a name in which it is looked up, or `none` if it is no domain. -/
def ofOctets? (bytes : List UInt8) : Option (List Char) := do
  let name ← Text.ofOctets? bytes
  let labels ← ((name.toList.flatMap fold).splitOn '.').mapM label?
  let cs := (List.intersperse ['.'] labels).flatten
  if cs.all isAllowed then some cs else none

end RemoteSigning.Url.Domain
