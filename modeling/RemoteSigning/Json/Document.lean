import RemoteSigning.Json.Number
import RemoteSigning.Text.Hex
/-!
# JSON text as a tree

`Document.read` turns any source into a tree, down to the first place where the syntax breaks. The
fault is a part of the tree. So a reader of a particular shape can walk the tree in the order of the
text and report whichever problem comes first, be it the syntax or a value of the wrong kind.

Some faults show only to a reader that needs the value: a string with half a surrogate pair, or a
number out of range. They are kept with the string or number. And some faults are reported
differently by a reader that skips what it does not know; they carry both wordings.
-/

namespace RemoteSigning.Json

open Text

/-- How the items of an array break off. -/
inductive ItemStop where
  /-- The text ends after the opening bracket or after an item. -/
  | cut
  /-- The text ends after a comma. -/
  | cutAfterComma
  | trailingComma
  /-- Neither a comma nor the closing bracket follows an item. -/
  | noEnd
deriving DecidableEq, Repr

/-- How the members of an object break off. -/
inductive MemberStop where
  /-- The text ends after the opening brace or after a member. -/
  | cut
  /-- The text ends after a comma. -/
  | cutAfterComma
  | trailingComma
  /-- Neither a comma nor the closing brace follows a member. -/
  | noEnd
deriving DecidableEq, Repr

mutual

/-- A value as written. -/
inductive Document where
  | null
  | bool (b : Bool)
  | number (n : Except Fault Numeral)
  | string (s : Except Fault String)
  | array (items : Items)
  | object (members : Members)
  /-- The literal `null`, misspelt or cut. -/
  | brokenNull (fault : Fault)
  | brokenScalar (fault skipped : Fault)
  /-- No value, or a string that does not end. -/
  | broken (fault skipped : Fault)

/-- The items of an array as written. -/
inductive Items where
  | closed
  | stop (why : ItemStop)
  | next (item : Document) (rest : Items)

/-- The members of an object as written. -/
inductive Members where
  | closed
  | stop (why : MemberStop)
  | nameless (found : Document)
  /-- A name that does not end. -/
  | brokenName (fault skipped : Fault)
  | next (name : Except Fault String) (value : Document) (rest : Members)

end

/-- What a reader of the items reports where they break off. -/
def ItemStop.fault : ItemStop → Fault
  | .cut => .cutArray
  | .cutAfterComma => .cutValue
  | .trailingComma => .trailingComma
  | .noEnd => .noItemEnd

/-- What a reader that skips the array reports where it breaks off. -/
def ItemStop.skipped : ItemStop → Fault
  | .cut => .cutArray
  | .cutAfterComma => .cutValue
  | .trailingComma => .noValue
  | .noEnd => .noItemEnd

/-- What a reader of the members reports where they break off. -/
def MemberStop.fault : MemberStop → Fault
  | .cut => .cutObject
  | .cutAfterComma => .cutValue
  | .trailingComma => .trailingComma
  | .noEnd => .noMemberEnd

/-- What a reader that skips the object reports where it breaks off. -/
def MemberStop.skipped : MemberStop → Fault
  | .cut => .cutObject
  | .cutAfterComma => .cutObject
  | .trailingComma => .noName
  | .noEnd => .noMemberEnd

/-- A piece of a string. -/
inductive Piece where
  | plain (c : Option Char)
  | code (n : Nat)
deriving DecidableEq, Repr

/-- How the pieces of a string end. -/
inductive StringEnd where
  | closed
  | cut
  | control
  /-- A backslash before a character that makes no escape. -/
  | badEscape
  /-- An escape by number without four digits. -/
  | badDigits
deriving DecidableEq, Repr

def fourDigits (a b c d : Option Char) : Option Nat := do
  let a ← Hex.digit? (← a)
  let b ← Hex.digit? (← b)
  let c ← Hex.digit? (← c)
  let d ← Hex.digit? (← d)
  return a * 4096 + b * 256 + c * 16 + d

/-- The number of octets behind positions. -/
def octetCount (source : Source) : Nat :=
  source.foldl (fun n c => n + match c with | some c => c.utf8Size | none => 1) 0

def shortEscape : Option Char → Option Char
  | some '"' => some '"'
  | some '\\' => some '\\'
  | some '/' => some '/'
  | some 'b' => some (Char.ofNat 8)
  | some 'f' => some (Char.ofNat 12)
  | some 'n' => some '\n'
  | some 'r' => some '\r'
  | some 't' => some '\t'
  | _ => none

/-- Whether a position holds a control character. -/
def isControl : Option Char → Bool
  | some c => c.toNat < 32
  | none => false

/-- Reads the pieces of a string after its opening quote. -/
def readPieces : Source → List Piece × StringEnd × Source
  | [] => ([], .cut, [])
  | some '"' :: rest => ([], .closed, rest)
  | [some '\\'] => ([], .cut, [])
  | some '\\' :: some 'u' :: a :: b :: c :: d :: rest =>
    match fourDigits a b c d with
    | some n => let (ps, e, rest) := readPieces rest; (.code n :: ps, e, rest)
    | none => ([], .badDigits, rest)
  | some '\\' :: some 'u' :: rest => ([], if octetCount rest < 4 then .cut else .badDigits, [])
  | some '\\' :: c :: rest =>
    match shortEscape c with
    | some c => let (ps, e, rest) := readPieces rest; (.plain (some c) :: ps, e, rest)
    | none => ([], .badEscape, rest)
  | c :: rest =>
    if isControl c then ([], .control, rest)
    else let (ps, e, rest) := readPieces rest; (.plain c :: ps, e, rest)

/-- The fault with which a string ends, if it is not closed. -/
def StringEnd.fault : StringEnd → Option Fault
  | .closed => none
  | .cut => some .cutString
  | .control => some .controlCharacter
  | .badEscape => some .badEscape
  | .badDigits => some .badEscape

/-- The fault with which a string ends after the first half of a surrogate pair. -/
def StringEnd.faultAfterHalf : StringEnd → Fault
  | .closed => .endingHalfPair
  | .cut => .cutString
  | .badDigits => .badEscape
  | _ => .halfPair

/-- Whether a number is the first half of a surrogate pair. -/
def isHighSurrogate (n : Nat) : Bool := 0xD800 ≤ n && n ≤ 0xDBFF

/-- Whether a number is the second half of a surrogate pair. -/
def isLowSurrogate (n : Nat) : Bool := 0xDC00 ≤ n && n ≤ 0xDFFF

/-- The characters of a string. Two escapes that make up a surrogate pair give one character. -/
def joinPieces (e : StringEnd) : List Piece → Except Fault (List (Option Char))
  | [] =>
    match e.fault with
    | none => .ok []
    | some f => .error f
  | .plain c :: rest => do return c :: (← joinPieces e rest)
  | .code n :: rest =>
    if isLowSurrogate n then .error .loneSurrogate
    else if isHighSurrogate n then
      match rest with
      | [] => .error e.faultAfterHalf
      | .plain _ :: _ => .error .halfPair
      | .code m :: rest =>
        if isLowSurrogate m then do
          let c := Char.ofNat (0x10000 + (n - 0xD800) * 1024 + (m - 0xDC00))
          return some c :: (← joinPieces e rest)
        else .error .loneSurrogate
    else do return some (Char.ofNat n) :: (← joinPieces e rest)

/-- The text of a string. That it is UTF-8 throughout is checked last. -/
def stringOf (e : StringEnd) (pieces : List Piece) : Except Fault String := do
  let cs ← joinPieces e pieces
  match cs.mapM id with
  | some cs => return String.ofList cs
  | none => throw .badCodePoint

/-- Whether a position holds one of the four blanks of JSON. -/
def isBlank : Option Char → Bool
  | some ' ' | some '\t' | some '\n' | some '\r' => true
  | _ => false

/-- The source from its first position that is no blank. -/
def skipBlanks (source : Source) : Source := source.dropWhile isBlank

def readLetters : List Char → Source → Except Fault Source
  | [], source => .ok source
  | _ :: _, [] => .error .cutValue
  | c :: cs, d :: rest => if d = some c then readLetters cs rest else .error .badLiteral

mutual

/-- Reads a value. The source after it is absent if the syntax breaks. The first argument bounds the
number of steps. -/
def readValue : Nat → Source → Document × Option Source
  | 0, _ => (.broken .cutValue .cutValue, none)
  | n + 1, source =>
    match skipBlanks source with
    | [] => (.broken .cutValue .cutValue, none)
    | some 'n' :: rest =>
      match readLetters ['u', 'l', 'l'] rest with
      | .ok rest => (.null, some rest)
      | .error f => (.brokenNull f, none)
    | some 't' :: rest =>
      match readLetters ['r', 'u', 'e'] rest with
      | .ok rest => (.bool true, some rest)
      | .error f => (.brokenScalar f f, none)
    | some 'f' :: rest =>
      match readLetters ['a', 'l', 's', 'e'] rest with
      | .ok rest => (.bool false, some rest)
      | .error f => (.brokenScalar f f, none)
    | some '"' :: rest =>
      let (pieces, e, rest) := readPieces rest
      match e.fault, stringOf e pieces with
      | none, s => (.string s, some rest)
      | some skipped, .error f => (.broken f skipped, none)
      | some skipped, .ok _ => (.broken skipped skipped, none)
    | some '[' :: rest =>
      match skipBlanks rest with
      | [] => (.array (.stop .cut), none)
      | some ']' :: rest => (.array .closed, some rest)
      | rest => let (items, rest) := readItems n rest; (.array items, rest)
    | some '{' :: rest =>
      match skipBlanks rest with
      | [] => (.object (.stop .cut), none)
      | some '}' :: rest => (.object .closed, some rest)
      | rest => let (members, rest) := readMembers n rest; (.object members, rest)
    | c :: rest =>
      if c = some '-' || (digit? c).isSome then
        match readNumber (c :: rest) with
        | .ok (t, rest) => (.number t.value, some rest)
        | .error (f, skipped) => (.brokenScalar f skipped, none)
      else (.broken .noValue .noValue, none)

/-- Reads an item and those after it. -/
def readItems : Nat → Source → Items × Option Source
  | 0, _ => (.stop .cut, none)
  | n + 1, source =>
    match readValue n source with
    | (item, none) => (.next item .closed, none)
    | (item, some rest) =>
      match skipBlanks rest with
      | [] => (.next item (.stop .cut), none)
      | some ']' :: rest => (.next item .closed, some rest)
      | some ',' :: rest =>
        match skipBlanks rest with
        | [] => (.next item (.stop .cutAfterComma), none)
        | some ']' :: _ => (.next item (.stop .trailingComma), none)
        | rest => let (items, rest) := readItems n rest; (.next item items, rest)
      | _ => (.next item (.stop .noEnd), none)

/-- Reads a member and those after it. -/
def readMembers : Nat → Source → Members × Option Source
  | 0, _ => (.stop .cut, none)
  | n + 1, some '"' :: source =>
    let (pieces, e, rest) := readPieces source
    match e.fault, stringOf e pieces with
    | some skipped, .error f => (.brokenName f skipped, none)
    | some skipped, .ok _ => (.brokenName skipped skipped, none)
    | none, name =>
      match skipBlanks rest with
      | [] => (.next name (.broken .cutObject .cutObject) .closed, none)
      | some ':' :: rest =>
        match readValue n rest with
        | (value, none) => (.next name value .closed, none)
        | (value, some rest) =>
          match skipBlanks rest with
          | [] => (.next name value (.stop .cut), none)
          | some '}' :: rest => (.next name value .closed, some rest)
          | some ',' :: rest =>
            match skipBlanks rest with
            | [] => (.next name value (.stop .cutAfterComma), none)
            | some '}' :: _ => (.next name value (.stop .trailingComma), none)
            | rest => let (members, rest) := readMembers n rest; (.next name value members, rest)
          | _ => (.next name value (.stop .noEnd), none)
      | _ => (.next name (.broken .noColon .noColon) .closed, none)
  | n + 1, source => (.nameless (readValue n source).1, none)

end

/-- A source as a tree, and whether something other than blanks follows the value. -/
structure Whole where
  root : Document
  /-- Whether anything follows it. -/
  surplus : Bool

/-- Reads a source. Every value but the first takes a position of its own before it, so twice the
length bounds the number of steps. -/
def Whole.read (source : Source) : Whole :=
  match readValue (2 * source.length + 2) source with
  | (root, none) => ⟨root, false⟩
  | (root, some rest) => ⟨root, !(skipBlanks rest).isEmpty⟩

mutual

/-- The fault that a reader meets which skips the value. -/
def Document.skip : Document → Option Fault
  | .array items => items.skip
  | .object members => members.skip
  | .brokenNull f => some f
  | .brokenScalar _ f => some f
  | .broken _ f => some f
  | _ => none

/-- The fault that a reader meets which skips the items. -/
def Items.skip : Items → Option Fault
  | .closed => none
  | .stop why => some why.skipped
  | .next item rest =>
    match item.skip with
    | some f => some f
    | none => rest.skip

/-- The fault that a reader meets which skips the members. -/
def Members.skip : Members → Option Fault
  | .closed => none
  | .stop why => some why.skipped
  | .nameless _ => some .noName
  | .brokenName _ f => some f
  | .next _ value rest =>
    match value.skip with
    | some f => some f
    | none => rest.skip

end

/-- Where a tree comes from. A tree of text may be entered only so many levels deep; one made from a
value is already in memory and has no limit. -/
inductive Place where
  /-- In text, with fewer than `room` levels below. -/
  | text (room : Nat)
  | value
deriving DecidableEq, Repr

/-- The place at the start of a text: fewer than 128 levels may be nested. -/
def Place.start : Place := .text 128

def Place.enter : Place → Except Fault Place
  | .text room => if room ≤ 1 then .error .tooDeep else .ok (.text (room - 1))
  | .value => .ok .value

mutual

def Document.value (place : Place) : Document → Except Fault Value
  | .null => .ok .null
  | .bool b => .ok (.bool b)
  | .number n => n.map .number
  | .string s => s.map .string
  | .array items => do
    let inner ← place.enter
    return .array (← items.values inner)
  | .object members => do
    let inner ← place.enter
    return .object (Value.sortMembers (← members.values inner))
  | .brokenNull f => .error f
  | .brokenScalar f _ => .error f
  | .broken f _ => .error f

def Items.values (place : Place) : Items → Except Fault (List Value)
  | .closed => .ok []
  | .stop why => .error why.fault
  | .next item rest => do return (← item.value place) :: (← rest.values place)

def Members.values (place : Place) : Members → Except Fault (List (String × Value))
  | .closed => .ok []
  | .stop why => .error why.fault
  | .nameless _ => .error .noName
  | .brokenName f _ => .error f
  | .next name value rest => do
    let name ← name
    let value ← value.value place
    return (name, value) :: (← rest.values place)

end

def Whole.value (t : Whole) : Except Fault Value := do
  let v ← t.root.value Place.start
  if t.surplus then throw .trailingCharacters
  return v

def parseSource (source : Source) : Except Fault Value := (Whole.read source).value

def parse (text : String) : Except Fault Value := parseSource (Text.source text)

mutual

def Document.ofValue : Value → Document
  | .null => .null
  | .bool b => .bool b
  | .number n => .number (.ok n)
  | .string s => .string (.ok s)
  | .array items => .array (Items.ofValues items)
  | .object members => .object (Members.ofValues members)

def Items.ofValues : List Value → Items
  | [] => .closed
  | v :: rest => .next (Document.ofValue v) (Items.ofValues rest)

def Members.ofValues : List (String × Value) → Members
  | [] => .closed
  | (k, v) :: rest => .next (.ok k) (Document.ofValue v) (Members.ofValues rest)

end

end RemoteSigning.Json
