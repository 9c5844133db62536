/-!
# Faults in JSON text

What can be wrong with the syntax of a text, and how each fault is worded.
-/

namespace RemoteSigning.Json

/-- A fault in the syntax of a JSON text. -/
inductive Fault where
  /-- The text ends where a value, or the rest of a literal or number, has to stand. -/
  | cutValue
  | cutArray
  | cutObject
  | cutString
  /-- A name is not followed by a colon. -/
  | noColon
  /-- An item is followed by neither a comma nor the end of the array. -/
  | noItemEnd
  /-- A member is followed by neither a comma nor the end of the object. -/
  | noMemberEnd
  | badLiteral
  /-- No value starts here. -/
  | noValue
  /-- A backslash is followed by no escape. -/
  | badEscape
  | badNumber
  | hugeNumber
  /-- A number is out of range already before the end of its exponent. -/
  | hugeExponent
  /-- A string holds octets that are not UTF-8. -/
  | badCodePoint
  | controlCharacter
  | noName
  /-- A surrogate stands where it cannot. -/
  | loneSurrogate
  /-- The first half of a surrogate pair is followed by no escape. -/
  | halfPair
  /-- The first half of a surrogate pair ends its string. -/
  | endingHalfPair
  /-- A comma is followed by the end of the array or object. -/
  | trailingComma
  | trailingCharacters
  | tooDeep
deriving DecidableEq, Repr

def Fault.message : Fault → String
  | .cutValue => "EOF while parsing a value"
  | .cutArray => "EOF while parsing a list"
  | .cutObject => "EOF while parsing an object"
  | .cutString => "EOF while parsing a string"
  | .noColon => "expected `:`"
  | .noItemEnd => "expected `,` or `]`"
  | .noMemberEnd => "expected `,` or `\x7d`"
  | .badLiteral => "expected ident"
  | .noValue => "expected value"
  | .badEscape => "invalid escape"
  | .badNumber => "invalid number"
  | .hugeNumber | .hugeExponent => "number out of range"
  | .badCodePoint => "invalid unicode code point"
  | .controlCharacter => "control character (\\u0000-\\u001F) found while parsing a string"
  | .noName => "key must be a string"
  | .loneSurrogate => "lone leading surrogate in hex escape"
  | .halfPair | .endingHalfPair => "unexpected end of hex escape"
  | .trailingComma => "trailing comma"
  | .trailingCharacters => "trailing characters"
  | .tooDeep => "recursion limit exceeded"

end RemoteSigning.Json
