import RemoteSigning.Json.Fault
import RemoteSigning.Json.Printer
import RemoteSigning.Text.Quoted
/-!
# Errors of typed reading

Why a JSON text or value is not of the shape that its reader expects.
-/

namespace RemoteSigning.Json

open Text

/-- What stands where something else was expected. -/
inductive Found where
  | null
  | bool (b : Bool)
  | number (n : Numeral)
  | string (s : String)
  | array
  | object
deriving DecidableEq, Repr

/-- Why reading failed. -/
inductive Error where
  | fault (f : Fault)
  | wrongType (found : Found) (expected : String)
  /-- An integer does not fit. -/
  | outOfRange (n : Int) (expected : String)
  | wrongLength (n : Nat) (expected : String)
  /-- An object that stands for a variant has not exactly one member. -/
  | notSingle
  | missingField (name : String)
  | duplicateField (name : String)
  /-- A name is none of the known ones. -/
  | unknownVariant (name : String) (known : List String)
  /-- A value fits none of the forms of a type. -/
  | noForm (type : String)
  /-- The format of a text is broken, for the given reason. -/
  | badText (reason : String)
deriving DecidableEq, Repr

def ticked (s : String) : String := "`" ++ s ++ "`"

def Found.description : Found → String
  | .null => "null"
  | .bool b => "boolean " ++ ticked (if b then "true" else "false")
  | .number (.integer n) => "integer " ++ ticked (String.ofList (integerText n))
  | .number (.real x) => "floating point " ++ ticked (String.ofList (realText x))
  | .string s => "string " ++ Quoted.encode s
  | .array => "sequence"
  | .object => "map"

def oneOf : List String → String
  | [] => "there are no variants"
  | [a] => "expected " ++ ticked a
  | [a, b] => "expected " ++ ticked a ++ " or " ++ ticked b
  | names => "expected one of " ++ ", ".intercalate (names.map ticked)

def Error.message : Error → String
  | .fault f => f.message
  | .wrongType found expected => "invalid type: " ++ found.description ++ ", expected " ++ expected
  | .outOfRange n expected =>
    "invalid value: " ++ (Found.number (.integer n)).description ++ ", expected " ++ expected
  | .wrongLength n expected => "invalid length " ++ toString n ++ ", expected " ++ expected
  | .notSingle => "invalid value: map, expected map with a single key"
  | .missingField name => "missing field " ++ ticked name
  | .duplicateField name => "duplicate field " ++ ticked name
  | .unknownVariant name known => "unknown variant " ++ ticked name ++ ", " ++ oneOf known
  | .noForm type => "data did not match any variant of untagged enum " ++ type
  | .badText reason => reason

end RemoteSigning.Json
