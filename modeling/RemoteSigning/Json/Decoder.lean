import RemoteSigning.Json.Document
import RemoteSigning.Json.Error
/-!
# Typed readers of JSON

A `Decoder` reads a value of some type out of a tree and reports the first problem in the order of
the text. The same decoder serves text and values in memory; the few differences hang on the
`Place`.

A record can be written as an object, with its members in any order, or as an array of them in the
order of their declaration. A choice of names can be written as a string or as an object that maps
the name to `null`.
-/

namespace RemoteSigning.Json

open Text

abbrev Decoder (α : Type) := Place → Document → Except Error α

/-- Reads a whole source. Nothing but blanks may follow the value. -/
def decodeSource (decoder : Decoder α) (source : Source) : Except Error α := do
  let whole := Whole.read source
  let a ← decoder Place.start whole.root
  if whole.surplus then throw (.fault .trailingCharacters)
  return a

def decodeText (decoder : Decoder α) (text : String) : Except Error α :=
  decodeSource decoder (source text)

def decodeValue (decoder : Decoder α) (v : Value) : Except Error α :=
  decoder .value (Document.ofValue v)

def liftFault (r : Except Fault α) : Except Error α := r.mapError .fault

/-- The error for a value of a type that is not expected. A number or string is read first, so that
its own fault goes before. -/
def Document.mismatch (expected : String) : Document → Error
  | .null => .wrongType .null expected
  | .bool b => .wrongType (.bool b) expected
  | .number (.ok n) => .wrongType (.number n) expected
  | .number (.error f) => .fault f
  | .string (.ok s) => .wrongType (.string s) expected
  | .string (.error f) => .fault f
  | .array _ => .wrongType .array expected
  | .object _ => .wrongType .object expected
  | .brokenNull f => .fault f
  | .brokenScalar f _ => .fault f
  | .broken f _ => .fault f

namespace Decoder

def any : Decoder Value := fun place d => liftFault (d.value place)

def string : Decoder String := fun _ d =>
  match d with
  | .string (.ok s) => .ok s
  | d => .error (d.mismatch "a string")

def bool : Decoder Bool := fun _ d =>
  match d with
  | .bool b => .ok b
  | d => .error (d.mismatch "a boolean")

/-- Reads an integer from `0` to `2 ^ 64 - 1`. -/
def u64 : Decoder Nat := fun _ d =>
  match d with
  | .number (.ok (.integer n)) => if 0 ≤ n then .ok n.toNat else .error (.outOfRange n "u64")
  | d => .error (d.mismatch "u64")

/-- Reads an integer from `-2 ^ 63` to `2 ^ 63 - 1`. -/
def i64 : Decoder Int := fun _ d =>
  match d with
  | .number (.ok (.integer n)) => if n < 2 ^ 63 then .ok n else .error (.outOfRange n "i64")
  | d => .error (d.mismatch "i64")

/-- Reads `null` as absent and anything else by the given decoder. -/
def option (decoder : Decoder α) : Decoder (Option α) := fun place d =>
  match d with
  | .null => .ok none
  | .brokenNull f => .error (.fault f)
  | d => (decoder place d).map some

/-- Reads items one after the other. -/
def items (decoder : Decoder α) (place : Place) : Items → Except Error (List α)
  | .closed => .ok []
  | .stop why => .error (.fault why.fault)
  | .next item rest => do
    let a ← decoder place item
    return a :: (← items decoder place rest)

def list (decoder : Decoder α) : Decoder (List α) := fun place d =>
  match d with
  | .array l => do
    let inner ← liftFault place.enter
    items decoder inner l
  | d => .error (d.mismatch "a sequence")

def choose (choices : List (String × α)) (name : String) : Except Error α :=
  match choices.lookup name with
  | some a => .ok a
  | none => .error (.unknownVariant name (choices.map (·.1)))

/-- Reads `null`, which is all that a name may be mapped to. -/
def unit : Decoder Unit := fun _ d =>
  match d with
  | .null => .ok ()
  | d => .error (d.mismatch "unit")

/-- Reads the object form of a choice in text. The name is settled before its value is read. -/
def choiceMember (choices : List (String × α)) (place : Place) : Members → Except Error α
  | .closed => .error (.fault .noValue)
  | .stop _ => .error (.fault .cutValue)
  | .nameless found => .error (found.mismatch "variant identifier")
  | .brokenName f _ => .error (.fault f)
  | .next name value rest => do
    let name ← liftFault name
    let a ← choose choices name
    unit place value
    match rest with
    | .closed => return a
    | .stop .cut => throw (.fault .cutObject)
    | _ => throw (.fault .noValue)

def choice (choices : List (String × α)) : Decoder α := fun place d =>
  match place, d with
  | _, .string (.ok s) => choose choices s
  | _, .string (.error f) => .error (.fault f)
  | .text _, .object members => do
    let inner ← liftFault place.enter
    choiceMember choices inner members
  | .text _, .broken f _ => .error (.fault f)
  | .text _, _ => .error (.fault .noValue)
  | .value, .object (.next (.ok name) value .closed) => do
    let a ← choose choices name
    unit .value value
    return a
  | .value, .object _ => .error .notSingle
  | .value, d => .error (d.mismatch "string or map")

end Decoder

/-- A member of a record of type `ρ`. -/
structure Record.Field (ρ : Type) where
  /-- The name under which the member is written. -/
  name : String
  /-- Other names under which it is accepted. -/
  aliases : List String
  /-- Whether an object must have the member. -/
  required : Bool
  /-- Whether an array may end before the member. -/
  omissible : Bool
  read : Place → Document → ρ → Except Error ρ

namespace Record.Field

variable {ρ α : Type}

def reading (decoder : Decoder α) (store : α → ρ → ρ) (place : Place) (d : Document) (r : ρ) :
    Except Error ρ := do
  return store (← decoder place d) r

/-- A member that must be there. -/
def mandatory (name : String) (decoder : Decoder α) (store : α → ρ → ρ) : Field ρ :=
  ⟨name, [], true, false, reading decoder store⟩

/-- A member that keeps its default where it is missing. -/
def defaulted (name : String) (decoder : Decoder α) (store : α → ρ → ρ) : Field ρ :=
  ⟨name, [], false, true, reading decoder store⟩

/-- A member that may be missing or `null`. -/
def optional (name : String) (decoder : Decoder α) (store : Option α → ρ → ρ) : Field ρ :=
  defaulted name (.option decoder) store

/-- A member that may be missing or `null` in an object but has its place in an array. -/
def nullable (name : String) (decoder : Decoder α) (store : Option α → ρ → ρ) : Field ρ :=
  ⟨name, [], false, false, reading (.option decoder) store⟩

end Record.Field

/-- What becomes of members that a record does not declare. -/
inductive Undeclared (ρ : Type) where
  | dropped
  /-- They are read and stored. Such a record has no array form. -/
  | kept (store : String → Value → ρ → ρ)

/-- The form of a record of type `ρ`. -/
structure Record (ρ : Type) where
  name : String
  fields : List (Record.Field ρ)
  /-- The record before any member is read. -/
  empty : ρ
  undeclared : Undeclared ρ

namespace Record

variable {ρ : Type}

def description (r : Record ρ) : String := "struct " ++ r.name

def lengthDescription (r : Record ρ) : String :=
  r.description ++ " with " ++ toString r.fields.length
    ++ if r.fields.length = 1 then " element" else " elements"

/-- The member that a name stands for. -/
def field? (r : Record ρ) (name : String) : Option (Field ρ) :=
  r.fields.find? fun f => f.name == name || f.aliases.contains name

/-- The error for the first missing member, in the order of declaration. -/
def checkComplete (fields : List (Field ρ)) (seen : List String) : Except Error Unit :=
  match fields.find? fun f => f.required && !seen.contains f.name with
  | some f => .error (.missingField f.name)
  | none => .ok ()

/-- Reads a member that the record does not declare. -/
def readUndeclared (u : Undeclared ρ) (place : Place) (name : String) (d : Document) (x : ρ) :
    Except Error ρ :=
  match u with
  | .dropped =>
    match d.skip with
    | some f => .error (.fault f)
    | none => .ok x
  | .kept store => do return store name (← Decoder.any place d) x

/-- Reads members into `x`; `seen` are the declared members read so far. -/
def readMembers (r : Record ρ) (place : Place) (seen : List String) (x : ρ) :
    Members → Except Error ρ
  | .closed => do
    checkComplete r.fields seen
    return x
  | .stop why => .error (.fault why.fault)
  | .nameless _ => .error (.fault .noName)
  | .brokenName f _ => .error (.fault f)
  | .next name value rest => do
    let name ← liftFault name
    match r.field? name with
    | some f =>
      if seen.contains f.name then throw (.duplicateField f.name)
      let x ← f.read place value x
      readMembers r place (f.name :: seen) x rest
    | none =>
      let x ← readUndeclared r.undeclared place name value x
      readMembers r place seen x rest

def countItems : Items → Nat
  | .next _ rest => countItems rest + 1
  | _ => 0

/-- Checks that an array ends after the last member. -/
def checkEnd (place : Place) (total : Nat) : Items → Except Error Unit
  | .closed => .ok ()
  | items =>
    match place, items with
    | .value, _ => .error (.wrongLength total "fewer elements in array")
    | .text _, .stop .cut => .error (.fault .cutArray)
    | .text _, .stop .trailingComma => .error (.fault .trailingComma)
    | .text _, _ => .error (.fault .trailingCharacters)

/-- Reads items into `x` as the members `fields`, `index` of them read already. -/
def readItems (r : Record ρ) (place : Place) (total index : Nat) (x : ρ) :
    List (Field ρ) → Items → Except Error ρ
  | [], items => do
    checkEnd place total items
    return x
  | f :: fields, .next item rest => do
    let x ← f.read place item x
    readItems r place total (index + 1) x fields rest
  | _ :: _, .stop why => .error (.fault why.fault)
  | f :: fields, .closed =>
    if f.omissible then readItems r place total (index + 1) x fields .closed
    else .error (.wrongLength index r.lengthDescription)

def decoder (r : Record ρ) : Decoder ρ := fun place d =>
  match d, r.undeclared with
  | .object members, _ => do
    let inner ← liftFault place.enter
    readMembers r inner [] r.empty members
  | .array items, .dropped => do
    let inner ← liftFault place.enter
    readItems r inner (countItems items) 0 r.empty r.fields items
  | d, _ => .error (d.mismatch r.description)

end Record

end RemoteSigning.Json
