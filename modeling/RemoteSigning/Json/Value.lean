import RemoteSigning.Number.Binary64
/-!
# JSON values

A value keeps the members of its objects in the order in which they are written. In *canonical*
values, which is what reading gives, the members are sorted by name and no name occurs twice.
-/

namespace RemoteSigning.Json

open Number

/-- A JSON number. Integers from `-2 ^ 63` to `2 ^ 64 - 1` stay exact, all others are binary64. -/
inductive Numeral where
  | integer (n : Int)
  | real (x : Binary64)
deriving DecidableEq, Repr

/-- A JSON value. -/
inductive Value where
  | null
  | bool (b : Bool)
  | number (n : Numeral)
  | string (s : String)
  | array (items : List Value)
  | object (members : List (String × Value))
deriving Repr, Inhabited

namespace Value

abbrev integer (n : Int) : Value := .number (.integer n)

mutual

def same : Value → Value → Bool
  | .null, .null => true
  | .bool b, .bool c => b == c
  | .number m, .number n => m == n
  | .string s, .string t => s == t
  | .array xs, .array ys => sameItems xs ys
  | .object xs, .object ys => sameMembers xs ys
  | _, _ => false

def sameItems : List Value → List Value → Bool
  | [], [] => true
  | x :: xs, y :: ys => same x y && sameItems xs ys
  | _, _ => false

def sameMembers : List (String × Value) → List (String × Value) → Bool
  | [], [] => true
  | (k, x) :: xs, (l, y) :: ys => k == l && same x y && sameMembers xs ys
  | _, _ => false

end

mutual

theorem same_iff : ∀ v w : Value, same v w = true ↔ v = w
  | .null, w => by cases w <;> simp [same]
  | .bool b, w => by cases w <;> simp [same]
  | .number n, w => by cases w <;> simp [same]
  | .string s, w => by cases w <;> simp [same]
  | .array xs, w => by
    cases w with
    | array ys => simpa [same] using sameItems_iff xs ys
    | _ => simp [same]
  | .object xs, w => by
    cases w with
    | object ys => simpa [same] using sameMembers_iff xs ys
    | _ => simp [same]

theorem sameItems_iff : ∀ xs ys : List Value, sameItems xs ys = true ↔ xs = ys
  | [], ys => by cases ys <;> simp [sameItems]
  | x :: xs, ys => by
    cases ys with
    | nil => simp [sameItems]
    | cons y ys => simp [sameItems, same_iff x y, sameItems_iff xs ys]

theorem sameMembers_iff : ∀ xs ys : List (String × Value), sameMembers xs ys = true ↔ xs = ys
  | [], ys => by cases ys <;> simp [sameMembers]
  | (k, x) :: xs, ys => by
    cases ys with
    | nil => simp [sameMembers]
    | cons y ys => simp [sameMembers, same_iff x y.2, sameMembers_iff xs ys, Prod.ext_iff]

end

instance : DecidableEq Value := fun v w => decidable_of_iff _ (same_iff v w)

/-- The value of a member of an object; `none` if there is none or the value is no object. -/
def member? (v : Value) (name : String) : Option Value :=
  match v with
  | .object members => members.lookup name
  | _ => none

def string? : Value → Option String
  | .string s => some s
  | _ => none

/-- Puts a member into sorted members, in place of one of the same name. Names are compared
character by character, which is also the order of their octets. -/
def insertMember (name : String) (v : Value) : List (String × Value) → List (String × Value)
  | [] => [(name, v)]
  | (k, w) :: rest =>
    if name < k then (name, v) :: (k, w) :: rest
    else if name = k then (name, v) :: rest
    else (k, w) :: insertMember name v rest

/-- Members sorted by name. Of two members of one name the later stays. -/
def sortMembers (members : List (String × Value)) : List (String × Value) :=
  members.foldl (fun sorted m => insertMember m.1 m.2 sorted) []

mutual

def canonical : Value → Value
  | .array items => .array (canonicalItems items)
  | .object members => .object (sortMembers (canonicalMembers members))
  | v => v

def canonicalItems : List Value → List Value
  | [] => []
  | v :: rest => canonical v :: canonicalItems rest

/-- The members with their values in canonical form, not yet sorted. -/
def canonicalMembers : List (String × Value) → List (String × Value)
  | [] => []
  | (k, v) :: rest => (k, canonical v) :: canonicalMembers rest

end

/-- A member that is written only if it is present. -/
def optional (name : String) (write : α → Value) : Option α → List (String × Value)
  | some x => [(name, write x)]
  | none => []

end Value

end RemoteSigning.Json
