import RemoteSigning.Json.Document
/-!
# Lenient readers

A lenient reader is content with any value: where it cannot make sense of one, it goes on behind it.
Where it stands then depends on how the value failed. If it has not come to the end of the value, it
takes what is left of it for the rest of the object that it reads, and that never fits. Left inside a
string, it takes what stands between two strings for a name, and the last brace for a part of one.
Left inside an array or object, it takes an inner end for that of the object, and what follows is a
surplus.

All this is about texts whose syntax is in order: only strings and numbers have faults in them, and
values may be too deep.
-/

namespace RemoteSigning.Json

/-- Whether a reader that meets a fault in a string or number has come to its end all the same. -/
def Fault.isAtEnd : Fault → Bool
  | .badCodePoint | .endingHalfPair | .hugeNumber => true
  | _ => false

def Items.isClosed : Items → Bool
  | .closed => true
  | _ => false

def Members.isClosed : Members → Bool
  | .closed => true
  | _ => false

mutual

/-- Whether a reader of the whole value comes to its end, although perhaps not without a fault. -/
def Document.isTakenIn (place : Place) : Document → Bool
  | .number (.error f) => f.isAtEnd
  | .string (.error f) => f.isAtEnd
  | .array items =>
    match place.enter with
    | .ok inner => items.isTakenIn inner
    | .error _ => false
  | .object members =>
    match place.enter with
    | .ok inner => members.isTakenIn inner
    | .error _ => false
  | _ => true

/-- Whether a reader of the items comes to their end. The first fault stops it, but when it gives up
the array it still looks for the bracket. -/
def Items.isTakenIn (place : Place) : Items → Bool
  | .closed => true
  | .stop _ => false
  | .next item rest =>
    match item.value place with
    | .ok _ => rest.isTakenIn place
    | .error _ => rest.isClosed && item.isTakenIn place

/-- Whether a reader of the members comes to their end. When it gives up the object it still looks
for the brace, which does not follow a name. -/
def Members.isTakenIn (place : Place) : Members → Bool
  | .next (.ok _) value rest =>
    match value.value place with
    | .ok _ => rest.isTakenIn place
    | .error _ => rest.isClosed && value.isTakenIn place
  | .closed => true
  | _ => false

end

/-- How much of a value a lenient reader tries to make sense of. -/
inductive Leniency where
  /-- It enters an array or object, but reads nothing in it. -/
  | entering
  /-- It does not enter arrays and objects. -/
  | shallow
  /-- It reads the whole value. -/
  | whole
deriving DecidableEq, Repr

/-- Whether a lenient reader comes to the end of a value. -/
def Leniency.accepts (place : Place) : Leniency → Document → Bool
  | .whole, d => d.isTakenIn place
  | .entering, .array items => items.isClosed
  | .entering, .object members => members.isClosed
  | _, .array _ => false
  | _, .object _ => false
  | _, d => d.isTakenIn place

end RemoteSigning.Json
