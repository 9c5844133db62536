/-!
# Arguments

How the words of a command line are read. The first words name a command; then come the operands of
the command, and options and switches wherever there is room for them. The word `--` ends options
and switches.
-/

namespace RemoteSigning.CommandLine

/-- What a command takes. -/
structure Shape where
  operands : Nat := 0
  /-- The names of options, each of which has a value. -/
  options : List String := []
  /-- The names of switches, which have none. -/
  switches : List String := []
deriving DecidableEq, Repr

/-- The commands of a program, by the words that name them. -/
abbrev Commands := List (List String × Shape)

/-- Why reading stops. -/
inductive Stop where
  /-- The words are not a command line of the program. -/
  | usage
  | help
  | version
deriving DecidableEq, Repr

/-- What has been read. -/
structure Arguments where
  /-- The words that name the command. -/
  path : List String := []
  shape : Option Shape := none
  /-- Whether only what machines read is printed. -/
  quiet : Bool := false
  /-- Whether `quiet` was given since the last word of the name. -/
  quietHere : Bool := false
  operands : List String := []
  options : List (String × String) := []
  switches : List String := []
  /-- The option that still has no value. -/
  pending : Option String := none
  /-- Whether all further words are operands. -/
  verbatim : Bool := false
  /-- Whether the words name a command that is to be explained. -/
  explaining : Bool := false
deriving DecidableEq, Repr

namespace Arguments

def enter (commands : Commands) (a : Arguments) (word : String) : Except Stop Arguments :=
  if word = "help" ∧ !a.explaining then .ok { a with explaining := true }
  else
    let path := a.path ++ [word]
    let a := { a with path, quietHere := false }
    match commands.lookup path with
    | some shape => .ok { a with shape := some shape }
    | none => if commands.any (path.isPrefixOf ·.1) then .ok a else .error .usage

/-- Takes a word that is neither an option nor a switch. -/
def takeWord (commands : Commands) (a : Arguments) (word : String) : Except Stop Arguments :=
  match a.pending, a.shape with
  | some name, _ => .ok { a with options := a.options ++ [(name, word)], pending := none }
  | none, some shape =>
    if a.operands.length < shape.operands ∧ !a.explaining then
      .ok { a with operands := a.operands ++ [word] }
    else .error .usage
  | none, none => if a.verbatim then .error .usage else a.enter commands word

/-- Takes the switch for quiet, which counts once for each word of the name of the command. -/
def takeQuiet (a : Arguments) : Except Stop Arguments :=
  if a.quietHere then .error .usage else .ok { a with quiet := true, quietHere := true }

def takeSwitch (a : Arguments) (name : String) : Except Stop Arguments :=
  match name, a.shape with
  | "quiet", _ => a.takeQuiet
  | "verbose", _ => .ok a
  | "help", _ => .error .help
  | "version", none => if a.path = [] then .error .version else .error .usage
  | name, some shape =>
    if shape.switches.contains name ∧ !a.switches.contains name then
      .ok { a with switches := a.switches ++ [name] }
    else .error .usage
  | _, none => .error .usage

/-- Whether an option of the name can be given. -/
def hasRoomFor (a : Arguments) (name : String) : Bool :=
  a.shape.any (·.options.contains name) && (a.options.lookup name).isNone

/-- Takes an option or a switch in its long form, after the hyphens. -/
def takeLong (a : Arguments) (cs : List Char) : Except Stop Arguments :=
  let name := String.ofList (cs.takeWhile (· != '='))
  let value := (cs.dropWhile (· != '=')).tail?.map String.ofList
  if a.pending.isSome then .error .usage
  else if a.hasRoomFor name then
    match value with
    | some value => .ok { a with options := a.options ++ [(name, value)] }
    | none => .ok { a with pending := some name }
  else if value.isSome then .error .usage
  else a.takeSwitch name

def takeShort (a : Arguments) : List Char → Except Stop Arguments
  | [] => .ok a
  | 'q' :: cs => do takeShort (← a.takeQuiet) cs
  | 'v' :: cs => a.takeShort cs
  | 'h' :: _ => .error .help
  | 'V' :: _ => if a.path = [] then .error .version else .error .usage
  | _ => .error .usage

def take (commands : Commands) (a : Arguments) (word : String) : Except Stop Arguments :=
  if a.verbatim then a.takeWord commands word
  else
    match word.toList with
    | ['-', '-'] => if a.pending.isSome then .error .usage else .ok { a with verbatim := true }
    | '-' :: '-' :: cs => a.takeLong cs
    | '-' :: c :: cs => if a.pending.isSome then .error .usage else a.takeShort (c :: cs)
    | _ => a.takeWord commands word

/-- Checks that nothing is missing. -/
def finish (a : Arguments) : Except Stop Arguments :=
  if a.explaining then .error .help
  else if a.pending.isSome then .error .usage
  else
    match a.shape with
    | some shape => if a.operands.length = shape.operands then .ok a else .error .usage
    | none => .error .usage

def ofWords (commands : Commands) (words : List String) : Except Stop Arguments := do
  finish (← words.foldlM (take commands) {})

def option? (a : Arguments) (name : String) : Option String := a.options.lookup name

/-- Whether a switch is given. -/
def hasSwitch (a : Arguments) (name : String) : Bool := a.switches.contains name

end Arguments

end RemoteSigning.CommandLine
