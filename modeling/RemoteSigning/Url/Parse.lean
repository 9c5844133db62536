import RemoteSigning.Url.Basic
import RemoteSigning.Url.Domain
/-!
# Reading URLs

Tabs and line breaks do not count anywhere in a URL, nor do blanks and controls at its ends. `parse`
reads a text that has a scheme, `resolve` a reference that continues the path of another URL.
-/

namespace RemoteSigning.Url

open Text

/-- Whether a character is dropped at the ends of a text. -/
def isEdge (c : Char) : Bool := c.toNat ≤ 0x20

/-- Whether a character is dropped anywhere. -/
def isIgnored (c : Char) : Bool := c == '\t' || c == '\n' || c == '\r'

/-- The characters that count. -/
def significant (cs : List Char) : List Char := cs.filter (!isIgnored ·)

/-- The characters of a URL that count. -/
def trimmed (text : String) : List Char :=
  significant ((text.toList.dropWhile isEdge).reverse.dropWhile isEdge).reverse

/-- Whether a character ends the authority. -/
def endsAuthority (k : SchemeKind) (c : Char) : Bool :=
  c == '/' || c == '?' || c == '#' || (k.isStrict && c == '\\')

/-- Whether a character ends the path. -/
def endsPath (c : Char) : Bool := c == '?' || c == '#'

/-- Whether a character separates segments. -/
def isSlash (k : SchemeKind) (c : Char) : Bool := c == '/' || (k.isStrict && c == '\\')

/-- Whether a character may follow in a scheme. -/
def isSchemeCharacter (c : Char) : Bool := c.isAlphanum || c == '+' || c == '-' || c == '.'

/-- Splits a text with a scheme after the colon. -/
def splitScheme? (cs : List Char) : Option (String × List Char) :=
  let name := cs.takeWhile isSchemeCharacter
  match name, cs.drop name.length with
  | c :: _, ':' :: rest =>
    if c.isAlpha then some (String.ofList (name.map Char.toLower), rest) else none
  | _, _ => none

/-- Whether a segment stands for the directory itself. -/
def isSingleDot (segment : List Char) : Bool :=
  [".", "%2e"].contains (String.ofList (segment.map Char.toLower))

/-- Whether a segment stands for the directory above. -/
def isDoubleDot (segment : List Char) : Bool :=
  ["..", ".%2e", "%2e.", "%2e%2e"].contains (String.ofList (segment.map Char.toLower))

/-- Whether a segment names a drive. -/
def isDrive (marks : List Char) : List Char → Bool
  | [c, m] => c.isAlpha && marks.contains m
  | _ => false

/-- The path without its last segment. A single drive of a URL of files stays. -/
def shorten (k : SchemeKind) (names : List String) : List String :=
  match k, names with
  | .file, [name] => if isDrive [':'] name.toList then names else []
  | _, names => names.dropLast

/-- The segment as it is kept after `names`. The first one of a URL of files may name a drive. -/
def segmentText (k : SchemeKind) (names : List String) (segment : List Char) : String :=
  if k = .file ∧ names = [] ∧ isDrive [':', '|'] segment then
    String.ofList (segment.take 1 ++ [':'])
  else String.ofList (Percent.encode Percent.inPath segment)

/-- Appends the segment that is the last one of a text. -/
def appendLast (k : SchemeKind) (names : List String) (segment : List Char) : List String :=
  if isDoubleDot segment then shorten k names ++ [""]
  else if isSingleDot segment then names ++ [""]
  else names ++ [segmentText k names segment]

/-- Appends a segment that others follow. -/
def appendInner (k : SchemeKind) (names : List String) (segment : List Char) : List String :=
  if isDoubleDot segment then shorten k names
  else if isSingleDot segment then names
  else names ++ [segmentText k names segment]

def appendSegments (k : SchemeKind) (names : List String) : List (List Char) → List String
  | [] => names
  | [segment] => appendLast k names segment
  | segment :: rest => appendSegments k (appendInner k names segment) rest

/-- Appends what is written after the first slash. A path of files has no empty segments in front.
-/
def appendPath (k : SchemeKind) (names : List String) (cs : List Char) : List String :=
  let all := appendSegments k names (cs.splitOnP (isSlash k))
  if k = .file then
    match all.dropWhile (· == "") with
    | [] => [""]
    | names => names
  else all

/-- Reads the path that follows an authority. It may lack the first slash, and it may be missing. -/
def pathOf (k : SchemeKind) (cs : List Char) : List String :=
  match cs with
  | [] => if k.isStrict then [""] else []
  | c :: rest => appendPath k [] (if isSlash k c then rest else c :: rest)

/-- What a host that is no domain must not have. -/
def forbiddenInHost : List Char :=
  [Char.ofNat 0, ' ', '#', '/', ':', '<', '>', '?', '@', '[', '\\', ']', '^', '|']

def bracketed (cs : List Char) : Except Error Host :=
  match cs.reverse with
  | ']' :: inner =>
    match Ipv6.ofText? (inner.reverse.drop 1) with
    | some numbers => .ok (.ipv6 numbers)
    | none => .error .badIpv6
  | _ => .error .badIpv6

/-- Reads the host of a URL that is not special. -/
def generalHost (cs : List Char) : Except Error Host :=
  if cs.any forbiddenInHost.contains then .error .badHostCharacter
  else .ok (.domain (String.ofList (Percent.encode Percent.inControl cs)))

/-- Reads a domain or an address of version 4. -/
def specialHost (cs : List Char) : Except Error Host :=
  match Domain.ofOctets? (Percent.decode (cs.flatMap charOctets)) with
  | none => .error .badDomain
  | some [] => .error .emptyHost
  | some name =>
    if Ipv4.isMeant name then
      match Ipv4.ofName? name with
      | some address => .ok (.ipv4 address)
      | none => .error .badIpv4
    else .ok (.domain (String.ofList name))

def hostOf (k : SchemeKind) (cs : List Char) : Except Error Host :=
  if cs.head? = some '[' then bracketed cs
  else if k.isStrict then specialHost cs
  else generalHost cs

/-- The position after the last `@` of an authority, with the characters before it. -/
def splitCredentials (authority : List Char) : Option (List Char) × List Char :=
  let host := (authority.reverse.takeWhile (· != '@')).reverse
  if host.length = authority.length then (none, authority)
  else (some (authority.take (authority.length - host.length - 1)), host)

def userinfoText (cs : List Char) : String := String.ofList (Percent.encode Percent.inUserinfo cs)

/-- The number of characters of a host, up to a colon outside brackets. -/
def hostLength (inBrackets : Bool) : List Char → Nat
  | [] => 0
  | c :: rest =>
    if c = ':' ∧ !inBrackets then 0
    else hostLength (if c = '[' then true else if c = ']' then false else inBrackets) rest + 1

/-- Reads a port that is not the implied one. -/
def readPort (scheme : String) (n : Nat) (digits : Bool) :
    List Char → Except Error (Option Nat × List Char)
  | c :: rest =>
    if c.isDigit then
      let n := n * 10 + (c.toNat - 48)
      if 65535 < n then .error .badPort else readPort scheme n true rest
    else if c = '/' ∨ c = '\\' ∨ c = '?' ∨ c = '#' then .ok (port, c :: rest)
    else .error .badPort
  | [] => .ok (port, [])
where
  /-- The port that has been read. -/
  port : Option Nat := if digits ∧ impliedPort scheme ≠ some n then some n else none

/-- An authority: the host and what belongs to it. -/
structure Authority where
  username : String
  password : String
  host : Host
  port : Option Nat
deriving DecidableEq, Repr

/-- Reads an authority, after its slashes, and what follows. -/
def readAuthority (scheme : String) (cs : List Char) : Except Error (Authority × List Char) := do
  let k := SchemeKind.of scheme
  let authority := cs.takeWhile (!endsAuthority k ·)
  let (credentials, _) := splitCredentials authority
  let skip := credentials.elim 0 (·.length + 1)
  let credentials := credentials.getD []
  let username := userinfoText (credentials.takeWhile (· != ':'))
  let password := userinfoText ((credentials.dropWhile (· != ':')).drop 1)
  let cs := cs.drop skip
  if skip = 1 ∧ (cs.head?.elim false (endsAuthority k)) then throw .emptyHost
  let authority := cs.takeWhile (!endsAuthority k ·)
  let length := hostLength false authority
  if length = 0 ∧ k = .special then throw .emptyHost
  let host ← hostOf k (authority.take length)
  let rest := cs.drop length
  if host = .domain "" ∧ (rest.head? = some ':' ∨ username ≠ "" ∨ password ≠ "") then
    throw .emptyHost
  let (port, rest) ←
    match rest with
    | ':' :: rest => readPort scheme 0 false rest
    | rest => pure (none, rest)
  return ({ username, password, host, port }, rest)

def withTail (u : Url) (cs : List Char) : Url :=
  let query := cs.takeWhile (· != '#')
  let fragment := cs.drop query.length
  let reserved := if u.kind.isStrict then Percent.inSpecialQuery else Percent.inQuery
  { u with
    query := query.head?.map fun _ => String.ofList (Percent.encode reserved (query.drop 1))
    fragment :=
      fragment.head?.map fun _ =>
        String.ofList (Percent.encode Percent.inFragment (fragment.drop 1)) }

/-- Splits what follows an authority into the path and the rest. -/
def splitPath (cs : List Char) : List Char × List Char :=
  (cs.takeWhile (!endsPath ·), cs.dropWhile (!endsPath ·))

/-- Reads a URL with an authority, after the slashes. -/
def parseWithAuthority (scheme : String) (cs : List Char) : Except Error Url := do
  let (a, rest) ← readAuthority scheme cs
  let (path, tail) := splitPath rest
  return withTail
    { scheme
      username := a.username
      password := a.password
      host := some a.host
      port := a.port
      path := .segments (pathOf (.of scheme) path) } tail

/-- Reads the host of a URL of files. A drive in its place belongs to the path. -/
def parseFileHost (cs : List Char) : Except Error Url := do
  let name := cs.takeWhile (!endsAuthority .file ·)
  let (host, rest) ←
    if name = [] ∨ isDrive [':', '|'] name then pure (Host.domain "", cs)
    else
      match ← hostOf .file name with
      | .domain "localhost" => pure (Host.domain "", cs.drop name.length)
      | h => pure (h, cs.drop name.length)
  let (path, tail) := splitPath rest
  return withTail
    { scheme := "file", host := some host, path := .segments (pathOf .file path) } tail

/-- Reads a URL of files, after the scheme. -/
def parseFile (cs : List Char) : Except Error Url :=
  match cs with
  | c :: d :: rest =>
    if isSlash .file c ∧ isSlash .file d then parseFileHost rest
    else .ok (withPath (c :: d :: rest))
  | cs => .ok (withPath cs)
where
  /-- The URL without a host. -/
  withPath (cs : List Char) : Url :=
    let (path, tail) := splitPath cs
    withTail
      { scheme := "file", host := some (.domain ""), path := .segments (pathOf .file path) } tail

/-- Reads a URL of another scheme, after the scheme. -/
def parseGeneral (scheme : String) (cs : List Char) : Except Error Url :=
  match cs with
  | '/' :: '/' :: rest => parseWithAuthority scheme rest
  | cs =>
    let (path, tail) := splitPath cs
    let path :=
      match path with
      | '/' :: path => Path.segments (appendPath .general [] path)
      | path => Path.rootless (String.ofList (Percent.encode Percent.inControl path))
    .ok (withTail { scheme, path } tail)

def parse (text : String) : Except Error Url :=
  match splitScheme? (trimmed text) with
  | none => .error .noScheme
  | some (scheme, rest) =>
    match SchemeKind.of scheme with
    | .file => parseFile rest
    | .special => parseWithAuthority scheme (rest.dropWhile (isSlash .special))
    | .general => parseGeneral scheme rest

/-- Reads a reference that continues the path of a base: it replaces the last segment of the path
and all that follows it. -/
def resolve (base : Url) (reference : String) : Except Error Url :=
  match base.path with
  | .rootless _ => .error .rootlessBase
  | .segments names =>
    let (path, tail) := splitPath (trimmed reference)
    let k := base.kind
    .ok (withTail { base with path := .segments (appendPath k (shorten k names) path) } tail)

/-- The URL with another path, in which `?` and `#` do not end the path. -/
def setPath (u : Url) (path : String) : Url :=
  let cs := significant path.toList
  match u.path with
  | .rootless _ =>
    let text :=
      match path.toList with
      | '/' :: rest => "%2F" ++ String.ofList (Percent.encode Percent.inControl (significant rest))
      | _ => String.ofList (Percent.encode Percent.inControl cs)
    { u with path := .rootless text }
  | .segments _ => { u with path := .segments (pathOf u.kind cs) }

/-- The URL without query and fragment. -/
def withoutTail (u : Url) : Url := { u with query := none, fragment := none }

/-- The URL with another special scheme, if it is special itself or has a host of files. A port that
the new scheme implies is dropped. -/
def setSpecialScheme? (u : Url) (scheme : String) : Option Url :=
  if u.kind.isStrict ∧ u.hasHost then
    some { u with scheme, port := u.port.filter (impliedPort scheme ≠ some ·) }
  else none

end RemoteSigning.Url
