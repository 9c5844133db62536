import RemoteSigning.Url.Form
import RemoteSigning.Url.Ipv4
import RemoteSigning.Url.Ipv6
/-!
# URLs

A URL in its parts. Each part is kept as it is written: escaped where it has to be, and nowhere
else.
-/

namespace RemoteSigning

namespace Url

/-- Where a host is found. -/
inductive Host where
  /-- By a name, which may be empty in URLs that are not special. -/
  | domain (name : String)
  | ipv4 (address : Nat)
  | ipv6 (numbers : List Nat)
deriving DecidableEq, Repr

def Host.text : Host → String
  | .domain name => name
  | .ipv4 address => Ipv4.text address
  | .ipv6 numbers => "[" ++ Ipv6.text numbers ++ "]"

/-- A path. -/
inductive Path where
  /-- A path without a slash in front, which is not divided further. -/
  | rootless (text : String)
  /-- Segments, each of which has a slash in front. -/
  | segments (names : List String)
deriving DecidableEq, Repr

def Path.text : Path → String
  | .rootless text => text
  | .segments names => String.join (names.map ("/" ++ ·))

/-- Why a text is no URL. -/
inductive Error where
  | emptyHost
  | badDomain
  | badPort
  | badIpv4
  | badIpv6
  /-- A host that is no domain has a character that it must not have. -/
  | badHostCharacter
  /-- The text has no scheme. -/
  | noScheme
  /-- A reference was resolved against a URL whose path has no segments. -/
  | rootlessBase
deriving DecidableEq, Repr

def Error.message : Error → String
  | .emptyHost => "empty host"
  | .badDomain => "invalid international domain name"
  | .badPort => "invalid port number"
  | .badIpv4 => "invalid IPv4 address"
  | .badIpv6 => "invalid IPv6 address"
  | .badHostCharacter => "invalid domain character"
  | .noScheme => "relative URL without a base"
  | .rootlessBase => "relative URL with a cannot-be-a-base base"

end Url

/-- A URL. -/
structure Url where
  scheme : String
  username : String := ""
  password : String := ""
  /-- The host, if the URL has an authority. -/
  host : Option Url.Host := none
  /-- The port, unless it is the one that the scheme implies. -/
  port : Option Nat := none
  path : Url.Path
  query : Option String := none
  fragment : Option String := none
deriving DecidableEq, Repr

namespace Url

/-- What the scheme says about the shape of a URL. -/
inductive SchemeKind where
  /-- A URL of files: it has an authority, which may be empty. -/
  | file
  | special
  | general
deriving DecidableEq, Repr

/-- The port that a scheme implies. Exactly the special schemes imply one. -/
def impliedPort : String → Option Nat
  | "http" => some 80
  | "ws" => some 80
  | "https" => some 443
  | "wss" => some 443
  | "ftp" => some 21
  | _ => none

def SchemeKind.of (scheme : String) : SchemeKind :=
  if scheme = "file" then .file
  else if (impliedPort scheme).isSome then .special
  else .general

/-- Whether the shape is one in which a backslash is a slash and a path is never empty. -/
def SchemeKind.isStrict : SchemeKind → Bool
  | .general => false
  | _ => true

def kind (u : Url) : SchemeKind := .of u.scheme

/-- Whether the URL names a host. -/
def hasHost (u : Url) : Bool :=
  match u.host with
  | none => false
  | some (.domain "") => false
  | some _ => true

/-- User name and password with an `@`, if there are any. -/
def credentialsText (u : Url) : String :=
  if u.username = "" ∧ u.password = "" then ""
  else if u.password = "" then u.username ++ "@"
  else u.username ++ ":" ++ u.password ++ "@"

/-- The authority with its slashes. Where there is none, a path with an empty first segment would
look like one; it is set off by a point. -/
def authorityText (u : Url) : String :=
  match u.host with
  | some h =>
    "//" ++ u.credentialsText ++ h.text ++ (u.port.elim "" fun p => ":" ++ toString p)
  | none =>
    match u.path with
    | .segments ("" :: _ :: _) => "/."
    | _ => ""

def text (u : Url) : String :=
  u.scheme ++ ":" ++ u.authorityText ++ u.path.text
    ++ (u.query.elim "" ("?" ++ ·)) ++ (u.fragment.elim "" ("#" ++ ·))

instance : ToString Url := ⟨text⟩

def queryPairs (u : Url) : List (String × String) := u.query.elim [] Form.decodePairs

/-- The URL with one pair as its query and without a fragment. -/
def withQueryPair (u : Url) (name value : String) : Url :=
  { u with query := some (Form.encodePair name value), fragment := none }

end Url

end RemoteSigning
