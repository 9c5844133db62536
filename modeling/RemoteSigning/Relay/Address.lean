import RemoteSigning.Text.Search
import RemoteSigning.Url.Ipv4
import RemoteSigning.Url.Ipv6
/-!
# Network addresses

Addresses of hosts and of sockets as settings and peers name them. Unlike in a URL, an address of
version 4 always has four decimal numbers.
-/

namespace RemoteSigning.Relay

open Url

/-- The address of a host. -/
inductive Address where
  | v4 (address : Nat)
  | v6 (numbers : List Nat)
deriving DecidableEq, Repr

namespace Address

/-- The address `127.0.0.1`. -/
def loopback : Address := .v4 (127 * 2 ^ 24 + 1)

/-- Reads an address of version 4. -/
def v4OfText? (cs : List Char) : Option Address :=
  (Ipv6.tail? cs).map fun (high, low) => .v4 (high * 2 ^ 16 + low)

/-- The number of numbers that are written out. An address of version 4 stands for two. -/
def writtenNumbers (cs : List Char) : Nat :=
  (cs.splitOn ':').foldl (fun n part =>
    n + if part = [] then 0 else if part.contains '.' then 2 else 1) 0

/-- Reads an address of version 6. Two colons stand for at least one number. -/
def v6OfText? (cs : List Char) : Option Address :=
  if writtenNumbers cs = 8 ∧ Text.occurs [':', ':'] cs then none else (Ipv6.ofText? cs).map .v6

def ofText? (text : String) : Option Address := v4OfText? text.toList <|> v6OfText? text.toList

/-- The address as it is written. One that stands for an address of version 4 shows it. -/
def text : Address → String
  | .v4 address => Ipv4.text address
  | .v6 [0, 0, 0, 0, 0, 65535, high, low] => "::ffff:" ++ Ipv4.text (high * 2 ^ 16 + low)
  | .v6 numbers => Ipv6.text numbers

def socketText (a : Address) (port : Nat) : String :=
  match a with
  | .v4 _ => a.text ++ ":" ++ toString port
  | .v6 _ => "[" ++ a.text ++ "]:" ++ toString port

def ofSocketText? (text : String) : Option Address :=
  let host := (text.toList.reverse.dropWhile (· != ':')).drop 1
  match host with
  | ']' :: inner => ofText? (String.ofList (inner.reverse.drop 1))
  | host => ofText? (String.ofList host.reverse)

end Address

end RemoteSigning.Relay
