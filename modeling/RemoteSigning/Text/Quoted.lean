import RemoteSigning.Text.Hex
import RemoteSigning.Text.Printable
/-!
# Quoted text

Text between quotes for messages. What a reader could not see or could misread is escaped.
-/

namespace RemoteSigning.Text.Quoted

def escape (c : Char) : List Char :=
  if c = '"' then ['\\', '"']
  else if c = '\\' then ['\\', '\\']
  else if c = '\t' then ['\\', 't']
  else if c = '\r' then ['\\', 'r']
  else if c = '\n' then ['\\', 'n']
  else if c.toNat = 0 then ['\\', '0']
  else if isExtending c || !isPrintable c then
    ['\\', 'u', '{'] ++ Hex.ofNat c.toNat ++ ['}']
  else [c]

def encode (s : String) : String :=
  String.ofList ('"' :: s.toList.flatMap escape ++ ['"'])

end RemoteSigning.Text.Quoted
