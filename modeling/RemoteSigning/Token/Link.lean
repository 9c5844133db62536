import RemoteSigning.Url.Parse
/-!
# Links

The link behind the code that a device shows. It leads to the page of the relying party on which the
scanning device takes over, and carries the token in its query.
-/

namespace RemoteSigning.Token

/-- The path of the page, below the path of the relying party. -/
def linkPath : String := "authenticator"

/-- The name under which the token stands in the query. -/
def linkParameter : String := "token"

/-- The text without slashes at its end. -/
def trimSlashes (text : String) : String :=
  String.ofList (text.toList.reverse.dropWhile (· == '/')).reverse

/-- The link that carries a token. -/
def link (base : Url) (token : String) : Url :=
  (base.setPath (trimSlashes base.path.text ++ "/" ++ linkPath)).withQueryPair linkParameter token

/-- The token that a link carries. -/
def ofLink? (u : Url) : Option String := u.queryPairs.lookup linkParameter

end RemoteSigning.Token
