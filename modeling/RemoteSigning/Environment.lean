/-!
# Environments

The variables that a program finds in its environment.
-/

namespace RemoteSigning

abbrev Environment := List (String × String)

end RemoteSigning
