/-!
# Version

The version that the programs report.
-/

namespace RemoteSigning

def version : String := "0.1.0"

end RemoteSigning
