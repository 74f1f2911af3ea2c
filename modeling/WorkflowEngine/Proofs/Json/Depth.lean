import WorkflowEngine.Proofs.Json.Parts
import WorkflowEngine.Proofs.Json.Text

/-!
# How deep a text may be nested

What is read is nested no deeper than the reader may go.
-/
namespace WorkflowEngine

namespace Json

namespace Bounded

variable {fuel depth : Nat} {cs rest : List Char}

end Bounded

end Json

end WorkflowEngine
