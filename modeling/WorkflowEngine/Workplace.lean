import WorkflowEngine.Configuration
import WorkflowEngine.Store.File
import WorkflowEngine.Supply

/-!
# Workplaces

What the command line and the service find around them: files, the directory they start in, the
variables of their environment, and where new identifiers and times come from.
-/
namespace WorkflowEngine

structure Workplace where
  files : FileSystem := {}
  /-- Relative paths start here. -/
  directory : Path := []
  env : Environment := []
  supply : Supply := {}
  deriving Inhabited

namespace Workplace

/-- The path that a text names here. -/
def locate (place : Workplace) (written : String) : Path := place.directory.resolve written

end Workplace

end WorkflowEngine
