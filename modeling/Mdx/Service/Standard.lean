/-
The services that are in use by default: those for prose and for script.
-/
import Mdx.Service.Markdown
import Mdx.Service.Registry
import Mdx.Service.Script

namespace Mdx

/-- The service for prose and the service for script. -/
def Registry.standard (options : DiagnosticsOptions) : Registry :=
  (Registry.empty.register MarkdownService.service).register (ScriptService.service options)

end Mdx
