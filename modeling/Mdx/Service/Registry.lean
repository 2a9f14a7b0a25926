/-
The services in use, one for each language, in the order of the languages.
-/
import Mdx.Service.Basic

namespace Mdx

/-- The services in use. -/
structure Registry where
  services : List Service

namespace Registry

/-- No service. -/
def empty : Registry := ⟨[]⟩

/-- Puts a service at its place, where it replaces one of the same language. -/
def insertService (s : Service) : List Service → List Service
  | [] => [s]
  | t :: ts =>
    if s.language = t.language then s :: ts
    else if s.language.rank < t.language.rank then s :: t :: ts
    else t :: insertService s ts

/-- Adds a service. -/
def register (r : Registry) (s : Service) : Registry := ⟨insertService s r.services⟩

/-- The service of a language. -/
def service? (r : Registry) (language : Language) : Option Service :=
  r.services.find? (·.language == language)

/-- The languages that have a service. -/
def languages (r : Registry) : List Language := r.services.map (·.language)

/-- The languages as a list in brackets. -/
def render (r : Registry) : String := "[" ++ ", ".intercalate (r.languages.map Language.name) ++ "]"

end Registry

end Mdx
