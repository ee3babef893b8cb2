import ComponentTags.Expander

/-!
# Components made of components

The sources of components may use components themselves. One expander goes over all sources in the
order of their names and knows the components of the same registry.
-/

namespace ComponentTags.Registry

/-- The sources after expanding one after the other. The first error ends it. -/
def expandSources (expander : Expander) :
    List (Text × Text) → Except Error (List (Text × Text))
  | [] => .ok []
  | (name, source) :: rest => do
    let result := expander.expand source
    let _ ← result.passes
    return (name, result.text) :: (← expandSources result.expander rest)

def expanded (r : Registry) : Except Error Registry := do
  return { r with sources := ← expandSources { registry := some r } r.sources }

end ComponentTags.Registry
