import ComponentTags.Call
import ComponentTags.Registry
import ComponentTags.TemplateLanguage

/-!
# Rendering components

The function that component tags call. It looks up the template of the component by its lowered name
and renders it with the attributes of the tag, above which stands what the call itself tells.
-/

namespace ComponentTags.Component

open TemplateLanguage

variable [TemplateLanguage]

/-- What stands under each key of the attributes. -/
def entries (attributes : Value) : Except Fault (List (Text × Value)) := do
  let found ← ((keys? attributes).getD []).mapM fun key => do
    return (print key, ← item attributes key)
  return Keyed.ofList found

/-- The values that the template of a component sees. -/
def values (attributes : Value) (body id : Text) (isSelfClosing hasEnd : Bool) :
    Except Fault Value := do
  let reserved : List (String × Value) :=
    [("attrs", attributes), ("body", ofText body true), ("id", ofText id false),
      ("self_closing", ofBool isSelfClosing), ("is_end", ofBool hasEnd)]
  return ofEntries <| reserved.foldl (fun entries (key, v) => Keyed.insert key.toList v entries)
    (← entries attributes)

/-- Renders the template of a component. -/
def renderTemplate (template : Template) (attributes : Value) (named : Named) :
    Except Fault Value := do
  let id ← namedText named "id".toList
  let isSelfClosing ← namedBool named "self_closing".toList
  let hasEnd ← namedBool named "is_end".toList
  let body ← namedValue? named "body".toList
  checkNames named ["id".toList, "self_closing".toList, "is_end".toList, "body".toList]
  let text ← TemplateLanguage.render template
    (← values attributes (body.elim [] print) id isSelfClosing hasEnd)
  return ofText text true

/-- The function for the components of a folder. -/
def function (folder : Text) : Function := fun lookup name attributes named =>
  match lookup (Registry.templateName folder name) with
  | .error _ =>
    .error (templateNotFound ("unknown component \x60".toList ++ name ++ ['\x60']))
  | .ok template => renderTemplate template attributes named

end ComponentTags.Component
