import ComponentTags.Text.Keyed

/-!
# Data values

What a template is rendered with: the values that data files of every format come down to.
-/

namespace ComponentTags

inductive Data where
  | null
  | bool (b : Bool)
  | int (n : Int)
  | float (x : Float)
  | string (s : Text)
  | list (items : List Data)
  /-- Entries in key order. -/
  | map (entries : List (Text × Data))
deriving Inhabited

namespace Data

/-- The entry of a map under `key`. -/
def field? (key : String) : Data → Option Data
  | map entries => Keyed.find? key.toList entries
  | _ => none

end Data

end ComponentTags
