import ComponentTags.Data.Toml.Scalar
import ComponentTags.Text.Keyed

/-!
# Tables of TOML

A table is defined once: by a header, by the dotted keys of the entries inside it, or only as the
parent of other tables, in which case a header may still follow. Each operation fails where it would
define something twice.
-/

namespace ComponentTags.Toml

/-- How a table came to be. -/
inductive Origin where
  | header
  | parent
  | dotted
deriving DecidableEq

inductive Node where
  | value (v : Value)
  | table (origin : Origin) (entries : List (Text × Node))
  /-- An array of tables, the latest first. -/
  | tables (items : List (List (Text × Node)))
deriving Inhabited

abbrev Entries := List (Text × Node)

namespace Entries

/-- Changes the table at a path. Of an array of tables that is the latest. -/
def update (f : Entries → Option Entries) : List Text → Entries → Option Entries
  | [], entries => f entries
  | key :: path, entries =>
    match Keyed.find? key entries with
    | some (.table origin inner) => do
      return Keyed.insert key (.table origin (← update f path inner)) entries
    | some (.tables (latest :: earlier)) => do
      return Keyed.insert key (.tables ((← update f path latest) :: earlier)) entries
    | _ => none

/-- Adds the entry of a dotted key. -/
def put (v : Value) : List Text → Entries → Option Entries
  | [], _ => none
  | [key], entries =>
    if (Keyed.find? key entries).isSome then none else some (Keyed.insert key (.value v) entries)
  | key :: path, entries =>
    let passes := 1 < path.length
    match Keyed.find? key entries with
    | none => do return Keyed.insert key (.table .dotted (← put v path [])) entries
    | some (.table .dotted inner) => do
      return Keyed.insert key (.table .dotted (← put v path inner)) entries
    | some (.table .parent inner) =>
      if passes then do return Keyed.insert key (.table .parent (← put v path inner)) entries
      else none
    | some (.tables (latest :: earlier)) =>
      if passes then do
        return Keyed.insert key (.tables ((← put v path latest) :: earlier)) entries
      else none
    | _ => none

/-- Goes down the parents of a header and lets `f` define its last key. -/
def define (f : Option Node → Option Node) : List Text → Entries → Option Entries
  | [], _ => none
  | [key], entries => do return Keyed.insert key (← f (Keyed.find? key entries)) entries
  | key :: path, entries =>
    match Keyed.find? key entries with
    | none => do return Keyed.insert key (.table .parent (← define f path [])) entries
    | some (.table origin inner) => do
      return Keyed.insert key (.table origin (← define f path inner)) entries
    | some (.tables (latest :: earlier)) => do
      return Keyed.insert key (.tables ((← define f path latest) :: earlier)) entries
    | _ => none

/-- Defines the table of a header. -/
def openTable : List Text → Entries → Option Entries :=
  define fun
    | none => some (.table .header [])
    | some (.table .parent inner) => some (.table .header inner)
    | _ => none

/-- Adds a table to the array of a header. -/
def openItem : List Text → Entries → Option Entries :=
  define fun
    | none => some (.tables [[]])
    | some (.tables items) => some (.tables ([] :: items))
    | _ => none

end Entries

mutual

def Node.toValue : Node → Value
  | .value v => v
  | .table _ entries => .table (entriesToValues entries)
  | .tables items => .array (itemsToValues items).reverse

def entriesToValues : List (Text × Node) → List (Text × Value)
  | [] => []
  | (key, node) :: rest => (key, node.toValue) :: entriesToValues rest

def itemsToValues : List (List (Text × Node)) → List Value
  | [] => []
  | entries :: rest => .table (entriesToValues entries) :: itemsToValues rest

end

end ComponentTags.Toml
