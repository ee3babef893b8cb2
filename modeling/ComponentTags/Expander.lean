import ComponentTags.Expander.Pass

/-!
# Expansion

Component tags become calls, innermost first: passes are repeated on the result of the last one
until no tag is left. They end because every pass lowers the number of `<`. One expander goes on
counting over all texts it is given.
-/

namespace ComponentTags.Expander

/-- What an expander leaves behind: itself, the text after the last complete pass, and the number of
passes or the error that stopped it. -/
structure Result where
  expander : Expander
  text : Text
  passes : Except Error Nat

/-- Goes on with `source` after the given number of passes. -/
def expandFrom (x : Expander) (passes : Nat) (source : Text) : Result :=
  match hl : Block.leaves source with
  | .error e => ⟨x, source, .error e⟩
  | .ok [] => ⟨x, source, .ok passes⟩
  | .ok (block :: blocks) =>
    match hp : x.pass source (block :: blocks) with
    | (x, .error e) => ⟨x, source, .error e⟩
    | (x, .ok next) =>
      have : next.count '<' < source.count '<' := by
        have := count_pass_le hl hp
        simp only [List.length_cons] at this
        omega
      expandFrom x (passes + 1) next
termination_by source.count '<'

def expand (x : Expander) (source : Text) : Result :=
  expandFrom x 0 source

end ComponentTags.Expander
