import ComponentTags.CompiledUnit
import ComponentTags.Proofs.Expansion.Run

/-!
# Calls of an expansion

The calls that an expansion makes, in the order of their numbers. An expander goes on counting from
text to text, so the calls of all texts that one expander has gone over are numbered one by one, and
no two of them share an identifier or a body variable.
-/

namespace ComponentTags

namespace Text

theorem ofNat_injective : Function.Injective ofNat := by
  intro m n h
  have hread := congrArg (Nat.ofDigitChars 10 · 0) h
  simpa only [ofNat, Nat.ofDigitChars_ten_toDigits] using hread

/-- A text is cut in one way only at its last occurrence of a character. -/
theorem append_cons_inj {c : Char} {s s' t t' : Text} (ht : c ∉ t) (ht' : c ∉ t')
    (h : s ++ c :: t = s' ++ c :: t') : s = s' ∧ t = t' := by
  rcases List.append_eq_append_iff.1 h with ⟨u, rfl, hu⟩ | ⟨u, rfl, hu⟩
  · cases u with
    | nil => simpa using hu
    | cons d u =>
      obtain ⟨-, rfl⟩ := List.cons.inj hu
      simp at ht
  · cases u with
    | nil => simpa [eq_comm] using hu
    | cons d u =>
      obtain ⟨-, rfl⟩ := List.cons.inj hu
      simp at ht'

end Text

namespace Call

/-- An identifier tells the name and the number, since digits follow its last dash. -/
theorem identifier_inj {name name' : Text} {m n : Nat} :
    identifier name m = identifier name' n ↔ Text.lower name = Text.lower name' ∧ m = n := by
  constructor
  · intro h
    have hdigits (n : Nat) : '-' ∉ Text.ofNat n := fun hm =>
      absurd (Nat.isDigit_of_mem_toDigits (by decide) (by decide) hm) (by decide)
    obtain ⟨hname, hnumber⟩ := Text.append_cons_inj (hdigits m) (hdigits n) h
    exact ⟨hname, Text.ofNat_injective hnumber⟩
  · rintro ⟨hname, rfl⟩
    rw [identifier, identifier, hname]

theorem bodyVariable_injective : Function.Injective bodyVariable := by
  intro m n h
  simp only [bodyVariable, Delimited.reserved] at h
  exact Text.ofNat_injective (List.append_cancel_left (List.append_cancel_left h))

end Call

namespace Expander

/-! ## The calls of one text -/

/-- The calls that an expansion makes, each as its block and its number. A pass makes those of all
leaf blocks. -/
def calls (x : Expander) (source : Text) : List (Block × Nat) :=
  match hl : Block.leaves source with
  | .error _ | .ok [] => []
  | .ok (block :: blocks) =>
    match hp : x.pass source (block :: blocks) with
    | (_, .error _) => []
    | (y, .ok next) =>
      have : next.count '<' < source.count '<' := by
        have hle := count_pass_le hl hp
        simp only [List.length_cons] at hle
        omega
      (block :: blocks).zipIdx (x.issued + 1) ++ y.calls next
termination_by source.count '<'

theorem calls_eq (x : Expander) (source : Text) :
    x.calls source =
      match Block.leaves source with
      | .error _ | .ok [] => []
      | .ok (block :: blocks) =>
        match x.pass source (block :: blocks) with
        | (_, .error _) => []
        | (y, .ok next) => (block :: blocks).zipIdx (x.issued + 1) ++ y.calls next := by
  rw [calls]
  split
  · next hl => rw [hl]
  · next hl => rw [hl]
  · next hl => split <;> next hp => simp only [hl, hp]

theorem calls_of_pass {x y : Expander} {source next : Text} {blocks : List Block}
    (hl : Block.leaves source = .ok blocks) (hne : blocks ≠ [])
    (hp : x.pass source blocks = (y, .ok next)) :
    x.calls source = blocks.zipIdx (x.issued + 1) ++ y.calls next := by
  obtain ⟨block, blocks, rfl⟩ := List.exists_cons_of_ne_nil hne
  rw [calls_eq]
  simp only [hl, hp]

theorem calls_of_done (x : Expander) {source : Text} (h : Block.leaves source = .ok []) :
    x.calls source = [] := by
  rw [calls_eq, h]

/-- A pass that succeeds has numbered all its blocks. -/
theorem expander_of_pass {x y : Expander} {source next : Text} {blocks : List Block}
    (h : x.pass source blocks = (y, .ok next)) :
    y = { x with issued := x.issued + blocks.length } := by
  rw [pass] at h
  split at h
  · cases h
  · cases h
    rfl

/-- Calls that are numbered one by one from `first` on. -/
def NumberedFrom (first : Nat) (calls : List (Block × Nat)) : Prop :=
  calls.map Prod.snd = List.range' first calls.length

theorem NumberedFrom.append {first : Nat} {calls calls' : List (Block × Nat)}
    (h : NumberedFrom first calls) (h' : NumberedFrom (first + calls.length) calls') :
    NumberedFrom first (calls ++ calls') := by
  rw [NumberedFrom] at h h' ⊢
  rw [List.map_append, h, h', List.length_append, List.range'_append_1]

theorem numberedFrom_calls_of_steps {x y : Expander} {source last : Text} {n : Nat}
    (h : Steps x source n y last) (hdone : Block.leaves last = .ok []) :
    NumberedFrom (x.issued + 1) (x.calls source) ∧
      y = { x with issued := x.issued + (x.calls source).length } := by
  induction h with
  | refl x source =>
    rw [calls_of_done x hdone]
    exact ⟨rfl, rfl⟩
  | @cons x y z source next last n hstep _ ih =>
    obtain ⟨hl, hne, hp⟩ := hstep
    obtain ⟨hnumbers, rfl⟩ := ih hdone
    obtain rfl := expander_of_pass hp
    rw [calls_of_pass hl hne hp]
    constructor
    · refine NumberedFrom.append ?_ ?_
      · rw [NumberedFrom, List.zipIdx_map_snd, List.length_zipIdx]
      · rw [List.length_zipIdx, Nat.add_right_comm]
        exact hnumbers
    · simp only [List.length_append, List.length_zipIdx, Nat.add_assoc]

/-- The calls of a text that is expanded are numbered from the first number that the expander has
not given out yet, and it has given out theirs in the end. -/
theorem numberedFrom_calls {x : Expander} {source : Text} {n : Nat}
    (h : (x.expand source).passes = .ok n) :
    NumberedFrom (x.issued + 1) (x.calls source) ∧
      (x.expand source).expander = { x with issued := x.issued + (x.calls source).length } := by
  obtain ⟨m, y, last, hsteps, hhalts⟩ := exists_steps_halts x source 0
  rw [expand] at h ⊢
  generalize x.expandFrom 0 source = r at h hhalts ⊢
  cases hhalts with
  | invalid => cases h
  | unknown => cases h
  | done hdone => exact numberedFrom_calls_of_steps hsteps hdone

/-- A text that needs one pass. -/
theorem expand_of_pass {x y : Expander} {source next : Text} {blocks : List Block}
    (hl : Block.leaves source = .ok blocks) (hne : blocks ≠ [])
    (hp : x.pass source blocks = (y, .ok next)) (hdone : Block.leaves next = .ok []) :
    x.expand source = ⟨y, next, .ok 1⟩ ∧ x.calls source = blocks.zipIdx (x.issued + 1) := by
  rw [expand, expandFrom_of_step (.pass hl hne hp), expandFrom_of_halts (.done hdone),
    calls_of_pass hl hne hp, calls_of_done y hdone, List.append_nil]
  exact ⟨rfl, rfl⟩

theorem expand_of_done (x : Expander) {source : Text} (h : Block.leaves source = .ok []) :
    x.expand source = ⟨x, source, .ok 0⟩ :=
  expandFrom_of_halts (.done h)

/-! ## The calls of several texts -/

/-- The calls that one expander makes in texts that it goes over one after the other. -/
def callsIn (x : Expander) : List Text → List (Block × Nat)
  | [] => []
  | source :: rest => x.calls source ++ (x.expand source).expander.callsIn rest

/-- All texts are expanded, one after the other. -/
def ExpandsAll (x : Expander) : List Text → Prop
  | [] => True
  | source :: rest =>
    (∃ n, (x.expand source).passes = .ok n) ∧ (x.expand source).expander.ExpandsAll rest

theorem numberedFrom_callsIn {x : Expander} {sources : List Text} (h : x.ExpandsAll sources) :
    NumberedFrom (x.issued + 1) (x.callsIn sources) := by
  induction sources generalizing x with
  | nil => rfl
  | cons source rest ih =>
    obtain ⟨⟨n, hn⟩, hrest⟩ := h
    obtain ⟨hnumbers, hexpander⟩ := numberedFrom_calls hn
    have hrest := ih hrest
    rw [callsIn]
    refine hnumbers.append ?_
    rw [hexpander] at hrest ⊢
    rwa [Nat.add_right_comm] at hrest

end Expander

theorem Registry.expandSources_cons {x y : Expander} {name source text : Text} {n : Nat}
    {rest expanded : List (Text × Text)} (h : x.expand source = ⟨y, text, .ok n⟩)
    (hrest : Registry.expandSources y rest = .ok expanded) :
    Registry.expandSources x ((name, source) :: rest) = .ok ((name, text) :: expanded) := by
  simp only [expandSources, h, hrest, bind, Except.bind, pure, Except.pure]

section Host

variable [TemplateLanguage]

open TemplateLanguage (Environment)

theorem CompiledUnit.addComponents_cons {folder name text : Text} {env env' : Environment}
    (h : addTemplate env (Registry.templateName folder name) text = .ok env')
    (rest : List (Text × Text)) :
    addComponents folder env ((name, text) :: rest) = addComponents folder env' rest := by
  simp only [addComponents, h, bind, Except.bind]

theorem CompiledUnit.addFiles_cons {x y : Expander} {env env' : Environment} {text : Text}
    {n : Nat} (source : Source) (h : x.expand source.prepared = ⟨y, text, .ok n⟩)
    (ha : addTemplate env source.name text = .ok env') (rest : List Source) :
    addFiles x env (source :: rest) = addFiles y env' rest := by
  simp only [addFiles, h, ha, bind, Except.bind]

/-- Compiling comes out well exactly if all templates can be added. -/
theorem CompiledUnit.compile_eq_ok_iff {env : Environment} {components : Registry}
    {document : Document} {unit : CompiledUnit} :
    compile env components document = .ok unit ↔
      ∃ held, addComponents components.folder env components.sources = .ok held ∧
        addFiles { registry := some components }
          (TemplateLanguage.addFunction held Call.functionName
            (Component.function components.folder)) document.sources = .ok unit.environment ∧
        document.entry = unit.entry ∧ document.names = unit.names := by
  obtain ⟨environment, entry, names⟩ := unit
  simp only [compile, register, bind, Except.bind, pure, Except.pure]
  cases addComponents components.folder env components.sources with
  | error e => simp
  | ok held =>
    simp only [Except.ok.injEq, exists_eq_left']
    cases addFiles { registry := some components } _ document.sources <;> simp

end Host

theorem Registry.expanded_of_expandSources {r : Registry} {expanded : List (Text × Text)}
    (h : Registry.expandSources { registry := some r } r.sources = .ok expanded) :
    r.expanded = .ok { r with sources := expanded } := by
  simp only [Registry.expanded, h, bind, Except.bind, pure, Except.pure]

namespace Expander

theorem expandsAll_of_expandSources {x : Expander} {sources expanded : List (Text × Text)}
    (h : Registry.expandSources x sources = .ok expanded) :
    x.ExpandsAll (sources.map Prod.snd) := by
  induction sources generalizing x expanded with
  | nil => trivial
  | cons entry rest ih =>
    obtain ⟨name, source⟩ := entry
    simp only [Registry.expandSources, bind, Except.bind] at h
    cases hn : (x.expand source).passes with
    | error e => simp [hn] at h
    | ok n =>
      cases hr : Registry.expandSources (x.expand source).expander rest with
      | error e => simp [hn, hr] at h
      | ok expanded' => exact ⟨⟨n, hn⟩, ih hr⟩

theorem expandsAll_of_addFiles [TemplateLanguage] {x : Expander}
    {env env' : TemplateLanguage.Environment} {sources : List Source}
    (h : CompiledUnit.addFiles x env sources = .ok env') :
    x.ExpandsAll (sources.map Source.prepared) := by
  induction sources generalizing x env with
  | nil => trivial
  | cons source rest ih =>
    simp only [CompiledUnit.addFiles, bind, Except.bind] at h
    cases hn : (x.expand source.prepared).passes with
    | error e => simp [hn] at h
    | ok n =>
      cases ha : CompiledUnit.addTemplate env source.name (x.expand source.prepared).text with
      | error e => simp [hn, ha] at h
      | ok env'' =>
        simp only [hn, ha] at h
        exact ⟨⟨n, hn⟩, ih h⟩

end Expander

end ComponentTags
