import Mathlib
import ComponentTags.Proofs.Engine.Run

/-!
# Requests that share a unit

The key of a request holds all its names in one text, with commas between them. So two requests have
one key exactly if their layouts agree and their names come out as the same pieces once they are cut
at commas, and the unit that a request is given may have been built for another one of the same
pieces. Requests whose names hold no comma are told apart.
-/

namespace ComponentTags.Engine

namespace Request

def names (r : Request) : List Text :=
  r.name :: r.extras

/-- The names cut at commas. -/
def pieces (r : Request) : List Text :=
  r.names.flatMap (Text.split ',')

def CommaFree (r : Request) : Prop :=
  ∀ name ∈ r.names, ',' ∉ name

theorem split_key_name (r : Request) : Text.split ',' r.key.name = r.pieces :=
  Text.split_join ',' (by simp)

theorem pieces_of_commaFree {r : Request} (h : r.CommaFree) : r.pieces = r.names := by
  have hsplit : ∀ name ∈ r.names, Text.split ',' name = [name] :=
    fun name hname => Text.split_of_notMem (h name hname)
  rw [pieces, List.flatMap_congr hsplit, List.flatMap_singleton']

theorem key_eq_iff {r r' : Request} :
    r.key = r'.key ↔ r.layout = r'.layout ∧ r.pieces = r'.pieces := by
  constructor
  · intro h
    refine ⟨congrArg Cache.Key.layout h, ?_⟩
    rw [← split_key_name, ← split_key_name, h]
  · rintro ⟨hlayout, hpieces⟩
    have hname : r.key.name = r'.key.name := by
      rw [← Text.join_split ',' r.key.name, ← Text.join_split ',' r'.key.name, split_key_name,
        split_key_name, hpieces]
    exact Cache.Key.mk.injEq .. |>.mpr ⟨hlayout, hname⟩

theorem eq_of_key_eq {r r' : Request} (hr : r.CommaFree) (hr' : r'.CommaFree)
    (h : r.key = r'.key) : r = r' := by
  obtain ⟨hlayout, hpieces⟩ := key_eq_iff.1 h
  rw [pieces_of_commaFree hr, pieces_of_commaFree hr', names, names, List.cons.injEq] at hpieces
  obtain ⟨hname, hextras⟩ := hpieces
  exact Request.mk.injEq .. |>.mpr ⟨hlayout, hname, hextras⟩

end Request

/-- Requests have one key exactly if they agree in their layout and in the pieces of their names.
Whatever a fresh engine has been asked before, the unit it uses for a request was built for that
request or an earlier one of the same key, and for no other if there are no commas in names. -/
theorem key_eq_iff_and_origin [TemplateLanguage] {files : FileSystem} {root : Text}
    {options : Options} {e : Engine} (h : Fresh files root options e) :
    (∀ r r' : Request, r.key = r'.key ↔ r.layout = r'.layout ∧ r.pieces = r'.pieces) ∧
      ∀ history found r unit, ((e.after history).compiled found r).1 = .ok unit →
        ∃ foundThen made, (foundThen, made) ∈ (found, r) :: requests history ∧
          made.layout = r.layout ∧ made.pieces = r.pieces ∧
          (made.CommaFree → r.CommaFree → made = r) ∧
          ∃ debug, (e.setDebug debug).build foundThen made = .ok unit := by
  refine ⟨fun r r' => Request.key_eq_iff, ?_⟩
  intro history found r unit hunit
  obtain ⟨foundThen, made, hmade, hkey, hbuild⟩ :=
    exists_request_of_compiled h.lookup?_eq_none history found r hunit
  obtain ⟨hlayout, hpieces⟩ := Request.key_eq_iff.1 hkey
  refine ⟨foundThen, made, hmade, hlayout, hpieces, ?_, hbuild⟩
  intro hfree hfree'
  exact Request.eq_of_key_eq hfree hfree' hkey

/-! ## A name with a comma -/

/-- Templates called `a`, `b` and `a,b`. -/
def letterFiles : FileSystem where
  top := .folder
    [("a.tmpl".toList, .file (some ['A'])), ("b.tmpl".toList, .file (some ['B'])),
      ("a,b.tmpl".toList, .file (some ['C']))]

theorem leaves_letters :
    Block.leaves ['A'] = .ok [] ∧ Block.leaves ['B'] = .ok [] ∧ Block.leaves ['C'] = .ok [] :=
  ⟨Block.leaves_of_next?_none (by cbv), Block.leaves_of_next?_none (by cbv),
    Block.leaves_of_next?_none (by cbv)⟩

section Host

variable [TemplateLanguage]

def letterEngine : Engine where
  root := ['/']
  options := cardOptions
  components := { folder := "components".toList }
  isDebug := false

theorem fresh_letterEngine : Fresh letterFiles ['/'] cardOptions letterEngine :=
  ⟨letterEngine, [], by cbv, rfl⟩

/-- The first of two templates, compiled together with the second. -/
def pairRequest : Request where
  name := ['a']
  extras := [['b']]

/-- The template whose name is made of the names of the other two. -/
def commaRequest : Request where
  name := ['a', ',', 'b']

theorem document_pairRequest :
    (letterEngine.site letterFiles).assemble pairRequest.layout pairRequest.name
        pairRequest.extras =
      .ok ⟨['a'], [⟨['a'], some "/a.tmpl".toList, ['A'], .entry, none⟩,
        ⟨['b'], some "/b.tmpl".toList, ['B'], .extra, none⟩]⟩ := by
  cbv

theorem document_commaRequest :
    (letterEngine.site letterFiles).assemble commaRequest.layout commaRequest.name
        commaRequest.extras =
      .ok ⟨['a', ',', 'b'],
        [⟨['a', ',', 'b'], some "/a,b.tmpl".toList, ['C'], .entry, none⟩]⟩ := by
  cbv

/-- Requests are built if the files of their documents can be added. -/
theorem build_eq_ok_iff {r : Request} {document : Document} {unit : CompiledUnit}
    (hd : (letterEngine.site letterFiles).assemble r.layout r.name r.extras = .ok document) :
    letterEngine.build letterFiles r = .ok unit ↔
      CompiledUnit.addFiles { registry := some letterEngine.components }
        (TemplateLanguage.addFunction letterEngine.environment Call.functionName
          (Component.function "components".toList)) document.sources = .ok unit.environment ∧
      document.entry = unit.entry ∧ document.names = unit.names := by
  have hbuild : letterEngine.build letterFiles r =
      letterEngine.compile letterFiles document := by
    simp only [build, hd, bind, Except.bind]
  rw [hbuild, compile_of_not_debug rfl, CompiledUnit.compile_eq_ok_iff]
  simp [CompiledUnit.addComponents, letterEngine]

/-- A unit tells by the names of its files what it was built for. -/
theorem names_of_build {unit : CompiledUnit} :
    (letterEngine.build letterFiles pairRequest = .ok unit → unit.names = [['a'], ['b']]) ∧
      (letterEngine.build letterFiles commaRequest = .ok unit →
        unit.names = [['a', ',', 'b']]) := by
  constructor
  · intro h
    exact ((build_eq_ok_iff document_pairRequest).1 h).2.2.symm
  · intro h
    exact ((build_eq_ok_iff document_commaRequest).1 h).2.2.symm

def pairHistory : History :=
  [(letterFiles, .renderFiles [['a'], ['b']] (.map []))]

/-- The unit of the two templates is kept and handed out for the name with a comma. -/
theorem compiled_after_pairHistory {unit : CompiledUnit}
    (h : letterEngine.build letterFiles pairRequest = .ok unit) :
    ((letterEngine.after pairHistory).compiled letterFiles commaRequest).1 = .ok unit := by
  have hkept : (letterEngine.compiled letterFiles pairRequest).2.cache.lookup?
      commaRequest.key = some unit := by
    rw [lookup?_compiled, h]
    rfl
  have hdebug : (letterEngine.compiled letterFiles pairRequest).2.isDebug = false := by
    obtain ⟨cache, hcache, -⟩ := letterEngine.compiled_snd letterFiles pairRequest
    rw [hcache]
    rfl
  have hafter : letterEngine.after pairHistory =
      (letterEngine.compiled letterFiles pairRequest).2 := rfl
  rw [hafter, compiled_fst, hdebug, hkept]
  rfl

end Host

/-- A unit of the small language, of templates that hold no tags. -/
def plainUnit (entry : Text) (templates : List (Text × Text)) : CompiledUnit where
  environment :=
    { templates := templates.filterMap fun t => (Template.read? t.2).map (t.1, ·)
      functions := [(Call.functionName, Component.function "components".toList)] }
  entry := entry
  names := templates.map Prod.fst

def pairUnit : CompiledUnit :=
  plainUnit ['a'] [(['a'], ['A']), (['b'], ['B'])]

def commaUnit : CompiledUnit :=
  plainUnit ['a', ',', 'b'] [(['a', ',', 'b'], ['C'])]

theorem build_pairRequest : letterEngine.build letterFiles pairRequest = .ok pairUnit := by
  refine (build_eq_ok_iff document_pairRequest).2 ⟨?_, rfl, rfl⟩
  simp only [CompiledUnit.addFiles, Source.prepared]
  rw [Expander.expand_of_done _ leaves_letters.1, Expander.expand_of_done _ leaves_letters.2.1]
  cbv

theorem build_commaRequest : letterEngine.build letterFiles commaRequest = .ok commaUnit := by
  refine (build_eq_ok_iff document_commaRequest).2 ⟨?_, rfl, rfl⟩
  simp only [CompiledUnit.addFiles, Source.prepared]
  rw [Expander.expand_of_done _ leaves_letters.2.2]
  cbv

/-- What the engine answers to the name with a comma, at first and after the other request. -/
theorem perform_commaRequest :
    (letterEngine.perform letterFiles (.render none commaRequest.name (.map []))).1 =
        .text (.ok ['C']) ∧
      ((letterEngine.after pairHistory).perform letterFiles
        (.render none commaRequest.name (.map []))).1 = .text (.ok ['A']) := by
  have hname : (Text.trim commaRequest.name).isEmpty = false := by decide
  have hfirst : (letterEngine.compiled letterFiles commaRequest).1 = .ok commaUnit := by
    rw [compiled_fst, build_commaRequest]
    rfl
  have hsecond := compiled_after_pairHistory build_pairRequest
  constructor
  · exact congrArg Outcome.text (render_fst_of_compiled hname hfirst (by cbv))
  · exact congrArg Outcome.text (render_fst_of_compiled hname hsecond (by cbv))

/-- The two requests have one key. Whatever the language is, the unit that is built for the one is
handed out for the other, though it is made of other files. In the small language another text is
rendered. -/
theorem not_key_injective_commaRequest :
    (¬∀ r r' : Request, r.key = r'.key →
      r.layout = r'.layout ∧ r.name = r'.name ∧ r.extras = r'.extras) ∧
    (∀ [TemplateLanguage] (unit own : CompiledUnit),
      letterEngine.build letterFiles pairRequest = .ok unit →
      letterEngine.build letterFiles commaRequest = .ok own →
        ((letterEngine.after pairHistory).compiled letterFiles commaRequest).1 = .ok unit ∧
        unit.names = [['a'], ['b']] ∧ own.names = [['a', ',', 'b']]) ∧
    (letterEngine.perform letterFiles (.render none commaRequest.name (.map []))).1 ≠
      ((letterEngine.after pairHistory).perform letterFiles
        (.render none commaRequest.name (.map []))).1 := by
  refine ⟨?_, fun {_} unit own hunit hown => ?_, ?_⟩
  · intro h
    have hkey : commaRequest.key = pairRequest.key := by decide
    exact absurd (h _ _ hkey).2.2 (by decide)
  · exact ⟨compiled_after_pairHistory hunit, names_of_build.1 hunit, names_of_build.2 hown⟩
  · rw [perform_commaRequest.1, perform_commaRequest.2]
    simp

theorem key_eq_iff_and_origin_commaRequest :
    Fresh letterFiles ['/'] cardOptions letterEngine ∧
      ((letterEngine.after pairHistory).compiled letterFiles commaRequest).1 = .ok pairUnit ∧
      commaRequest.key = pairRequest.key ∧
      ∃ foundThen made,
        (foundThen, made) ∈ [(letterFiles, commaRequest), (letterFiles, pairRequest)] ∧
        made.pieces = [['a'], ['b']] ∧
        ∃ debug, (letterEngine.setDebug debug).build foundThen made = .ok pairUnit := by
  obtain ⟨hkey, horigin⟩ := key_eq_iff_and_origin fresh_letterEngine
  have hunit := compiled_after_pairHistory build_pairRequest
  refine ⟨fresh_letterEngine, hunit, (hkey _ _).2 (by decide), ?_⟩
  obtain ⟨foundThen, made, hmade, -, hpieces, -, hbuild⟩ :=
    horigin pairHistory letterFiles commaRequest pairUnit hunit
  exact ⟨foundThen, made, hmade, hpieces.trans (by decide), hbuild⟩

end ComponentTags.Engine
