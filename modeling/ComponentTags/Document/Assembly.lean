import ComponentTags.Document.Site

/-!
# Assembling documents

The templates of a document in order: its layouts from the outermost on, the entry, the other files
of the entry's folder, extra files, everything these refer to, shared fragments, and everything
those refer to. Two names that agree in lower case are one template, and the first one stays.

Layouts and references are followed from file to file. Each step meets a name that some text
mentions and that has not been met before, so both walks end.
-/

namespace ComponentTags

/-- A count goes down if one item stops being counted and none starts. -/
private theorem countP_lt_of_imp {α : Type} {p q : α → Bool} {a : α} {l : List α} (ha : a ∈ l)
    (hq : q a = true) (hp : p a = false) (himp : ∀ b ∈ l, p b = true → q b = true) :
    l.countP p < l.countP q := by
  induction l with
  | nil => simp at ha
  | cons b l ih =>
    have hle : l.countP p ≤ l.countP q :=
      List.countP_mono_left fun c hc => himp c (List.mem_cons_of_mem _ hc)
    rcases List.mem_cons.1 ha with rfl | ha
    · simp [hq, hp]
      omega
    · have := ih ha fun c hc => himp c (List.mem_cons_of_mem _ hc)
      have := himp b (List.mem_cons_self ..)
      simp only [List.countP_cons]
      split <;> split <;> grind

/-- Whether a name is among those of the sources, in any case. -/
def Source.isAmong (found : List Source) (name : Text) : Bool :=
  found.any fun s => Text.lower s.name == Text.lower name

/-- Adds sources, each unless its name is there. -/
def Source.collect (found : List Source) : List Source → List Source
  | [] => found
  | s :: rest => collect (if isAmong found s.name then found else found ++ [s]) rest

namespace Site

/-- The texts that templates can come from: those of all files, and `start`. -/
def texts (site : Site) (start : List Text) : List Text :=
  start ++ site.files.top.texts

theorem mem_texts_of_read {site : Site} {start : List Text} {kind : Source.Kind}
    {name path : Text} {source : Source} (h : site.read kind name path = .ok source) :
    source.text ∈ site.texts start :=
  List.mem_append_right _ (read_eq_ok h).1

/-! ## Layouts -/

/-- The names of all layouts that some file declares, and `first`. -/
def layoutNames (site : Site) (first : Text) : List Text :=
  first :: (site.texts []).filterMap fun text =>
    (Directive.find? text).map fun d => site.normalize d.layout

def isVisited (visited : List Text) (layout : Text) : Bool :=
  visited.any (Text.eqIgnoringCase layout)

theorem countP_isVisited_lt {names visited : List Text} {layout : Text} (h : layout ∈ names)
    (hv : ¬isVisited visited layout) :
    names.countP (!isVisited (visited ++ [layout]) ·) < names.countP (!isVisited visited ·) := by
  refine countP_lt_of_imp h (by simp [hv]) ?_ fun b _ => ?_
  · simp [isVisited, Text.eqIgnoringCase]
  · simp only [isVisited, List.any_append, Bool.not_or, Bool.and_eq_true]
    exact And.left

/-- The layouts from the outermost on down to `layout`, which `declaredBy` extends. A layout that
was visited before closes a cycle. -/
def layoutsFrom (site : Site) (first : Text) (visited : List Text) (declaredBy layout : Text)
    (hlayout : layout ∈ site.layoutNames first) : Except Error (List Source) :=
  if hv : isVisited visited layout then
    .error (.layoutCycle (Text.join " -> ".toList (visited ++ [layout])))
  else if site.files.isFile (site.pathOf layout) then
    match hr : site.read .layout layout (site.pathOf layout) with
    | .error e => .error e
    | .ok source =>
      match hd : source.directive with
      | none => .ok [source]
      | some d =>
        have hmem : site.normalize d.layout ∈ site.layoutNames first :=
          List.mem_cons_of_mem _ (List.mem_filterMap.2
            ⟨source.text, mem_texts_of_read hr, by rw [← Source.directive, hd]; rfl⟩)
        have hlt := countP_isVisited_lt hlayout hv
        match layoutsFrom site first (visited ++ [layout]) layout (site.normalize d.layout)
            hmem with
        | .error e => .error e
        | .ok outer => .ok (outer ++ [source])
  else .error (.layoutNotFound layout declaredBy)
termination_by (site.layoutNames first).countP (!isVisited visited ·)

/-- The layouts of an entry. An explicit layout takes the place of the declared one. -/
def layouts (site : Site) (entry : Source) (explicit : Option Text) : Except Error (List Source) :=
  match explicit.or (entry.directive.map Directive.layout) with
  | none => .ok []
  | some name =>
    let layout := site.normalize name
    site.layoutsFrom layout [entry.name] entry.name layout (List.mem_cons_self ..)

/-! ## References -/

/-- The names of all templates that some text mentions. -/
def mentionedNames (site : Site) (start : List Text) : List Text :=
  (site.texts start).flatMap fun text => (Source.mentions text).map site.normalize

/-- The file that a name refers to, if there is one that is not excluded. -/
def referenced? (site : Site) (name : Text) : Option (Except Error Source) :=
  let path := site.pathOf name
  if site.files.isFile path && !site.excludes path then some (site.read .referenced name path)
  else none

theorem referenced?_eq_ok {site : Site} {name : Text} {source : Source}
    (h : site.referenced? name = some (.ok source)) :
    source.text ∈ site.files.top.texts ∧ source.name = name := by
  unfold referenced? at h
  dsimp only at h
  split at h
  · exact read_eq_ok (Option.some.inj h)
  · cases h

/-- Adds the sources that `names` refer to, that the sources of `queue` mention, and that those
mention which are added. -/
def discoverFrom (site : Site) (start : List Text) (found : List Source) (names : List Text)
    (queue : List Source) (hn : ∀ n ∈ names, n ∈ site.mentionedNames start)
    (hq : ∀ s ∈ queue, s.text ∈ site.texts start) : Except Error (List Source) :=
  match names, queue with
  | [], [] => .ok found
  | [], s :: queue =>
    discoverFrom site start found ((Source.mentions s.text).map site.normalize) queue
      (fun _ h => List.mem_flatMap.2 ⟨s.text, hq s (List.mem_cons_self ..), h⟩)
      fun t h => hq t (List.mem_cons_of_mem _ h)
  | name :: names, queue =>
    have hn' := fun n h => hn n (List.mem_cons_of_mem _ h)
    if hf : Source.isAmong found name then discoverFrom site start found names queue hn' hq
    else
      match hr : site.referenced? name with
      | none => discoverFrom site start found names queue hn' hq
      | some (.error e) => .error e
      | some (.ok source) =>
        discoverFrom site start (found ++ [source]) names (queue ++ [source]) hn' fun s h => by
          rcases List.mem_append.1 h with h | h
          · exact hq s h
          · rw [List.mem_singleton.1 h]
            exact List.mem_append_right _ (referenced?_eq_ok hr).1
termination_by
  ((site.mentionedNames start).countP (!Source.isAmong found ·), queue.length, names.length)
decreasing_by
  · exact Prod.Lex.right _ (Prod.Lex.left _ _ (Nat.lt_succ_self _))
  · exact Prod.Lex.right _ (Prod.Lex.right _ (Nat.lt_succ_self _))
  · exact Prod.Lex.right _ (Prod.Lex.right _ (Nat.lt_succ_self _))
  · refine Prod.Lex.left _ _
      (countP_lt_of_imp (hn name (List.mem_cons_self ..)) (by simp [hf]) ?_ ?_)
    · simp [Source.isAmong, (referenced?_eq_ok hr).2]
    · intro b _
      simp only [Source.isAmong, List.any_append, Bool.not_or, Bool.and_eq_true]
      exact And.left

/-- Adds everything that the sources of `queue` refer to, directly or through others. -/
def discover (site : Site) (found queue : List Source) : Except Error (List Source) :=
  site.discoverFrom (queue.map Source.text) found [] queue (by simp) fun s h =>
    List.mem_append_left _ (List.mem_map.2 ⟨s, h, rfl⟩)

/-! ## Documents -/

/-- The other template files of a folder, in the order of their paths. -/
def siblings (site : Site) (entry folder : Text) (recursive : Bool) :
    Except Error (List Source) :=
  (site.templateFiles folder recursive).filterMap named |>.mapM fun (name, path) =>
    site.read .sibling name path
where
  named (path : Text) : Option (Text × Text) := do
    let name ← TemplateName.ofPath? site.root site.options.extension path
    if Text.eqIgnoringCase name entry then none else some (name, path)

/-- What stands before the last slash of a name. -/
def folderOf? (name : Text) : Option Text :=
  match name.reverse.dropWhile (· ≠ '/') with
  | [] => none
  | _ :: folder => some folder.reverse

/-- What stands after the last slash of a name. -/
def baseOf (name : Text) : Text :=
  (name.reverse.takeWhile (· ≠ '/')).reverse

/-- The entry of a request and the other files of its folder. A name of a folder means the file in
it that is named like the folder. -/
def primary (site : Site) (request : Text) : Except Error (Source × List Source) := do
  let name := site.normalize request
  let path := site.pathOf name
  if site.files.isFile path then
    let entry ← site.read .entry name path
    match folderOf? name with
    | none => return (entry, [])
    | some folder => return (entry, ← site.siblings name (Path.join site.root folder) false)
  let folder := Path.join site.root name
  if !name.isEmpty && site.files.isFolder folder then
    let index := name ++ '/' :: baseOf name
    let path := site.pathOf index
    if site.files.isFile path then
      let entry ← site.read .entry index path
      return (entry, ← site.siblings index folder true)
    throw (.templateNotFound index path)
  throw (.templateNotFound name path)

/-- A file that is asked for besides the entry. It has to exist. -/
def extra (site : Site) (request : Text) : Except Error Source :=
  let name := site.normalize request
  let path := site.pathOf name
  if site.files.isFile path then site.read .extra name path
  else .error (.templateNotFound name path)

/-- Adds the shared fragments at the given paths. A fragment whose name is there is not read. -/
def addShared (site : Site) (folder : Text) (found : List Source) :
    List Text → Except Error (List Source)
  | [] => .ok found
  | path :: rest =>
    match TemplateName.ofPath? folder site.options.extension path with
    | none => addShared site folder found rest
    | some name =>
      if Source.isAmong found name then addShared site folder found rest
      else do
        let source ← site.read .shared name path
        addShared site folder (found ++ [source]) rest

/-- The entry with an explicit layout, which a statement of the entry's own overrules. -/
def withLayout (site : Site) (layout : Option Text) (entry : Source) : Source :=
  match layout, entry.directive with
  | none, _ => entry
  | some _, some (.statement _) => entry
  | some layout, _ => { entry with injected := some (site.normalize layout) }

def assembleFrom (site : Site) (layout : Option Text) (entry : Source) (siblings : List Source)
    (extras : List Text) : Except Error Document := do
  let layouts ← site.layouts entry layout
  let found := Source.collect [] (layouts ++ site.withLayout layout entry :: siblings)
  let found := Source.collect found (← extras.mapM site.extra)
  let found ← site.discover found found
  let folder := Path.join site.root site.options.sharedFolder
  let withShared ← site.addShared folder found (site.templateFiles folder true)
  let sources ← site.discover withShared (withShared.drop found.length)
  return { entry := entry.name, sources }

/-- The document of a request. -/
def assemble (site : Site) (layout : Option Text) (request : Text) (extras : List Text) :
    Except Error Document := do
  let (entry, siblings) ← site.primary request
  site.assembleFrom layout entry siblings extras

/-- The document of an entry that is given as text. -/
def assembleInline (site : Site) (layout : Option Text) (text : Text) : Except Error Document :=
  site.assembleFrom layout (.inline text) [] []

end Site

end ComponentTags
