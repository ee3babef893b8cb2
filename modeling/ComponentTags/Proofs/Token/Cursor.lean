import Mathlib.Data.List.Forall2
import ComponentTags.Proofs.Token.Cut
import ComponentTags.Token.Scanner

/-!
# The scanner as a cursor

A scanner stands at an index of the tokens of its source, behind the last of which empty ones follow
without end. It comes to an index by scanning, or goes back to it from the next one by pushing back,
and from both states it goes on in the same way. So in every run it does what the index alone would
do, and keeping a scanner is keeping its index.
-/

namespace ComponentTags

namespace Token

/-- The empty token at the end of a source. -/
def atEnd (source : Text) : Token where
  kind := .endOfSource
  text := []
  start := Text.byteSize source
  line := 1 + Text.lineBreaks source

/-- The token of a source at an index. Behind the last one it is the end, again and again. -/
def nth (source : Text) (i : Nat) : Token :=
  (list source)[i]?.getD (atEnd source)

/-- The text from the token at an index on. -/
def textFrom (source : Text) (i : Nat) : Text :=
  textOf ((list source).drop i)

/-- The place at which the token at an index begins. -/
def placeOf (source : Text) (i : Nat) : Place :=
  Place.first.past (textOf ((list source).take i))

variable (source : Text) (i : Nat)

theorem textOf_take_append_textFrom :
    textOf ((list source).take i) ++ textFrom source i = source := by
  rw [textFrom, ← textOf_append, List.take_append_drop]
  exact textOf_listFrom 0 1 source

theorem listAt_textFrom :
    listAt (placeOf source i) (textFrom source i) = (list source).drop i := by
  have hsplit : listFrom 0 1 source = (list source).take i ++ (list source).drop i :=
    (List.take_append_drop i _).symm
  obtain ⟨rest, hsource, hrest⟩ := listFrom_eq_append hsplit
  have htext : textFrom source i = rest := by
    rw [textFrom, hrest, textOf_listFrom]
  rw [htext, hrest]
  rfl

theorem placeOf_of_length_le (h : (list source).length ≤ i) :
    textFrom source i = [] ∧
      placeOf source i = ⟨Text.byteSize source, 1 + Text.lineBreaks source⟩ := by
  have htext : textOf (list source) = source := textOf_listFrom 0 1 source
  constructor
  · rw [textFrom, List.drop_eq_nil_of_le h, textOf_nil]
  · rw [placeOf, List.take_of_length_le h, htext]
    simp [Place.past, Place.first]

theorem nth_of_nil (h : textFrom source i = []) :
    nth source i = ⟨.endOfSource, [], (placeOf source i).offset, (placeOf source i).line⟩ := by
  have hlist := listAt_textFrom source i
  rw [h, listAt, listFrom, eq_comm, List.drop_eq_nil_iff] at hlist
  rw [nth, List.getElem?_eq_none hlist, (placeOf_of_length_le source i hlist).2]
  rfl

theorem nth_of_cons {c : Char} {rest : Text} (h : textFrom source i = c :: rest) :
    nth source i = first (placeOf source i).offset (placeOf source i).line c rest := by
  have hlist := listAt_textFrom source i
  rw [h, listAt, listFrom] at hlist
  rw [nth, ← List.head?_drop, ← hlist]
  rfl

/-- A token begins at its place. -/
theorem place_nth :
    (nth source i).start = (placeOf source i).offset ∧
      (nth source i).line = (placeOf source i).line := by
  cases h : textFrom source i with
  | nil => rw [nth_of_nil source i h]; exact ⟨rfl, rfl⟩
  | cons c rest => rw [nth_of_cons source i h]; exact ⟨rfl, rfl⟩

theorem text_nth_append_textFrom :
    (nth source i).text ++ textFrom source (i + 1) = textFrom source i := by
  rcases Nat.lt_or_ge i (list source).length with h | h
  · rw [nth, List.getElem?_eq_getElem h, Option.getD_some, textFrom, textFrom,
      List.drop_eq_getElem_cons h, textOf_cons]
  · rw [(placeOf_of_length_le source i h).1, (placeOf_of_length_le source (i + 1) (by omega)).1,
      nth, List.getElem?_eq_none h]
    rfl

theorem placeOf_succ : placeOf source (i + 1) = (placeOf source i).past (nth source i).text := by
  have hsplit : textOf ((list source).take (i + 1)) =
      textOf ((list source).take i) ++ (nth source i).text := by
    refine (List.append_left_inj (textFrom source (i + 1))).1 ?_
    rw [textOf_take_append_textFrom, List.append_assoc, text_nth_append_textFrom,
      textOf_take_append_textFrom]
  rw [placeOf, hsplit, Place.past_append]
  rfl

/-- The line of a place is counted up to its offset. -/
theorem line_placeOf :
    (placeOf source i).line =
      1 + Text.lineBreaks (Text.takeBytes (placeOf source i).offset source) := by
  have htake := Text.takeBytes_append (textOf ((list source).take i)) (textFrom source i)
  rw [textOf_take_append_textFrom] at htake
  simp [placeOf, Place.first, htake]

end Token

namespace Scanner

open Token (nth placeOf textFrom)

/-! ## Scanners at an index -/

/-- The scanner as it comes to an index by scanning. -/
def standing (source : Text) (i : Nat) : Scanner where
  ahead := textFrom source i
  position := (placeOf source i).offset
  offset := (placeOf source i).offset
  line := (placeOf source i).line
  pushedBack := none

/-- The scanner is at the index: it has come there, or has gone back from the next one. -/
inductive StandsAt (source : Text) (i : Nat) : Scanner → Prop where
  | come : StandsAt source i (standing source i)
  | back : StandsAt source i ((standing source (i + 1)).unread (nth source i))

variable {source : Text} {i : Nat} {s : Scanner}

theorem ofSource_eq (source : Text) : ofSource source = standing source 0 := by
  have htext : textFrom source 0 = source := Token.textOf_listFrom 0 1 source
  rw [standing, htext]
  rfl

theorem passed_nth (s : Scanner) :
    s.passed (nth source i) =
      { standing source (i + 1) with ahead := s.ahead, position := s.position } := by
  simp only [passed, standing, Token.placeOf_succ, Token.stop, Token.newlines, Token.place_nth]
  rfl

theorem scan_standing (source : Text) (i : Nat) :
    (standing source i).scan = (nth source i, standing source (i + 1)) := by
  have hrest := Token.text_nth_append_textFrom source i
  have hplace := Token.placeOf_succ source i
  cases htext : textFrom source i with
  | nil =>
    have hnth := Token.nth_of_nil source i htext
    rw [hnth, htext] at hrest
    rw [hnth] at hplace
    have hscan : (standing source i).scan =
        (nth source i, (standing source i).passed (nth source i)) := by
      simp only [scan, standing, htext, hnth]
    rw [hscan, passed_nth]
    simp [standing, htext, hplace, show textFrom source (i + 1) = [] from hrest]
  | cons c rest =>
    have hnth := Token.nth_of_cons source i htext
    have hahead : Token.afterFirst c rest = textFrom source (i + 1) := by
      rw [htext, hnth, ← Token.text_first_append] at hrest
      exact (List.append_cancel_left hrest).symm
    have hscan : (standing source i).scan =
        (nth source i, { (standing source i).passed (nth source i) with
          ahead := Token.afterFirst c rest, position := (nth source i).stop }) := by
      simp only [scan, standing, htext, hnth]
    rw [hscan, passed_nth]
    simp [standing, hahead, hplace, Token.stop, Token.place_nth]

/-- From both states at an index the scanner goes on in the same way. -/
theorem StandsAt.scan_eq (h : s.StandsAt source i) :
    s.scan = (nth source i, standing source (i + 1)) := by
  cases h with
  | come => exact scan_standing source i
  | back => exact Prod.ext rfl (passed_nth _)

theorem StandsAt.peek_eq (h : s.StandsAt source i) :
    s.peek = (nth source i, (standing source (i + 1)).unread (nth source i)) := by
  simp only [peek, h.scan_eq]

theorem StandsAt.place_eq (h : s.StandsAt source i) :
    s.offset = (nth source i).start ∧
      s.line = 1 + Text.lineBreaks (Text.takeBytes s.offset source) := by
  have hoffset : s.offset = (placeOf source i).offset := by
    cases h with
    | come => rfl
    | back => exact (Token.place_nth source i).1
  have hline : s.line = (placeOf source i).line := by
    cases h with
    | come => rfl
    | back => exact (Token.place_nth source i).2
  rw [hline, hoffset, (Token.place_nth source i).1]
  exact ⟨rfl, Token.line_placeOf source i⟩

/-! ## Runs -/

/-- What a scanner can be asked. -/
inductive Action where
  | scan
  | peek
  | unread (token : Token)
  | checkpoint
  /-- Goes back, or forward, to the checkpoint of the given number. -/
  | rewind (slot : Nat)
deriving DecidableEq

/-- A scanner in use. -/
structure Session where
  scanner : Scanner
  /-- The scanners that were kept, in order. -/
  checkpoints : List Scanner := []
  /-- The token that was scanned last, unless the scanner has moved since. -/
  scanned : Option Token := none

/-- The answer to an action and the session after it. -/
def Session.perform (s : Session) : Action → Option Token × Session
  | .scan =>
    let (token, scanner) := s.scanner.scan
    (some token, { s with scanner, scanned := some token })
  | .peek =>
    let (token, scanner) := s.scanner.peek
    (some token, { s with scanner, scanned := none })
  | .unread token => (none, { s with scanner := s.scanner.unread token, scanned := none })
  | .checkpoint => (none, { s with checkpoints := s.checkpoints ++ [s.scanner] })
  | .rewind slot =>
    (none, { s with scanner := s.checkpoints[slot]?.getD s.scanner, scanned := none })

/-- Only the token that has just been scanned can be pushed back, and only what was kept can be
gone back to. -/
def Session.Permits (s : Session) : Action → Prop
  | .unread token => s.scanned = some token
  | .rewind slot => slot < s.checkpoints.length
  | _ => True

instance (s : Session) (a : Action) : Decidable (s.Permits a) :=
  match a with
  | .unread token => inferInstanceAs (Decidable (s.scanned = some token))
  | .rewind slot => inferInstanceAs (Decidable (slot < s.checkpoints.length))
  | .scan | .peek | .checkpoint => .isTrue trivial

/-- An index into the tokens of a source, and indices that were kept. -/
structure Cursor where
  index : Nat := 0
  checkpoints : List Nat := []

def Cursor.perform (source : Text) (c : Cursor) : Action → Option Token × Cursor
  | .scan => (some (nth source c.index), { c with index := c.index + 1 })
  | .peek => (some (nth source c.index), c)
  | .unread _ => (none, { c with index := c.index - 1 })
  | .checkpoint => (none, { c with checkpoints := c.checkpoints ++ [c.index] })
  | .rewind slot => (none, { c with index := c.checkpoints[slot]?.getD c.index })

/-- The session does what the cursor does. -/
structure Session.Follows (source : Text) (s : Session) (c : Cursor) : Prop where
  standsAt : s.scanner.StandsAt source c.index
  checkpoints : List.Forall₂ (StandsAt source) c.checkpoints s.checkpoints
  scanned : ∀ token ∈ s.scanned, ∃ i, c.index = i + 1 ∧ token = nth source i ∧
    s.scanner = standing source (i + 1)

theorem Session.follows_start (source : Text) : Follows source ⟨ofSource source, [], none⟩ {} where
  standsAt := ofSource_eq source ▸ .come
  checkpoints := .nil
  scanned := by simp

/-- A permitted action is answered alike, and the session goes on doing what the cursor does. -/
theorem Session.Follows.perform {t : Session} {c : Cursor} (h : t.Follows source c) {a : Action}
    (hpermits : t.Permits a) :
    (t.perform a).1 = (c.perform source a).1 ∧
      (t.perform a).2.Follows source (c.perform source a).2 := by
  cases a with
  | scan =>
    simp only [Session.perform, Cursor.perform, h.standsAt.scan_eq]
    refine ⟨trivial, .come, h.checkpoints, fun token htoken => ?_⟩
    cases htoken
    exact ⟨c.index, rfl, rfl, rfl⟩
  | peek =>
    simp only [Session.perform, Cursor.perform, h.standsAt.peek_eq]
    exact ⟨trivial, .back, h.checkpoints, by simp⟩
  | unread token =>
    obtain ⟨i, hindex, rfl, hscanner⟩ := h.scanned token hpermits
    refine ⟨rfl, ?_, h.checkpoints, by simp [Session.perform]⟩
    simp only [Session.perform, Cursor.perform, hindex, hscanner, Nat.add_sub_cancel]
    exact .back
  | checkpoint =>
    exact ⟨rfl, h.standsAt, List.rel_append h.checkpoints (.cons h.standsAt .nil), h.scanned⟩
  | rewind slot =>
    have hslot : slot < t.checkpoints.length := hpermits
    have hslot' : slot < c.checkpoints.length := h.checkpoints.length_eq ▸ hslot
    refine ⟨rfl, ?_, h.checkpoints, by simp [Session.perform]⟩
    simp only [Session.perform, Cursor.perform, List.getElem?_eq_getElem hslot,
      List.getElem?_eq_getElem hslot', Option.getD_some]
    exact h.checkpoints.get hslot' hslot

/-- Performs actions one after another: the answers, and the state in the end. -/
def run {σ : Type} (perform : σ → Action → Option Token × σ) (s : σ) :
    List Action → List (Option Token) × σ
  | [] => ([], s)
  | a :: rest => ((perform s a).1 :: (run perform (perform s a).2 rest).1,
      (run perform (perform s a).2 rest).2)

/-- Every action is permitted at its turn. -/
def Session.Permitted (s : Session) : List Action → Prop
  | [] => True
  | a :: rest => s.Permits a ∧ (s.perform a).2.Permitted rest

instance Session.decidablePermitted (s : Session) (actions : List Action) :
    Decidable (s.Permitted actions) :=
  match actions with
  | [] => .isTrue trivial
  | a :: rest =>
    have := (s.perform a).2.decidablePermitted rest
    inferInstanceAs (Decidable (s.Permits a ∧ (s.perform a).2.Permitted rest))

theorem Session.Follows.run {t : Session} {c : Cursor} (h : t.Follows source c)
    {actions : List Action} (hpermitted : t.Permitted actions) :
    (Scanner.run Session.perform t actions).1 =
        (Scanner.run (Cursor.perform source) c actions).1 ∧
      (Scanner.run Session.perform t actions).2.Follows source
        (Scanner.run (Cursor.perform source) c actions).2 := by
  induction actions generalizing t c with
  | nil => exact ⟨rfl, h⟩
  | cons a rest ih =>
    obtain ⟨hpermits, hrest⟩ := hpermitted
    obtain ⟨hanswer, hnext⟩ := h.perform hpermits
    obtain ⟨hanswers, hend⟩ := ih hnext hrest
    exact ⟨congrArg₂ List.cons hanswer hanswers, hend⟩

/-- In every run in which only the token that was just scanned is pushed back, a scanner answers
like an index into the tokens of its source, and it is where the token at the index begins. -/
theorem run_eq_cursor {source : Text} {actions : List Action}
    (h : Session.Permitted ⟨ofSource source, [], none⟩ actions) :
    ∃ answers session cursor,
      run Session.perform ⟨ofSource source, [], none⟩ actions = (answers, session) ∧
      run (Cursor.perform source) {} actions = (answers, cursor) ∧
      session.scanner.offset = (nth source cursor.index).start ∧
      session.scanner.line =
        1 + Text.lineBreaks (Text.takeBytes session.scanner.offset source) := by
  obtain ⟨hanswers, hfollows⟩ := (Session.follows_start source).run h
  exact ⟨_, _, _, rfl, Prod.ext hanswers.symm rfl, hfollows.standsAt.place_eq⟩

def brokenTagSource : Text := "<A>\nb".toList

/-- Looks ahead, keeps the scanner while a token is pushed back, pushes back in the middle and at
the end, and goes back and forth between what was kept. -/
def turningActions : List Action :=
  [.scan, .peek, .checkpoint, .scan, .scan, .unread ⟨.rightAngle, ['>'], 2, 1⟩, .scan, .scan, .scan,
    .peek, .scan, .unread ⟨.endOfSource, [], 5, 2⟩, .scan, .checkpoint, .rewind 0, .scan, .rewind 1]

theorem run_eq_cursor_turningActions :
    Session.Permitted ⟨ofSource brokenTagSource, [], none⟩ turningActions ∧
      ∃ answers session cursor,
        run Session.perform ⟨ofSource brokenTagSource, [], none⟩ turningActions =
          (answers, session) ∧
        run (Cursor.perform brokenTagSource) {} turningActions = (answers, cursor) ∧
        session.scanner.offset = (nth brokenTagSource cursor.index).start ∧
        session.scanner.line =
          1 + Text.lineBreaks (Text.takeBytes session.scanner.offset brokenTagSource) :=
  ⟨by decide, run_eq_cursor (by decide)⟩

end Scanner

end ComponentTags
