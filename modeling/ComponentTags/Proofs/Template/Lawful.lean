import ComponentTags.CompiledUnit
import ComponentTags.Template.Language

/-!
# Templates that are added

A language that accepts a text adds it to every environment. The small language accepts the texts
that it can read, and its environments hold what was added to them.
-/

namespace ComponentTags

section Host

variable [TemplateLanguage]

/-- A template of the text can be added to every environment. -/
def TemplateLanguage.Accepts (text : Text) : Prop :=
  ∀ env name, ∃ env', addTemplate env name text = .ok env'

namespace CompiledUnit

theorem addTemplate_eq_ok_iff {env env' : TemplateLanguage.Environment} {name text : Text} :
    addTemplate env name text = .ok env' ↔
      TemplateLanguage.addTemplate env name text = .ok env' := by
  rw [addTemplate]
  cases TemplateLanguage.addTemplate env name text with
  | error fault => exact ⟨nofun, nofun⟩
  | ok added =>
    constructor
    · rintro ⟨⟩
      rfl
    · rintro ⟨⟩
      rfl

theorem exists_addTemplate {text : Text} (h : TemplateLanguage.Accepts text)
    (env : TemplateLanguage.Environment) (name : Text) :
    ∃ env', addTemplate env name text = .ok env' := by
  obtain ⟨env', henv⟩ := h env name
  exact ⟨env', addTemplate_eq_ok_iff.2 henv⟩

end CompiledUnit

end Host

namespace Template

theorem source_of_read? {text : Text} {template : Template} (h : read? text = some template) :
    template.source = text := by
  simp only [read?, bind, Option.bind_eq_some_iff, Option.ite_none_right_eq_some] at h
  obtain ⟨_, _, _, _, _, htemplate⟩ := h
  cases htemplate
  rfl

namespace Environment

theorem add_of_read? {text : Text} {template : Template} (h : read? text = some template)
    (env : Environment) (name : Text) :
    add env name text =
      .ok { env with templates := Keyed.insert name template env.templates } := by
  rw [add, h]

theorem read?_of_add {env env' : Environment} {name text : Text}
    (h : add env name text = .ok env') :
    ∃ template, read? text = some template ∧
      env' = { env with templates := Keyed.insert name template env.templates } := by
  unfold add at h
  split at h
  · cases h
  · next template hread => exact ⟨template, hread, (Except.ok.inj h).symm⟩

/-- The source that is held under a name is that of its template. -/
theorem source?_eq (env : Environment) (name : Text) :
    TemplateLanguage.source? env name = (env.template? name).map Template.source := by
  show ((env.load (run env maxEntered) name).toOption).map Loaded.source = _
  unfold load
  cases env.template? name <;> rfl

end Environment

instance : TemplateLanguage.Lawful where
  source?_addTemplate_self := by
    intro env env' name text h
    obtain ⟨template, hread, rfl⟩ := Environment.read?_of_add h
    rw [Environment.source?_eq, Environment.template?, Keyed.find?_insert, if_pos rfl,
      Option.map_some, source_of_read? hread]
  source?_addTemplate_of_ne := by
    intro env env' name text other h hne
    obtain ⟨template, hread, rfl⟩ := Environment.read?_of_add h
    rw [Environment.source?_eq, Environment.source?_eq, Environment.template?,
      Keyed.find?_insert, if_neg hne.symm, Environment.template?]
  source?_addFunction env name f other := by
    rw [Environment.source?_eq, Environment.source?_eq]
    rfl

theorem accepts_of_isSome_read? {text : Text} (h : (read? text).isSome) :
    TemplateLanguage.Accepts text := by
  obtain ⟨template, hread⟩ := Option.isSome_iff_exists.1 h
  exact fun env name => ⟨_, Environment.add_of_read? hread env name⟩

end Template

end ComponentTags
