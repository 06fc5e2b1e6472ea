import DocModel.Proofs.Clean.Steady
import DocModel.Proofs.Lists
import DocModel.Proofs.Property
import DocModel.Proofs.Validator.Anywhere
import DocModel.Validator.Validate

namespace DocModel

/-- A document passes the check and is cleaned, and the outcome is the given one. -/
def Validator.Returns (oracle : Option Oracle) (validator : Validator) (document out : Json) :
    Prop :=
  (validator.validate oracle document).result = .ok out

/-- What becomes of the value of a field when its documents become what `R` says, and when entries
of unknown ids are then dropped. -/
inductive Embedding.Returns (oracle : Option Oracle) (R : Json → Json → Prop) :
    Embedding → Json → Json → Prop
  | one {members : Json.Members} {out : Json} (returns : R (.obj members) out) :
    Returns oracle R .one (.obj members) out
  | single {members : Json.Members} {out : Json} (returns : R (.obj members) out) :
    Returns oracle R .many (.obj members) out
  | list {items outs : List Json} (returns : List.Forall₂ R items outs) :
    Returns oracle R .many (.arr items) (.arr outs)
  | map {entries outs : Json.Members}
    (returns : List.Forall₂ (fun entry out => entry.1 = out.1 ∧ R entry.2 out.2) entries outs) :
    Returns oracle R (.keyed none) (.obj entries) (.obj outs)
  | ids {model : String} {entries outs : Json.Members}
    (returns : List.Forall₂ (fun entry out => entry.1 = out.1 ∧ R entry.2 out.2) entries outs)
    (answered : DocModel.Answered oracle model outs.keys) :
    Returns oracle R (.keyed (some model)) (.obj entries)
      (.obj (outs.filter fun out => isKnown oracle model outs.keys out.1))

/-- What becomes of the value of a field: the documents in it are validated on their own. -/
inductive FieldRule.Returns (oracle : Option Oracle) : FieldRule → Json → Json → Prop
  | null {rule : FieldRule} (optional : rule.head.required = false) :
    Returns oracle rule .null .null
  | value {head : FieldHead} {checks : List Check} {value out : Json}
    (passed : Check.applyAll checks value = .ok out) :
    Returns oracle (.value head checks) value out
  | embedded {head : FieldHead} {embedding : Embedding} {nested : Validator} {value out : Json}
    (returns : embedding.Returns oracle (nested.Returns oracle) value out) :
    Returns oracle (.embedded head embedding nested) value out

/-- The check passes, and cleaning what it leaves gives the outcome. -/
def Leads {α β : Type} (check : Checked α) (clean : α → Cleaning β) (out : β) : Prop :=
  ∃ checked, check = .ok checked ∧ (clean checked).Gives out

variable {oracle : Option Oracle}

theorem Validator.returns_iff {validator : Validator} {document out : Json} :
    validator.Returns oracle document out ↔
      Leads (validator.check [] document) (validator.clean oracle []) out := by
  rw [Validator.Returns, Validator.validate, Leads]
  cases validator.check [] document with
  | error violations => simp [Validator.reject]
  | ok checked =>
    have steady : (validator.clean oracle [] checked).Agrees (validator.clean oracle [] checked) :=
      Validator.clean_agrees validator checked [] []
    dsimp only
    cases run : (validator.clean oracle [] checked).run {} with
    | error violation sweep =>
      have refused : ¬ (validator.clean oracle [] checked).Gives out := by
        intro gives
        obtain ⟨after, run'⟩ := gives {}
        rw [run] at run'
        cases run'
      simp [Validator.reject, refused]
    | ok cleaned sweep =>
      have gives : (validator.clean oracle [] checked).Gives out ↔ cleaned = out := by
        constructor
        · intro gives
          obtain ⟨after, run'⟩ := gives {}
          rw [run] at run'
          cases run'
          rfl
        · intro same
          subst same
          exact steady.gives run
      simp [gives]

theorem Validator.leads_iff {validator : Validator} {location : Location} {document out : Json} :
    Leads (validator.check location document) (validator.clean oracle location) out ↔
      validator.Returns oracle document out := by
  rw [Validator.returns_iff]
  have same : ∀ checked, (validator.clean oracle location checked).Gives out ↔
      (validator.clean oracle [] checked).Gives out := fun checked =>
    (validator.clean_agrees checked _ _).gives_iff (validator.clean_agrees checked _ _)
  constructor
  · intro leads
    obtain ⟨checked, passed, gives⟩ := leads
    exact ⟨checked, Validator.check_anywhere passed [], (same checked).1 gives⟩
  · intro leads
    obtain ⟨checked, passed, gives⟩ := leads
    exact ⟨checked, Validator.check_anywhere passed location, (same checked).2 gives⟩

namespace Embedding

variable {check : Location → Json → Checked Json} {clean : Location → Json → Cleaning Json}
  {R : Json → Json → Prop} {location : Location}
  (agrees : ∀ value location other, (clean location value).Agrees (clean other value))
  (sound : ∀ location value out, Leads (check location value) (clean location) out ↔ R value out)

include agrees sound

theorem leads_items_iff (location : Location) (index : Nat) {items outs : List Json} :
    Leads (checkItems check location index items) (cleanItems clean location index) outs ↔
      List.Forall₂ R items outs := by
  induction items generalizing index outs with
  | nil =>
    simp only [Leads, checkItems, Except.ok.injEq, exists_eq_left', cleanItems,
      Cleaning.gives_pure_iff, List.forall₂_nil_left_iff]
  | cons item items ih =>
    rw [List.forall₂_cons_left_iff]
    constructor
    · intro leads
      obtain ⟨_, passed, cleaned⟩ := leads
      obtain ⟨checked, rest, first, others, rfl⟩ := checkItems_cons_eq_ok.1 passed
      obtain ⟨out, cleaned', outs, others', rfl⟩ := (gives_items_cons_iff agrees).1 cleaned
      exact ⟨out, outs, (sound _ _ _).1 ⟨checked, first, cleaned'⟩,
        (ih _).1 ⟨rest, others, others'⟩, rfl⟩
    · intro related
      obtain ⟨out, outs, first, others, rfl⟩ := related
      obtain ⟨checked, passed, cleaned⟩ := (sound (location ++ [.index index]) _ _).2 first
      obtain ⟨rest, passed', cleaned'⟩ := (ih (index + 1)).2 others
      exact ⟨checked :: rest, checkItems_cons_eq_ok.2 ⟨checked, rest, passed, passed', rfl⟩,
        (gives_items_cons_iff agrees).2 ⟨out, cleaned, outs, cleaned', rfl⟩⟩

theorem leads_entries_iff (location : Location) {entries outs : Json.Members} :
    Leads (checkEntries check location entries) (cleanEntries clean location) outs ↔
      List.Forall₂ (fun entry out => entry.1 = out.1 ∧ R entry.2 out.2) entries outs := by
  induction entries generalizing outs with
  | nil =>
    simp only [Leads, checkEntries, Except.ok.injEq, exists_eq_left', cleanEntries,
      Cleaning.gives_pure_iff, List.forall₂_nil_left_iff]
  | cons entry entries ih =>
    obtain ⟨key, value⟩ := entry
    rw [List.forall₂_cons_left_iff]
    constructor
    · intro leads
      obtain ⟨_, passed, cleaned⟩ := leads
      obtain ⟨checked, rest, first, others, rfl⟩ := checkEntries_cons_eq_ok.1 passed
      obtain ⟨out, cleaned', outs, others', rfl⟩ := (gives_entries_cons_iff agrees).1 cleaned
      exact ⟨(key, out), outs, ⟨rfl, (sound _ _ _).1 ⟨checked, first, cleaned'⟩⟩,
        ih.1 ⟨rest, others, others'⟩, rfl⟩
    · intro related
      obtain ⟨⟨_, out⟩, outs, ⟨rfl, first⟩, others, rfl⟩ := related
      obtain ⟨checked, passed, cleaned⟩ := (sound (location ++ [.key key]) _ _).2 first
      obtain ⟨rest, passed', cleaned'⟩ := ih.2 others
      exact ⟨(key, checked) :: rest,
        checkEntries_cons_eq_ok.2 ⟨checked, rest, passed, passed', rfl⟩,
        (gives_entries_cons_iff agrees).2 ⟨out, cleaned, outs, cleaned', rfl⟩⟩

variable (object : ∀ location value checked, check location value = .ok checked →
  ∃ members, checked = .obj members)

include object

theorem leads_iff {embedding : Embedding} {value out : Json} :
    Leads (embedding.check check location value) (embedding.clean oracle clean location) out ↔
      embedding.Returns oracle R value out := by
  -- What the check leaves of a single document is one, so it is cleaned as one.
  have single : ∀ embedding, embedding = one ∨ embedding = many → ∀ members,
      Leads (check location (.obj members)) (embedding.clean oracle clean location) out ↔
        R (.obj members) out := by
    intro embedding shape members
    rw [← sound location]
    refine exists_congr fun checked => and_congr_right fun passed => ?_
    obtain ⟨after, rfl⟩ := object _ _ _ passed
    obtain rfl | rfl := shape <;> rfl
  constructor
  · intro leads
    cases embedding with
    | one =>
      cases value with
      | obj members => exact .one ((single one (.inl rfl) members).1 leads)
      | _ =>
        obtain ⟨checked, passed, -⟩ := leads
        cases passed
    | many =>
      cases value with
      | obj members => exact .single ((single many (.inr rfl) members).1 leads)
      | arr items =>
        obtain ⟨checked, passed, gives⟩ := leads
        obtain ⟨rest, passed', rfl⟩ := map_eq_ok.1 passed
        obtain ⟨outs, cleaned, rfl⟩ := (gives_list_iff agrees).1 gives
        exact .list ((leads_items_iff agrees sound location 0).1 ⟨rest, passed', cleaned⟩)
      | _ =>
        obtain ⟨checked, passed, -⟩ := leads
        cases passed
    | keyed model =>
      cases value with
      | obj entries =>
        obtain ⟨checked, passed, gives⟩ := leads
        obtain ⟨rest, passed', rfl⟩ := map_eq_ok.1 passed
        cases model with
        | none =>
          obtain ⟨outs, cleaned, rfl⟩ := (gives_map_iff agrees).1 gives
          exact .map ((leads_entries_iff agrees sound location).1 ⟨rest, passed', cleaned⟩)
        | some model =>
          obtain ⟨outs, cleaned, answered, rfl⟩ := (gives_ids_iff agrees).1 gives
          exact .ids ((leads_entries_iff agrees sound location).1 ⟨rest, passed', cleaned⟩) answered
      | _ =>
        obtain ⟨checked, passed, -⟩ := leads
        cases passed
  · intro returns
    cases returns with
    | one returns => exact (single one (.inl rfl) _).2 returns
    | single returns => exact (single many (.inr rfl) _).2 returns
    | list returns =>
      obtain ⟨rest, passed, cleaned⟩ :=
        (leads_items_iff agrees sound location 0).2 returns
      exact ⟨.arr rest, map_eq_ok.2 ⟨rest, passed, rfl⟩,
        (gives_list_iff agrees).2 ⟨_, cleaned, rfl⟩⟩
    | map returns =>
      obtain ⟨rest, passed, cleaned⟩ :=
        (leads_entries_iff agrees sound location).2 returns
      exact ⟨.obj rest, map_eq_ok.2 ⟨rest, passed, rfl⟩,
        (gives_map_iff agrees).2 ⟨_, cleaned, rfl⟩⟩
    | ids returns answered =>
      obtain ⟨rest, passed, cleaned⟩ :=
        (leads_entries_iff agrees sound location).2 returns
      exact ⟨.obj rest, map_eq_ok.2 ⟨rest, passed, rfl⟩,
        (gives_ids_iff agrees).2 ⟨_, cleaned, answered, rfl⟩⟩

end Embedding

theorem Validator.isObject_of_check {validator : Validator} {location : Location}
    {document checked : Json} (h : validator.check location document = .ok checked) :
    ∃ members, checked = .obj members := by
  cases validator with
  | mk typeName rejectsUnknown rules =>
    cases document with
    | obj members =>
      obtain ⟨after, -, -, same⟩ := Validator.check_obj_eq_ok.1 h
      exact ⟨after, same⟩
    | _ => cases h

theorem Check.eq_null_of_applyAll {checks : List Check} {out : Json}
    (h : applyAll checks .null = .ok out) : out = .null := by
  refine ((applyAll_eq_ok ?_).1 h).2
  intro check mem
  cases check with
  | type expected => cases expected <;> rfl
  | _ => rfl

theorem skips_iff {value : Json} {required : Bool} :
    (value.isNull && !required) = true ↔ value = .null ∧ required = false := by
  cases value <;> simp [Json.isNull]

section

variable {rule : FieldRule} {location : Location} {value out : Json}

theorem FieldRule.leads_value_iff {head : FieldHead} {checks : List Check} :
    Leads ((FieldRule.value head checks).check location value)
        ((FieldRule.value head checks).clean oracle location) out ↔
      (FieldRule.value head checks).Returns oracle value out := by
  have whole : Leads ((FieldRule.value head checks).check location value)
      ((FieldRule.value head checks).clean oracle location) out ↔
        (FieldRule.value head checks).check location value = .ok out := by
    simp only [Leads, FieldRule.clean, Cleaning.gives_pure_iff, exists_eq_right']
  rw [whole, FieldRule.check]
  constructor
  · intro passed
    split at passed
    · rename_i skipped
      obtain ⟨rfl, optional⟩ := skips_iff.1 skipped
      cases passed
      exact .null optional
    · exact .value (mapError_eq_ok.1 passed)
  · intro returns
    cases returns with
    | null optional => exact if_pos (skips_iff.2 ⟨rfl, optional⟩)
    | value passed =>
      split
      · rename_i skipped
        obtain ⟨rfl, -⟩ := skips_iff.1 skipped
        rw [Check.eq_null_of_applyAll passed]
      · exact mapError_eq_ok.2 passed

theorem FieldRule.leads_embedded_iff {head : FieldHead} {embedding : Embedding}
    {nested : Validator} :
    Leads ((FieldRule.embedded head embedding nested).check location value)
        ((FieldRule.embedded head embedding nested).clean oracle location) out ↔
      (FieldRule.embedded head embedding nested).Returns oracle value out := by
  have agrees : ∀ document location other, (nested.clean oracle location document).Agrees
      (nested.clean oracle other document) := fun document => nested.clean_agrees document
  have sound : ∀ location document out,
      Leads (nested.check location document) (nested.clean oracle location) out ↔
        nested.Returns oracle document out := fun _ _ _ => Validator.leads_iff
  have object : ∀ location document checked, nested.check location document = .ok checked →
      ∃ members, checked = .obj members := fun _ _ _ => Validator.isObject_of_check
  have held : Leads (embedding.check (fun location document => nested.check location document)
      location value) ((FieldRule.embedded head embedding nested).clean oracle location) out ↔
        embedding.Returns oracle (nested.Returns oracle) value out :=
    Embedding.leads_iff agrees sound object
  have null : ((FieldRule.embedded head embedding nested).clean oracle location .null).Gives out ↔
      out = .null := by
    cases embedding <;> exact Cleaning.gives_pure_iff
  by_cases skipped : (value.isNull && !head.required) = true
  · obtain ⟨rfl, optional⟩ := skips_iff.1 skipped
    rw [Leads, FieldRule.check, if_pos skipped]
    simp only [Except.ok.injEq, exists_eq_left', null]
    constructor
    · intro same
      subst same
      exact .null optional
    · intro returns
      cases returns with
      | null optional => rfl
      | embedded returns => cases returns
  · rw [Leads, FieldRule.check, if_neg skipped]
    rw [Leads] at held
    rw [held]
    constructor
    · exact .embedded
    · intro returns
      cases returns with
      | null optional => exact absurd (skips_iff.2 ⟨rfl, optional⟩) skipped
      | embedded returns => exact returns

theorem FieldRule.leads_iff (location : Location) :
    Leads (rule.check location value) (rule.clean oracle location) out ↔
      rule.Returns oracle value out := by
  cases rule with
  | value head checks => exact leads_value_iff
  | embedded head embedding nested => exact leads_embedded_iff

end

end DocModel
