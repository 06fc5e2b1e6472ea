import DocModel.Proofs.Clean.Rules

namespace DocModel

namespace Cleaning

variable {α β : Type} {action other : Cleaning α} {next next' : α → Cleaning β} {P : Prop}
  {value result : α} {last : β} {before after : Sweep}

/-- What the one action gives from some state, the other gives from every state. -/
def Agrees (action other : Cleaning α) : Prop :=
  ∀ value before after, action.run before = .ok value after →
    ∀ before, ∃ after, other.run before = .ok value after

/-- The action succeeds from every state with the value. -/
def Gives (action : Cleaning α) (value : α) : Prop :=
  ∀ before, ∃ after, action.run before = .ok value after

theorem Agrees.gives (h : action.Agrees other) (run : action.run before = .ok value after) :
    other.Gives value := h value before after run

theorem Agrees.gives_iff (h : action.Agrees other) (h' : other.Agrees action) :
    action.Gives value ↔ other.Gives value := by
  constructor
  · intro gives
    obtain ⟨after, run⟩ := gives {}
    exact h.gives run
  · intro gives
    obtain ⟨after, run⟩ := gives {}
    exact h'.gives run

theorem Yields.agrees (h : action.Yields P value) (h' : other.Yields P value) :
    action.Agrees other := by
  intro result before after run
  rw [h.result_eq run]
  intro before'
  exact (h' before').1 ((h.succeeds_iff before).1 ⟨result, after, run⟩)

theorem Yields.gives_iff (h : action.Yields P value) :
    action.Gives result ↔ P ∧ result = value := by
  constructor
  · intro gives
    obtain ⟨after, run⟩ := gives {}
    exact ⟨(h.succeeds_iff {}).1 ⟨result, after, run⟩, h.result_eq run⟩
  · intro met
    obtain ⟨met, rfl⟩ := met
    exact fun before => (h before).1 met

theorem Agrees.bind (first : action.Agrees other)
    (rest : ∀ value, (next value).Agrees (next' value)) :
    (action >>= next).Agrees (other >>= next') := by
  intro result before after run before'
  rw [EStateM.run_bind] at run
  cases run' : action.run before with
  | error violation middle =>
    rw [run'] at run
    cases run
  | ok value middle =>
    rw [run'] at run
    obtain ⟨middle', run'⟩ := first.gives run' before'
    rw [EStateM.run_bind, run']
    exact (rest value).gives run middle'

theorem gives_bind_iff (first : action.Agrees action)
    (rest : ∀ value, (next value).Agrees (next value)) :
    (action >>= next).Gives last ↔ ∃ value, action.Gives value ∧ (next value).Gives last := by
  constructor
  · intro gives
    obtain ⟨after, run⟩ := gives {}
    rw [EStateM.run_bind] at run
    cases run' : action.run {} with
    | error violation middle =>
      rw [run'] at run
      cases run
    | ok value middle =>
      rw [run'] at run
      exact ⟨value, first.gives run', (rest value).gives run⟩
  · intro both
    obtain ⟨value, first, rest⟩ := both
    intro before
    obtain ⟨middle, run⟩ := first before
    rw [EStateM.run_bind, run]
    exact rest middle

theorem agrees_pure (value : α) : Agrees (pure value) (pure value) :=
  (Yields.pure value).agrees (Yields.pure value)

theorem gives_pure_iff : Gives (pure value) result ↔ result = value := by
  rw [(Yields.pure value).gives_iff, true_and]

end Cleaning

variable {oracle : Option Oracle}

namespace Embedding

variable {document : Location → Json → Cleaning Json}
  (agrees : ∀ value location other, (document location value).Agrees (document other value))

include agrees

theorem cleanItems_agrees (items : List Json) (location other : Location) (index index' : Nat) :
    (cleanItems document location index items).Agrees
      (cleanItems document other index' items) := by
  induction items generalizing index index' with
  | nil => exact Cleaning.agrees_pure []
  | cons item items ih =>
    apply (agrees item _ _).bind
    intro item
    exact (ih _ _).bind fun items => Cleaning.agrees_pure _

theorem cleanEntries_agrees (entries : Json.Members) (location other : Location) :
    (cleanEntries document location entries).Agrees (cleanEntries document other entries) := by
  induction entries with
  | nil => exact Cleaning.agrees_pure []
  | cons entry entries ih =>
    apply (agrees entry.2 _ _).bind
    intro value
    exact ih.bind fun entries => Cleaning.agrees_pure _

theorem clean_agrees (embedding : Embedding) (value : Json) (location other : Location) :
    (embedding.clean oracle document location value).Agrees
      (embedding.clean oracle document other value) := by
  cases embedding with
  | one =>
    cases value with
    | obj members => exact agrees _ _ _
    | _ => exact Cleaning.agrees_pure _
  | many =>
    cases value with
    | obj members => exact agrees _ _ _
    | arr items =>
      exact (cleanItems_agrees agrees items _ _ _ _).bind fun items => Cleaning.agrees_pure _
    | _ => exact Cleaning.agrees_pure _
  | keyed model =>
    cases value with
    | obj entries =>
      apply (cleanEntries_agrees agrees entries _ _).bind
      intro entries
      cases model with
      | none => exact Cleaning.agrees_pure _
      | some model =>
        have dropped := (dropDangling_yields oracle location model entries).agrees
          (dropDangling_yields oracle other model entries)
        exact dropped.bind fun kept => Cleaning.agrees_pure _
    | _ => exact Cleaning.agrees_pure _

variable {location : Location} {index : Nat}

theorem gives_items_cons_iff {item : Json} {items outs : List Json} :
    (cleanItems document location index (item :: items)).Gives outs ↔
      ∃ out, (document (location ++ [.index index]) item).Gives out ∧
        ∃ rest, (cleanItems document location (index + 1) items).Gives rest ∧
          outs = out :: rest := by
  have steady := cleanItems_agrees agrees items location location (index + 1) (index + 1)
  rw [cleanItems, Cleaning.gives_bind_iff (agrees _ _ _) fun out =>
    steady.bind fun _ => Cleaning.agrees_pure _]
  refine exists_congr fun out => and_congr_right fun _ => ?_
  rw [Cleaning.gives_bind_iff steady fun _ => Cleaning.agrees_pure _]
  simp only [Cleaning.gives_pure_iff]

theorem gives_entries_cons_iff {key : String} {entry : Json} {entries outs : Json.Members} :
    (cleanEntries document location ((key, entry) :: entries)).Gives outs ↔
      ∃ out, (document (location ++ [.key key]) entry).Gives out ∧
        ∃ rest, (cleanEntries document location entries).Gives rest ∧
          outs = (key, out) :: rest := by
  have steady := cleanEntries_agrees agrees entries location location
  rw [cleanEntries, Cleaning.gives_bind_iff (agrees _ _ _) fun out =>
    steady.bind fun _ => Cleaning.agrees_pure _]
  refine exists_congr fun out => and_congr_right fun _ => ?_
  rw [Cleaning.gives_bind_iff steady fun _ => Cleaning.agrees_pure _]
  simp only [Cleaning.gives_pure_iff]

theorem gives_list_iff {items : List Json} {out : Json} :
    (many.clean oracle document location (.arr items)).Gives out ↔
      ∃ outs, (cleanItems document location 0 items).Gives outs ∧ out = .arr outs := by
  have steady := cleanItems_agrees agrees items location location 0 0
  rw [Embedding.clean, Cleaning.gives_bind_iff steady fun _ => Cleaning.agrees_pure _]
  simp only [Cleaning.gives_pure_iff]

theorem gives_map_iff {entries : Json.Members} {out : Json} :
    ((keyed none).clean oracle document location (.obj entries)).Gives out ↔
      ∃ outs, (cleanEntries document location entries).Gives outs ∧ out = .obj outs := by
  have steady := cleanEntries_agrees agrees entries location location
  rw [Embedding.clean, Cleaning.gives_bind_iff steady fun _ => Cleaning.agrees_pure _]
  simp only [Cleaning.gives_pure_iff]

theorem gives_ids_iff {model : String} {entries : Json.Members} {out : Json} :
    ((keyed (some model)).clean oracle document location (.obj entries)).Gives out ↔
      ∃ outs : Json.Members, (cleanEntries document location entries).Gives outs ∧
        DocModel.Answered oracle model outs.keys ∧
        out = .obj (outs.filter fun out => isKnown oracle model outs.keys out.1) := by
  have steady := cleanEntries_agrees agrees entries location location
  have dropped := fun outs => dropDangling_yields oracle location model outs
  rw [Embedding.clean, Cleaning.gives_bind_iff steady fun outs =>
    ((dropped outs).agrees (dropped outs)).bind fun _ => Cleaning.agrees_pure _]
  refine exists_congr fun outs => and_congr_right fun _ => ?_
  rw [Cleaning.gives_bind_iff ((dropped outs).agrees (dropped outs))
    fun _ => Cleaning.agrees_pure _]
  simp only [(dropped outs).gives_iff, Cleaning.gives_pure_iff, and_assoc, exists_and_left,
    exists_eq_left]

end Embedding

theorem FieldHead.refine_agrees {head : FieldHead} {clean clean' : Json → Cleaning Json}
    (agrees : ∀ value, (clean value).Agrees (clean' value)) (members : Json.Members) :
    (head.refine clean members).Agrees (head.refine clean' members) := by
  cases found : members.get? head.name with
  | none =>
    rw [refine_of_absent clean found, refine_of_absent clean' found]
    exact Cleaning.agrees_pure members
  | some value =>
    rw [refine_of_present clean found, refine_of_present clean' found]
    exact (agrees value).bind fun value => Cleaning.agrees_pure _

theorem FieldHead.prune_agrees (head : FieldHead) (members : Json.Members) :
    (head.prune members).Agrees (head.prune members) :=
  (head.prune_yields members).agrees (head.prune_yields members)

mutual

theorem Validator.clean_agrees (validator : Validator) (document : Json)
    (location other : Location) :
    (validator.clean oracle location document).Agrees (validator.clean oracle other document) := by
  match validator with
  | .mk typeName rejectsUnknown rules =>
    cases document with
    | obj members =>
      rw [Validator.clean, Validator.clean]
      exact (cleanRules_agrees rules members location other).bind fun kept => Cleaning.agrees_pure _
    | _ => exact Cleaning.agrees_pure _

theorem FieldRule.clean_agrees (rule : FieldRule) (value : Json) (location other : Location) :
    (rule.clean oracle location value).Agrees (rule.clean oracle other value) := by
  match rule with
  | .value head checks => exact Cleaning.agrees_pure _
  | .embedded head embedding nested =>
    rw [FieldRule.clean, FieldRule.clean]
    apply Embedding.clean_agrees
    intro document location other
    exact Validator.clean_agrees nested document location other

theorem cleanRules_agrees (rules : List FieldRule) (members : Json.Members)
    (location other : Location) :
    (cleanRules oracle rules location members).Agrees
      (cleanRules oracle rules other members) := by
  match rules with
  | [] => exact Cleaning.agrees_pure _
  | rule :: rules =>
    rw [cleanRules, cleanRules]
    apply (FieldHead.refine_agrees (fun value => FieldRule.clean_agrees rule value _ _) _).bind
    intro refined
    apply (rule.head.prune_agrees refined).bind
    intro pruned
    exact cleanRules_agrees rules pruned location other

end

end DocModel
