import DocModel.Proofs.Clean.Questions

namespace DocModel

namespace Cleaning

variable {α β : Type}

/-- What holds of the state keeps holding, whether the action succeeds or fails. -/
def Keeps (holds : Sweep → Prop) (action : Cleaning α) : Prop :=
  ∀ before, holds before → holds (action.left before)

variable {holds : Sweep → Prop} {action : Cleaning α} {next : α → Cleaning β} {f : Sweep → Sweep}

theorem Keeps.pure (value : α) : Keeps holds (pure value) := fun _ held => held

theorem Keeps.modify (kept : ∀ sweep, holds sweep → holds (f sweep)) : Keeps holds (modify f) :=
  kept

theorem Keeps.bind (first : action.Keeps holds) (rest : ∀ value, (next value).Keeps holds) :
    (action >>= next).Keeps holds := by
  intro before held
  have middle := first before held
  cases run : action.run before with
  | ok value after =>
    rw [left_of_ok run] at middle
    rw [left_bind_of_ok run]
    exact rest value after middle
  | error violation after =>
    rw [left_of_error run] at middle
    rwa [left_of_error (run_bind_of_error run)]

theorem Keeps.map (h : action.Keeps holds) (f : α → β) :
    Keeps holds (action >>= fun value => Pure.pure (f value)) :=
  h.bind fun value => .pure (f value)

end Cleaning

/-- What holds of the state keeps holding where entries of maps and fields are removed. -/
structure Dropping.Keeps (holds : Sweep → Prop) (drop : Dropping) : Prop where
  entries : ∀ location model entries, (drop location model entries).Keeps holds
  field : ∀ sweep, holds sweep → holds sweep.countRemoved

variable {holds : Sweep → Prop} {drop : Dropping} {document : Location → Json → Cleaning Json}

namespace Embedding

theorem cleanItems_keeps (keeps : ∀ location inner, (document location inner).Keeps holds)
    (items : List Json) (location : Location) (index : Nat) :
    (cleanItems document location index items).Keeps holds := by
  induction items generalizing index with
  | nil => exact .pure []
  | cons item items ih =>
    apply (keeps _ item).bind
    intro out
    exact (ih (index + 1)).map (out :: ·)

theorem cleanEntries_keeps (keeps : ∀ location inner, (document location inner).Keeps holds)
    (entries : Json.Members) (location : Location) :
    (cleanEntries document location entries).Keeps holds := by
  induction entries with
  | nil => exact .pure []
  | cons entry entries ih =>
    apply (keeps _ entry.2).bind
    intro out
    exact ih.map ((entry.1, out) :: ·)

theorem cleanBy_keeps (kept : drop.Keeps holds)
    (keeps : ∀ location inner, (document location inner).Keeps holds) (embedding : Embedding)
    (location : Location) (value : Json) :
    (embedding.cleanBy drop document location value).Keeps holds := by
  unfold cleanBy
  split
  · exact (cleanItems_keeps keeps _ location 0).map Json.arr
  · exact keeps location _
  · exact keeps location _
  · apply (cleanEntries_keeps keeps _ location).bind
    intro entries
    split
    · exact (kept.entries location _ entries).map Json.obj
    · exact .pure _
  · exact .pure value

end Embedding

namespace FieldHead

theorem refine_keeps {clean : Json → Cleaning Json} (keeps : ∀ value, (clean value).Keeps holds)
    (head : FieldHead) (members : Json.Members) : (head.refine clean members).Keeps holds := by
  rw [refine]
  split
  · exact (keeps _).map (members.set head.name)
  · exact .pure members

theorem prune_keeps (kept : drop.Keeps holds) (head : FieldHead) (members : Json.Members) :
    (head.prune members).Keeps holds := by
  rw [prune]
  split
  · exact (Cleaning.Keeps.modify kept.field).map fun _ => members.erase head.name
  · exact .pure members

end FieldHead

mutual

theorem Validator.cleanBy_keeps (kept : drop.Keeps holds) (validator : Validator)
    (location : Location) (document : Json) :
    (validator.cleanBy drop location document).Keeps holds := by
  match validator with
  | .mk typeName rejectsUnknown rules =>
    cases document with
    | obj members => exact (cleanRulesBy_keeps kept rules location members).map Json.obj
    | _ => exact .pure _

theorem FieldRule.cleanBy_keeps (kept : drop.Keeps holds) (rule : FieldRule) (location : Location)
    (value : Json) : (rule.cleanBy drop location value).Keeps holds := by
  match rule with
  | .value head checks => exact .pure value
  | .embedded head embedding nested =>
    apply embedding.cleanBy_keeps kept
    intro location document
    exact Validator.cleanBy_keeps kept nested location document

theorem cleanRulesBy_keeps (kept : drop.Keeps holds) (rules : List FieldRule) (location : Location)
    (members : Json.Members) : (cleanRulesBy drop rules location members).Keeps holds := by
  match rules with
  | [] => exact .pure members
  | rule :: rules =>
    have value : ∀ value,
        (rule.cleanBy drop (location ++ [.key rule.name]) value).Keeps holds :=
      fun value => FieldRule.cleanBy_keeps kept rule _ value
    apply (FieldHead.refine_keeps value rule.head members).bind
    intro refined
    apply (FieldHead.prune_keeps kept rule.head refined).bind
    intro pruned
    exact cleanRulesBy_keeps kept rules location pruned

end

/-- The questions are counted in the statistics, and no counter has heard of them yet. -/
def Sweep.Tallied (sweep : Sweep) : Prop :=
  sweep.stats.queries = (questions sweep.activities).length ∧
    sweep.activities.flatMap Activity.counts = []

variable {service : Option Service}

theorem Sweep.Tallied.ask {sweep : Sweep} (h : sweep.Tallied) (model : String) (ids : List Int) :
    (sweep.ask model ids).Tallied := by
  obtain ⟨counted, unheard⟩ := h
  constructor
  · have one_more := questions_note_queried model ids sweep
    change sweep.stats.queries + 1 = (questions (sweep.note (.queried model ids)).activities).length
    rw [one_more, List.length_append, counted, List.length_singleton]
  · change (sweep.activities ++ _).flatMap Activity.counts = []
    rw [List.flatMap_append, unheard]
    rfl

theorem Sweep.Tallied.note_queryFailed {sweep : Sweep} (h : sweep.Tallied)
    (model reason : String) : (sweep.note (.queryFailed model reason)).Tallied := by
  obtain ⟨counted, unheard⟩ := h
  constructor
  · rw [questions_note_queryFailed]
    exact counted
  · change (sweep.activities ++ _).flatMap Activity.counts = []
    rw [List.flatMap_append, unheard]
    rfl

theorem existingIds_keeps
    (ask : ∀ sweep model ids, holds sweep → holds (sweep.ask model ids))
    (failed : ∀ sweep model reason, holds sweep → holds (sweep.note (.queryFailed model reason)))
    (oracle : Option Oracle) (location : Location) (model : String) (ids : List Int) :
    (existingIds oracle location model ids).Keeps holds := by
  intro before held
  by_cases some_ids : ids = []
  · rw [some_ids]
    exact held
  cases oracle with
  | none =>
    rw [Cleaning.left_of_error (existingIds_run_none some_ids)]
    exact held
  | some oracle =>
    have asked := ask before model ids held
    cases answer : oracle model ids with
    | ok existing =>
      rw [Cleaning.left_of_ok (existingIds_run_ok some_ids answer)]
      exact asked
    | error error =>
      rw [Cleaning.left_of_error (existingIds_run_error some_ids answer)]
      exact failed _ model error.message asked

theorem Service.drop_keeps
    (ask : ∀ sweep model ids, holds sweep → holds (sweep.ask model ids))
    (failed : ∀ sweep model reason, holds sweep → holds (sweep.note (.queryFailed model reason)))
    (dropped : ∀ sweep count, holds sweep → holds (sweep.countDropped count))
    (removed : ∀ sweep, holds sweep → holds sweep.countRemoved) (service : Option Service) :
    Dropping.Keeps holds (Service.drop service) where
  entries location model entries := by
    have asked : (Service.existing service location model (keyIds entries.keys)).Keeps holds :=
      fun before => existingIds_keeps ask failed _ location model _ before
    rw [drop_eq]
    apply asked.bind
    intro existing
    exact Cleaning.Keeps.map (Cleaning.Keeps.modify fun sweep => dropped sweep _) _
  field := removed

theorem Service.drop_keeps_tallied (service : Option Service) :
    Dropping.Keeps Sweep.Tallied (Service.drop service) := by
  apply Service.drop_keeps
  · intro sweep model ids tallied
    exact tallied.ask model ids
  · intro sweep model reason tallied
    exact tallied.note_queryFailed model reason
  · exact fun _ _ tallied => tallied
  · exact fun _ tallied => tallied

end DocModel
