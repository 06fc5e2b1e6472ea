import DocModel.Proofs.Clean.Reference
import DocModel.Validator.Clean

namespace DocModel

/-- The action succeeds from any state if and only if the condition holds, and then gives the
value. -/
def Cleaning.Yields {α : Type} (action : Cleaning α) (condition : Prop) (value : α) : Prop :=
  ∀ sweep, (condition → ∃ next, action.run sweep = .ok value next) ∧
    (¬ condition → ∃ violation next, action.run sweep = .error violation next)

namespace Cleaning

variable {α β : Type} {action : Cleaning α} {next : α → Cleaning β} {P Q : Prop} {value : α}
  {result : β}

theorem Yields.pure (value : α) : Yields (pure value) True value :=
  fun sweep => ⟨fun _ => ⟨sweep, rfl⟩, fun absurd => absurd.elim trivial⟩

theorem Yields.after_modify (f : Sweep → Sweep) (h : Yields action P value) :
    Yields (modify f >>= fun _ => action) P value :=
  fun sweep => h (f sweep)

theorem Yields.throw (violation : Violation) (value : α) : Yields (throw violation) False value :=
  fun sweep => ⟨False.elim, fun _ => ⟨violation, sweep, rfl⟩⟩

theorem Yields.bind (first : Yields action P value) (rest : Yields (next value) Q result) :
    Yields (action >>= next) (P ∧ Q) result := by
  intro sweep
  rw [EStateM.run_bind]
  by_cases p : P
  · obtain ⟨after, run⟩ := (first sweep).1 p
    rw [run]
    obtain ⟨passes, fails⟩ := rest after
    constructor
    · intro both
      exact passes both.2
    · intro either
      exact fails fun q => either ⟨p, q⟩
  · obtain ⟨violation, after, run⟩ := (first sweep).2 p
    rw [run]
    exact ⟨fun both => absurd both.1 p, fun _ => ⟨violation, after, rfl⟩⟩

theorem Yields.map (h : Yields action P value) (f : α → β) :
    Yields (action >>= fun value => Pure.pure (f value)) P (f value) := by
  have mapped : Yields (action >>= fun value => Pure.pure (f value)) (P ∧ True) (f value) :=
    h.bind (Yields.pure (f value))
  rwa [and_true] at mapped

theorem Yields.congr (h : Yields action P value) (iff : P ↔ Q) {other : α} (same : value = other) :
    Yields action Q other := by
  rw [← same]
  intro sweep
  rw [← iff]
  exact h sweep

theorem Yields.pure_of (met : P) (value : α) : Yields (Pure.pure value) P value :=
  (Yields.pure value).congr (iff_of_true trivial met) rfl

theorem Yields.succeeds_iff (h : Yields action P value) (sweep : Sweep) :
    (∃ result after, action.run sweep = .ok result after) ↔ P := by
  obtain ⟨passes, fails⟩ := h sweep
  constructor
  · intro success
    obtain ⟨result, after, run⟩ := success
    apply Classical.byContradiction
    intro unmet
    obtain ⟨violation, after', run'⟩ := fails unmet
    rw [run] at run'
    cases run'
  · intro met
    exact ⟨value, passes met⟩

theorem Yields.result_eq {sweep after : Sweep} {other : α} (h : Yields action P value)
    (run : action.run sweep = .ok other after) : other = value := by
  obtain ⟨after', run'⟩ := (h sweep).1 ((h.succeeds_iff sweep).1 ⟨other, after, run⟩)
  rw [run] at run'
  cases run'
  rfl

end Cleaning

theorem mem_insertId {id other : Int} {ids : List Int} :
    other ∈ insertId id ids ↔ other = id ∨ other ∈ ids := by
  induction ids with
  | nil => simp [insertId]
  | cons first ids ih =>
    rw [insertId]
    split
    · exact List.mem_cons
    · split
      · rename_i same
        rw [List.mem_cons, same]
        exact (or_iff_right_of_imp .inl).symm
      · rw [List.mem_cons, ih, List.mem_cons]
        exact or_left_comm

theorem mem_keyIds {keys : List String} {id : Int} :
    id ∈ keyIds keys ↔ ∃ key ∈ keys, keyId? key = some id := by
  rw [keyIds, ← List.mem_filterMap]
  induction keys.filterMap keyId? with
  | nil => simp
  | cons first ids ih => rw [List.foldr_cons, mem_insertId, ih, List.mem_cons]

theorem keyIds_eq_nil_iff {keys : List String} :
    keyIds keys = [] ↔ ∀ key ∈ keys, keyId? key = none := by
  rw [List.eq_nil_iff_forall_not_mem]
  constructor
  · intro empty key mem
    cases parsed : keyId? key with
    | none => rfl
    | some id => exact absurd (mem_keyIds.2 ⟨key, mem, parsed⟩) (empty id)
  · intro unparsed id mem
    obtain ⟨key, listed, parsed⟩ := mem_keyIds.1 mem
    rw [unparsed key listed] at parsed
    cases parsed

theorem pairwise_insertId {id : Int} {ids : List Int} (h : ids.Pairwise (· < ·)) :
    (insertId id ids).Pairwise (· < ·) := by
  induction ids with
  | nil => exact List.pairwise_singleton _ id
  | cons first ids ih =>
    obtain ⟨least, ascending⟩ := List.pairwise_cons.1 h
    rw [insertId]
    split
    · rename_i less
      apply List.pairwise_cons.2 ⟨_, h⟩
      intro other mem
      cases mem with
      | head => exact less
      | tail _ mem => exact Int.lt_trans less (least other mem)
    · split
      · exact h
      · apply List.pairwise_cons.2 ⟨_, ih ascending⟩
        intro other mem
        obtain rfl | mem := mem_insertId.1 mem
        · omega
        · exact least other mem

theorem pairwise_keyIds (keys : List String) : (keyIds keys).Pairwise (· < ·) := by
  rw [keyIds]
  induction keys.filterMap keyId? with
  | nil => exact .nil
  | cons id ids ih => exact pairwise_insertId ih

/-- The oracle answers for the keys, if any of them is an id. -/
def Answered (oracle : Option Oracle) (model : String) (keys : List String) : Prop :=
  (∃ key ∈ keys, ∃ id, keyId? key = some id) → ∃ existing, Answers oracle model keys existing

variable {oracle : Option Oracle} {location : Location} {model : String} {keys : List String}

theorem existingIds_yields_nil (ids : keyIds keys = []) :
    (existingIds oracle location model (keyIds keys)).Yields (Answered oracle model keys) [] := by
  rw [ids]
  apply Cleaning.Yields.pure_of
  intro parses
  obtain ⟨key, mem, id, parsed⟩ := parses
  rw [keyIds_eq_nil_iff.1 ids key mem] at parsed
  cases parsed

theorem existingIds_yields (ids : keyIds keys ≠ []) :
    (existingIds oracle location model (keyIds keys)).Yields (Answered oracle model keys)
      (knownIds oracle model keys) := by
  have answered : Answered oracle model keys ↔ ∃ existing, Answers oracle model keys existing := by
    obtain ⟨id, mem⟩ := List.exists_mem_of_ne_nil _ ids
    obtain ⟨key, listed, parsed⟩ := mem_keyIds.1 mem
    constructor
    · intro answered
      exact answered ⟨key, listed, id, parsed⟩
    · intro answered _
      exact answered
  rw [answered]
  unfold existingIds
  rw [if_neg (by simpa using ids)]
  cases oracle with
  | none =>
    apply (Cleaning.Yields.throw _ _).congr _ rfl
    simp [Answers]
  | some ask =>
    apply Cleaning.Yields.after_modify
    cases answer : ask model (keyIds keys) with
    | error error =>
      apply Cleaning.Yields.after_modify
      apply (Cleaning.Yields.throw _ _).congr _ rfl
      simp [Answers, answer]
    | ok existing =>
      apply (Cleaning.Yields.pure existing).congr
      · simp [Answers, answer]
      · simp [knownIds, answer, Except.toOption]

theorem dropDangling_yields (oracle : Option Oracle) (location : Location) (model : String)
    (entries : Json.Members) :
    (dropDangling oracle location model entries).Yields (Answered oracle model entries.keys)
      (entries.filter fun entry => isKnown oracle model entries.keys entry.1) := by
  rw [dropDangling]
  by_cases ids : keyIds entries.keys = []
  · refine ((existingIds_yields_nil ids).bind ?_).congr (and_iff_left trivial) rfl
    apply Cleaning.Yields.after_modify
    apply (Cleaning.Yields.pure _).congr Iff.rfl
    apply List.filter_congr
    intro entry mem
    have unparsed := keyIds_eq_nil_iff.1 ids entry.1 (List.mem_map_of_mem mem)
    rw [isKnown, unparsed]
    rfl
  · refine ((existingIds_yields ids).bind ?_).congr (and_iff_left trivial) rfl
    apply Cleaning.Yields.after_modify
    exact Cleaning.Yields.pure _

end DocModel
