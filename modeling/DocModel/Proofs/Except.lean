import DocModel.Json

namespace DocModel

variable {ε ε' α β σ : Type}

theorem bind_eq_ok {action : Except ε α} {next : α → Except ε β} {value : β} :
    action >>= next = .ok value ↔ ∃ first, action = .ok first ∧ next first = .ok value := by
  cases action with
  | error error => simp [bind, Except.bind]
  | ok first => simp [bind, Except.bind]

theorem bind_eq_error {action : Except ε α} {next : α → Except ε β} {error : ε} :
    action >>= next = .error error ↔
      action = .error error ∨ ∃ first, action = .ok first ∧ next first = .error error := by
  cases action with
  | error fault => simp [bind, Except.bind]
  | ok first => simp [bind, Except.bind]

theorem map_eq_ok {action : Except ε α} {f : α → β} {value : β} :
    action.map f = .ok value ↔ ∃ first, action = .ok first ∧ f first = value := by
  cases action with
  | error error => simp [Except.map]
  | ok first => simp [Except.map]

theorem map_eq_error {action : Except ε α} {f : α → β} {error : ε} :
    action.map f = .error error ↔ action = .error error := by
  cases action with
  | error fault => simp [Except.map]
  | ok first => simp [Except.map]

theorem mapError_eq_ok {action : Except ε α} {f : ε → ε'} {value : α} :
    action.mapError f = .ok value ↔ action = .ok value := by
  constructor
  · intro h
    cases action with
    | error error => cases h
    | ok first =>
      cases h
      rfl
  · intro h
    rw [h]
    rfl

theorem mapError_eq_error {action : Except ε α} {f : ε → ε'} {error : ε'} :
    action.mapError f = .error error ↔ ∃ fault, action = .error fault ∧ f fault = error := by
  cases action with
  | error fault =>
    constructor
    · intro h
      cases h
      exact ⟨fault, rfl, rfl⟩
    · intro failed
      obtain ⟨_, same, rfl⟩ := failed
      cases same
      rfl
  | ok first =>
    constructor
    · intro h
      cases h
    · intro failed
      obtain ⟨_, same, -⟩ := failed
      cases same

theorem isOk_iff {action : Except ε α} : action.isOk ↔ ∃ value, action = .ok value := by
  cases action <;> simp [Except.isOk, Except.toBool]

theorem exists_of_any_toOption {action : Except ε α} {test : α → Bool}
    (h : action.toOption.any test) : ∃ value, action = .ok value ∧ test value := by
  cases action with
  | error error => cases h
  | ok value => exact ⟨value, rfl, h⟩

/-- The error of an action that fails. -/
def errorOf? : Except ε α → Option ε
  | .ok _ => none
  | .error error => some error

theorem errorOf?_eq_some {action : Except ε α} {error : ε} :
    errorOf? action = some error ↔ action = .error error := by
  cases action <;> simp [errorOf?]

theorem errorOf?_eq_none {action : Except ε α} :
    errorOf? action = none ↔ ∃ value, action = .ok value := by
  cases action <;> simp [errorOf?]

theorem errorOf?_map {action : Except ε α} {f : α → β} :
    errorOf? (action.map f) = errorOf? action := by
  cases action <;> rfl

theorem errorOf?_mapError {action : Except ε α} {f : ε → ε'} :
    errorOf? (action.mapError f) = (errorOf? action).map f := by
  cases action <;> rfl

theorem errorOf?_bind {action : Except ε α} {next : α → Except ε β} {faults others : List ε}
    (first : errorOf? action = faults.head?)
    (second : ∀ value, action = .ok value → errorOf? (next value) = others.head?) :
    errorOf? (action >>= next) = (faults ++ others).head? := by
  rw [List.head?_append, ← first]
  cases action with
  | error error => rfl
  | ok value => exact second value rfl

theorem exists_bind_eq_ok {action : Except ε α} {next : α → Except ε β} :
    (∃ value, action >>= next = .ok value) ↔
      ∃ first, action = .ok first ∧ ∃ value, next first = .ok value := by
  simp only [bind_eq_ok]
  constructor
  · intro both
    obtain ⟨value, first, done, rest⟩ := both
    exact ⟨first, done, value, rest⟩
  · intro both
    obtain ⟨first, done, value, rest⟩ := both
    exact ⟨value, first, done, rest⟩

theorem exists_map_eq_ok {action : Except ε α} {f : α → β} :
    (∃ value, action.map f = .ok value) ↔ ∃ first, action = .ok first := by
  simp only [map_eq_ok]
  constructor
  · intro mapped
    obtain ⟨value, first, done, -⟩ := mapped
    exact ⟨first, done⟩
  · intro succeeds
    obtain ⟨first, done⟩ := succeeds
    exact ⟨f first, first, done, rfl⟩

theorem exists_pure_eq_ok {value : α} :
    (∃ out, (pure value : Except ε α) = .ok out) ↔ True :=
  iff_true_intro ⟨value, rfl⟩

theorem ite_eq_ok {condition : Prop} [Decidable condition] {value out : α} {error : ε} :
    (if condition then Except.ok value else .error error) = .ok out ↔ condition ∧ out = value := by
  by_cases h : condition <;> simp [h, eq_comm]

theorem mapM_cons_of_ok {f : α → Except ε β} {item : α} {value : β} (h : f item = .ok value)
    (items : List α) : (item :: items).mapM f = (items.mapM f).map (value :: ·) := by
  simp only [List.mapM_cons, h, bind, Except.bind]
  cases items.mapM f <;> rfl

theorem mapM_cons_of_error {f : α → Except ε β} {item : α} {error : ε} (h : f item = .error error)
    (items : List α) : (item :: items).mapM f = .error error := by
  simp only [List.mapM_cons, h, bind, Except.bind]

theorem exists_of_mapM_eq_error {f : α → Except ε β} {items : List α} {error : ε}
    (h : items.mapM f = .error error) : ∃ item ∈ items, f item = .error error := by
  induction items with
  | nil => cases h
  | cons item items ih =>
    cases first : f item with
    | error fault =>
      rw [mapM_cons_of_error first] at h
      cases h
      exact ⟨item, List.mem_cons_self, first⟩
    | ok value =>
      rw [mapM_cons_of_ok first, map_eq_error] at h
      obtain ⟨other, mem, failed⟩ := ih h
      exact ⟨other, List.mem_cons_of_mem _ mem, failed⟩

/-- What every step keeps, the whole run keeps. -/
theorem foldlM_invariant {step : σ → α → Except ε σ} {P : σ → Prop}
    (keep : ∀ before item after, step before item = .ok after → P before → P after)
    {items : List α} {before after : σ} (run : items.foldlM step before = .ok after)
    (good : P before) : P after := by
  induction items generalizing before with
  | nil =>
    cases run
    exact good
  | cons item items ih =>
    rw [List.foldlM_cons, bind_eq_ok] at run
    obtain ⟨next, first, rest⟩ := run
    exact ih rest (keep _ _ _ first good)

theorem foldlM_error {step : σ → α → Except ε σ} {P : σ → Prop} {Fault : ε → Prop}
    (keep : ∀ before item after, step before item = .ok after → P before → P after)
    (fault : ∀ before item error, P before → step before item = .error error → Fault error)
    {items : List α} {before : σ} {error : ε} (run : items.foldlM step before = .error error)
    (good : P before) : Fault error := by
  induction items generalizing before with
  | nil => cases run
  | cons item items ih =>
    rw [List.foldlM_cons, bind_eq_error] at run
    obtain first | ⟨next, first, rest⟩ := run
    · exact fault _ _ _ good first
    · exact ih rest (keep _ _ _ first good)

theorem foldlM_eq_error {step : σ → α → Except ε σ} {items : List α} {before : σ} {error : ε} :
    items.foldlM step before = .error error ↔
      ∃ front item rest middle, items = front ++ item :: rest ∧
        front.foldlM step before = .ok middle ∧ step middle item = .error error := by
  constructor
  · intro run
    induction items generalizing before with
    | nil => cases run
    | cons item rest ih =>
      rw [List.foldlM_cons, bind_eq_error] at run
      obtain failed | ⟨next, stepped, run⟩ := run
      · exact ⟨[], item, rest, before, rfl, rfl, failed⟩
      · obtain ⟨front, other, rest, middle, rfl, reached, failed⟩ := ih run
        refine ⟨item :: front, other, rest, middle, rfl, ?_, failed⟩
        rw [List.foldlM_cons, stepped]
        exact reached
  · intro split
    obtain ⟨front, item, rest, middle, rfl, reached, failed⟩ := split
    rw [List.foldlM_append, reached]
    refine bind_eq_error.2 (.inr ⟨middle, rfl, ?_⟩)
    rw [List.foldlM_cons]
    exact bind_eq_error.2 (.inl failed)

theorem errorOf?_foldlM {step : σ → α → Except ε σ} {faults : α → List ε}
    {P : List α → σ → Prop}
    (each : ∀ item rest state, P (item :: rest) state →
      errorOf? (step state item) = (faults item).head?)
    (keep : ∀ item rest state next, P (item :: rest) state → step state item = .ok next →
      P rest next)
    {items : List α} {state : σ} (ready : P items state) :
    errorOf? (items.foldlM step state) = (items.flatMap faults).head? := by
  induction items generalizing state with
  | nil => rfl
  | cons item rest ih =>
    rw [List.foldlM_cons, List.flatMap_cons]
    refine errorOf?_bind (each item rest state ready) ?_
    intro next stepped
    exact ih (keep item rest state next ready stepped)

end DocModel
