import Mathlib.Data.List.Perm.Basic
import DocModel.Proofs.Except

namespace DocModel

section

variable {α : Type} {entries rest : List (String × α)} {key other : String} {value : α}

theorem lookup_cons_eq_ite :
    ((key, value) :: rest).lookup other =
      if other = key then some value else rest.lookup other := by
  by_cases h : other = key
  · simp [h]
  · have apart : (other == key) = false := by simpa using h
    simp [List.lookup_cons, h, apart]

theorem lookup_filter (keep : String → Bool) (kept : keep other) :
    (entries.filter fun entry => keep entry.1).lookup other = entries.lookup other := by
  induction entries with
  | nil => rfl
  | cons entry entries ih =>
    obtain ⟨name, value⟩ := entry
    by_cases stays : keep name
    · simp [stays, lookup_cons_eq_ite, ih]
    · have apart : other ≠ name := by
        intro same
        exact stays (same ▸ kept)
      simp [stays, ih, lookup_cons_eq_ite, apart]

theorem lookup_filter_ne (h : other ≠ key) :
    (entries.filter (·.1 != key)).lookup other = entries.lookup other := by
  apply lookup_filter (· != key)
  simpa using h

end

theorem mapM_eq_ok {ε α β : Type} {f : α → Except ε β} {items : List α} {values : List β} :
    items.mapM f = .ok values ↔
      List.Forall₂ (fun item value => f item = .ok value) items values := by
  induction items generalizing values with
  | nil => simp [pure, Except.pure, eq_comm]
  | cons item items ih =>
    simp only [List.mapM_cons, bind_eq_ok, ih, pure, Except.pure, Except.ok.injEq]
    constructor
    · intro mapped
      obtain ⟨value, first, rest, others, rfl⟩ := mapped
      exact .cons first others
    · intro h
      cases h with
      | cons first others => exact ⟨_, first, _, others, rfl⟩

theorem exists_left_of_forall₂ {α β : Type} {R : α → β → Prop} {items : List α} {values : List β}
    (h : List.Forall₂ R items values) {value : β} (mem : value ∈ values) :
    ∃ item ∈ items, R item value := by
  induction h with
  | nil => cases mem
  | cons first rest ih =>
    cases mem with
    | head => exact ⟨_, List.mem_cons_self, first⟩
    | tail _ mem =>
      obtain ⟨item, mem', related⟩ := ih mem
      exact ⟨item, List.mem_cons_of_mem _ mem', related⟩

theorem exists_right_of_forall₂ {α β : Type} {R : α → β → Prop} {items : List α} {values : List β}
    (h : List.Forall₂ R items values) {item : α} (mem : item ∈ items) :
    ∃ value ∈ values, R item value := exists_left_of_forall₂ h.flip mem

theorem forall₂_trans {α β γ : Type} {R : α → β → Prop} {S : β → γ → Prop} {T : α → γ → Prop}
    (trans : ∀ {a b c}, R a b → S b c → T a c) {items : List α} {middle : List β}
    {values : List γ} (one : List.Forall₂ R items middle) (two : List.Forall₂ S middle values) :
    List.Forall₂ T items values := by
  induction one generalizing values with
  | nil =>
    cases two
    exact .nil
  | cons first _ ih =>
    cases two with
    | cons second rest => exact .cons (trans first second) (ih rest)

theorem exists_perm_of_map_perm {α β : Type} {f : α → β} {items others : List α}
    (perm : (items.map f).Perm (others.map f)) :
    ∃ middle, items.Perm middle ∧
      List.Forall₂ (fun item other => f item = f other) middle others := by
  have images : List.Forall₂ (fun image item => image = f item) (items.map f) items := by
    rw [List.forall₂_map_left_iff]
    exact List.forall₂_same.2 fun item _ => rfl
  obtain ⟨middle, related, shuffled⟩ := List.perm_comp_forall₂ perm.symm images
  rw [List.forall₂_map_left_iff] at related
  exact ⟨middle, shuffled.symm, related.flip.imp fun _ _ same => same.symm⟩

theorem forall₂_imp_of_mem {α β : Type} {R S : α → β → Prop} {items : List α} {values : List β}
    (h : List.Forall₂ R items values)
    (imp : ∀ item ∈ items, ∀ value ∈ values, R item value → S item value) :
    List.Forall₂ S items values := by
  induction h with
  | nil => exact .nil
  | cons first rest ih =>
    refine .cons (imp _ List.mem_cons_self _ List.mem_cons_self first) (ih ?_)
    intro item mem value mem'
    exact imp _ (List.mem_cons_of_mem _ mem) _ (List.mem_cons_of_mem _ mem')

theorem all_eq_all_of_forall₂ {α : Type} {test : α → Bool} {items others : List α}
    (h : List.Forall₂ (fun item other => test item = test other) items others) :
    items.all test = others.all test := by
  induction h with
  | nil => rfl
  | cons first _ ih => rw [List.all_cons, List.all_cons, first, ih]

theorem forall₂_congr_of_mem {α β : Type} {R S T : α → β → Prop} {items : List α}
    {values : List β} (h : List.Forall₂ R items values)
    (iff : ∀ item ∈ items, ∀ value ∈ values, R item value → (S item value ↔ T item value)) :
    List.Forall₂ S items values ↔ List.Forall₂ T items values := by
  have both := forall₂_imp_of_mem h iff
  constructor
  · exact List.Forall₂.mp (fun _ _ same => same.1) both
  · exact List.Forall₂.mp (fun _ _ same => same.2) both

/-- Two lists are matched by the same lists if they are, place by place, by the same items. -/
theorem forall₂_eq_forall₂_iff {α : Type} {R : α → α → Prop} {items others : List α}
    (refl : ∀ item ∈ items, R item item) :
    (∀ list, List.Forall₂ R list items ↔ List.Forall₂ R list others) ↔
      List.Forall₂ (fun item other => ∀ x, R x item ↔ R x other) items others := by
  induction items generalizing others with
  | nil =>
    constructor
    · intro all
      cases (all []).1 .nil
      exact .nil
    · intro same
      cases same
      exact fun list => Iff.rfl
  | cons item items ih =>
    rw [List.forall_mem_cons] at refl
    have own : List.Forall₂ R items items := List.forall₂_same.2 refl.2
    constructor
    · intro all
      cases (all (item :: items)).1 (.cons refl.1 own) with
      | cons first rest =>
        refine .cons (fun x => ?_) ((ih refl.2).1 fun list => ?_)
        · have here := all (x :: items)
          rw [List.forall₂_cons, List.forall₂_cons] at here
          simpa only [own, rest, and_true] using here
        · have here := all (item :: list)
          rw [List.forall₂_cons, List.forall₂_cons] at here
          simpa only [refl.1, first, true_and] using here
    · intro same
      cases same with
      | cons first rest =>
        intro list
        cases list with
        | nil => exact iff_of_false nofun nofun
        | cons x list => rw [List.forall₂_cons, List.forall₂_cons, first, (ih refl.2).2 rest list]

end DocModel
