import DocModel.Proofs.Lists

namespace DocModel

namespace Json.Members

variable {members : Members} {key other : String} {value : Json}

theorem get?_set_ne (h : other ≠ key) :
    (members.set key value).get? other = members.get? other := by
  induction members with
  | nil => rfl
  | cons member members ih =>
    obtain ⟨name, old⟩ := member
    rw [get?, get?, set] at ih
    rw [get?, get?, set, List.map_cons, lookup_cons_eq_ite]
    by_cases same : name = key
    · subst same
      rw [if_pos rfl, lookup_cons_eq_ite, if_neg h, if_neg h, ih]
    · rw [if_neg same, lookup_cons_eq_ite, ih]

theorem get?_set_self {old : Json} (h : members.get? key = some old) :
    (members.set key value).get? key = some value := by
  induction members with
  | nil => cases h
  | cons member members ih =>
    obtain ⟨name, found⟩ := member
    rw [get?, lookup_cons_eq_ite] at h
    rw [get?, set] at ih
    rw [get?, set, List.map_cons]
    by_cases same : name = key
    · rw [if_pos same, lookup_cons_eq_ite, if_pos rfl]
    · rw [if_neg (Ne.symm same)] at h
      rw [if_neg same, lookup_cons_eq_ite, if_neg (Ne.symm same)]
      exact ih h

theorem get?_append_ne (h : other ≠ key) :
    get? (members ++ [(key, value)]) other = members.get? other := by
  rw [get?, get?, List.lookup_append]
  simp [lookup_cons_eq_ite, h]

theorem keys_set : (members.set key value).keys = members.keys := by
  simp only [set, keys, List.map_map]
  refine List.map_congr_left fun member _ => ?_
  simp only [Function.comp_apply]
  split
  · exact Eq.symm ‹member.1 = key›
  · rfl

theorem erase_set : (members.set key value).erase key = members.erase key := by
  induction members with
  | nil => rfl
  | cons member members ih =>
    rw [erase, set] at ih
    by_cases same : member.1 = key
    · simp [erase, set, same, ih]
    · simp [erase, set, same, ih]

theorem get?_of_mem (nodup : members.keys.Nodup) (mem : (key, value) ∈ members) :
    members.get? key = some value := by
  induction members with
  | nil => cases mem
  | cons member members ih =>
    obtain ⟨name, old⟩ := member
    rw [keys, List.map_cons, List.nodup_cons] at nodup
    rw [get?, lookup_cons_eq_ite]
    cases mem with
    | head => rw [if_pos rfl]
    | tail _ mem =>
      have apart : key ≠ name := by
        intro same
        exact nodup.1 (List.mem_map.2 ⟨_, mem, same⟩)
      rw [if_neg apart]
      exact ih nodup.2 mem

theorem mem_of_get? (h : members.get? key = some value) : (key, value) ∈ members := by
  obtain ⟨before, after, split, -⟩ := List.lookup_eq_some_iff.1 h
  rw [split]
  exact List.mem_append_right _ List.mem_cons_self

theorem get?_eq_none_iff : members.get? key = none ↔ key ∉ members.keys := by
  rw [get?, List.lookup_eq_none_iff]
  constructor
  · intro absent mem
    obtain ⟨member, listed, rfl⟩ := List.mem_map.1 mem
    simpa using absent member listed
  · intro absent member listed
    have apart : key ≠ member.1 := by
      intro same
      exact absent (List.mem_map.2 ⟨_, listed, same.symm⟩)
    simpa using apart

end Json.Members

/-- No object in the value has two members of one key. -/
inductive Json.Distinct : Json → Prop
  | null : Distinct .null
  | bool (value : Bool) : Distinct (.bool value)
  | num (value : Json.Number) : Distinct (.num value)
  | str (value : String) : Distinct (.str value)
  | arr {items : List Json} (each : ∀ item ∈ items, Distinct item) : Distinct (.arr items)
  | obj {members : Json.Members} (nodup : members.keys.Nodup)
    (each : ∀ member ∈ members, Distinct member.2) : Distinct (.obj members)

theorem Json.distinct_obj_iff {members : Json.Members} :
    (Json.obj members).Distinct ↔
      members.keys.Nodup ∧ ∀ member ∈ members, member.2.Distinct := by
  constructor
  · intro distinct
    cases distinct with
    | obj nodup each => exact ⟨nodup, each⟩
  · intro both
    exact .obj both.1 both.2

theorem Json.distinct_arr_iff {items : List Json} :
    (Json.arr items).Distinct ↔ ∀ item ∈ items, item.Distinct := by
  constructor
  · intro distinct
    cases distinct with
    | arr each => exact each
  · exact .arr

end DocModel
