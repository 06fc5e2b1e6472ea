import Mathlib.Data.List.Nodup
import DocModel.Proofs.Json.Members

namespace DocModel.Json.Members

variable {members : Members} {key other : String} {value : Json}

theorem insert_of_mem (h : key ∈ members.keys) :
    members.insert key value = members.set key value := by
  rw [insert, if_pos h]

theorem insert_of_notMem (h : key ∉ members.keys) :
    members.insert key value = members ++ [(key, value)] := by
  rw [insert, if_neg h]

theorem get?_isSome_iff : (members.get? key).isSome ↔ key ∈ members.keys := by
  rw [Option.isSome_iff_ne_none, ne_eq, get?_eq_none_iff, Decidable.not_not]

theorem get?_append_of_notMem (h : key ∉ members.keys) :
    get? (members ++ [(key, value)]) key = some value := by
  rw [get?, List.lookup_append, ← get?, get?_eq_none_iff.2 h]
  simp

theorem get?_insert_self : (members.insert key value).get? key = some value := by
  by_cases mem : key ∈ members.keys
  · rw [insert_of_mem mem]
    obtain ⟨old, found⟩ := Option.isSome_iff_exists.1 (get?_isSome_iff.2 mem)
    exact get?_set_self found
  · rw [insert_of_notMem mem]
    exact get?_append_of_notMem mem

theorem get?_insert_ne (h : other ≠ key) :
    (members.insert key value).get? other = members.get? other := by
  by_cases mem : key ∈ members.keys
  · rw [insert_of_mem mem]
    exact get?_set_ne h
  · rw [insert_of_notMem mem]
    exact get?_append_ne h

theorem keys_insert :
    (members.insert key value).keys =
      if key ∈ members.keys then members.keys else members.keys ++ [key] := by
  split
  · rename_i mem
    rw [insert_of_mem mem, keys_set]
  · rename_i fresh
    simp [insert_of_notMem fresh, keys]

theorem nodup_keys_insert (nodup : members.keys.Nodup) :
    (members.insert key value).keys.Nodup := by
  rw [keys_insert]
  split
  · exact nodup
  · rename_i fresh
    simpa [List.nodup_append] using ⟨nodup, fun _ mem same => fresh (same ▸ mem)⟩

theorem set_of_notMem (h : key ∉ members.keys) : members.set key value = members := by
  have each : ∀ member ∈ members, (if member.1 = key then (key, value) else member) = member := by
    intro member listed
    rw [if_neg]
    intro same
    exact h (List.mem_map.2 ⟨member, listed, same⟩)
  rw [set, List.map_congr_left each, List.map_id']

theorem set_set {new : Json} : (members.set key value).set key new = members.set key new := by
  simp only [set, List.map_map]
  refine List.map_congr_left fun member _ => ?_
  by_cases same : member.1 = key <;> simp [same]

theorem set_comm {new : Json} (h : other ≠ key) :
    (members.set other value).set key new = (members.set key new).set other value := by
  simp only [set, List.map_map]
  refine List.map_congr_left fun member _ => ?_
  by_cases same : member.1 = key
  · simp [same, Ne.symm h]
  · by_cases same' : member.1 = other <;> simp [same, same', h]

theorem set_inj {new : Json} (mem : key ∈ members.keys) :
    members.set key value = members.set key new ↔ value = new := by
  obtain ⟨old, found⟩ := Option.isSome_iff_exists.1 (get?_isSome_iff.2 mem)
  constructor
  · intro same
    have through := congrArg (get? · key) same
    simpa only [get?_set_self found, Option.some.injEq] using through
  · exact congrArg _

theorem set_append (before after : Members) :
    set (before ++ after) key value = before.set key value ++ after.set key value :=
  List.map_append

theorem set_singleton_self {new : Json} : set [(key, value)] key new = [(key, new)] := by
  simp [set]

theorem set_singleton_ne {new : Json} (h : other ≠ key) :
    set [(other, value)] key new = [(other, value)] := by
  simp [set, h]

theorem insert_insert {new : Json} :
    (members.insert key value).insert key new = members.insert key new := by
  have present : key ∈ (members.insert key value).keys :=
    get?_isSome_iff.1 (Option.isSome_iff_exists.2 ⟨value, get?_insert_self⟩)
  rw [insert_of_mem present]
  by_cases mem : key ∈ members.keys
  · rw [insert_of_mem mem, insert_of_mem mem, set_set]
  · rw [insert_of_notMem mem, insert_of_notMem mem, set_append, set_of_notMem mem,
      set_singleton_self]

theorem insert_comm {new : Json} (mem : key ∈ members.keys) (h : other ≠ key) :
    (members.insert other value).insert key new = (members.insert key new).insert other value := by
  have present : key ∈ (members.insert other value).keys := by
    rw [← get?_isSome_iff, get?_insert_ne (Ne.symm h), get?_isSome_iff]
    exact mem
  rw [insert_of_mem present, insert_of_mem mem]
  by_cases mem' : other ∈ members.keys
  · rw [insert_of_mem mem', insert_of_mem (keys_set.symm ▸ mem'), set_comm h]
  · rw [insert_of_notMem mem', insert_of_notMem (keys_set.symm ▸ mem'), set_append,
      set_singleton_ne h]

theorem get?_erase_self : (members.erase key).get? key = none := by
  rw [get?_eq_none_iff, keys, erase, List.mem_map]
  intro kept
  obtain ⟨member, listed, same⟩ := kept
  simp [same] at listed

theorem get?_erase_ne (h : other ≠ key) : (members.erase key).get? other = members.get? other :=
  lookup_filter_ne h

theorem erase_of_notMem (h : key ∉ members.keys) : members.erase key = members := by
  rw [erase, List.filter_eq_self]
  intro member listed
  have apart : member.1 ≠ key := by
    intro same
    exact h (List.mem_map.2 ⟨member, listed, same⟩)
  simpa using apart

theorem erase_append (before after : Members) :
    erase (before ++ after) key = before.erase key ++ after.erase key :=
  List.filter_append before after

theorem erase_set_comm :
    (members.set other value).erase key = (members.erase key).set other value := by
  rw [erase, set, erase, set, List.filter_map]
  congr 1
  refine List.filter_congr fun member _ => ?_
  by_cases same : member.1 = other
  · simp [same]
  · simp [same]

theorem erase_insert_self : (members.insert key value).erase key = members.erase key := by
  by_cases mem : key ∈ members.keys
  · rw [insert_of_mem mem, erase_set]
  · rw [insert_of_notMem mem, erase_append]
    simp [erase]

theorem erase_insert_ne (h : other ≠ key) :
    (members.insert other value).erase key = (members.erase key).insert other value := by
  have same : other ∈ (members.erase key).keys ↔ other ∈ members.keys := by
    rw [← get?_isSome_iff, ← get?_isSome_iff, get?_erase_ne h]
  by_cases mem : other ∈ members.keys
  · rw [insert_of_mem mem, insert_of_mem (same.2 mem), erase_set_comm]
  · rw [insert_of_notMem mem, insert_of_notMem (mt same.1 mem), erase_append]
    simp [erase, h]

theorem exists_split (nodup : members.keys.Nodup) (found : members.get? key = some value) :
    ∃ front back, members = front ++ (key, value) :: back ∧ key ∉ keys (front ++ back) ∧
      (∀ new, members.set key new = front ++ (key, new) :: back) ∧
      members.erase key = front ++ back := by
  obtain ⟨front, back, rfl, -⟩ := List.lookup_eq_some_iff.1 found
  rw [keys, List.map_append, List.map_cons, List.nodup_middle, List.nodup_cons, List.mem_append,
    not_or] at nodup
  obtain ⟨⟨absent, absent'⟩, -⟩ := nodup
  refine ⟨front, back, rfl, ?_, ?_, ?_⟩
  · rw [keys, List.map_append, List.mem_append, not_or]
    exact ⟨absent, absent'⟩
  · intro new
    have rest : set ((key, value) :: back) key new = (key, new) :: set back key new := by
      simp [set]
    rw [set_append, set_of_notMem absent, rest, set_of_notMem absent']
  · have rest : erase ((key, value) :: back) key = erase back key := by simp [erase]
    rw [erase_append, erase_of_notMem absent, rest, erase_of_notMem absent']

end DocModel.Json.Members
