import DocModel.Proofs.Definition.Document

namespace DocModel.Definition

namespace Entry

variable {α : Type} {members : Json.Members} {entry after : Entry} {key : String}

/-- A member touches no part of the entry but the one of its key. -/
theorem kept_of_addMember {value : Json} (h : addMember entry key value = .ok after) :
    (key ≠ "type" → after.type = entry.type) ∧ (key ≠ "min" → after.min = entry.min) ∧
      (key ≠ "max" → after.max = entry.max) := by
  unfold addMember at h
  split at h
  case h_3 | h_11 =>
    cases h
    exact ⟨fun _ => rfl, fun _ => rfl, fun _ => rfl⟩
  all_goals
    obtain ⟨_, -, h⟩ := bind_eq_ok.1 h
    cases h
    simp

/-- A part of the entry is what is read from the member of one key. -/
structure StatedBy (key : String) (read : Json → Except FieldFault α) (part : Entry → α) :
    Prop where
  own : ∀ {entry after value}, addMember entry key value = .ok after → read value = .ok (part after)
  others : ∀ {entry after other value}, addMember entry other value = .ok after → other ≠ key →
    part after = part entry

theorem stated_type : StatedBy "type" (optional string) Entry.type where
  own h := by
    obtain ⟨type, read, h⟩ := bind_eq_ok.1 h
    cases h
    exact read
  others h := (kept_of_addMember h).1

theorem stated_min : StatedBy "min" (optional limit) Entry.min where
  own h := by
    obtain ⟨min, read, h⟩ := bind_eq_ok.1 h
    cases h
    exact read
  others h := (kept_of_addMember h).2.1

theorem stated_max : StatedBy "max" (optional limit) Entry.max where
  own h := by
    obtain ⟨max, read, h⟩ := bind_eq_ok.1 h
    cases h
    exact read
  others h := (kept_of_addMember h).2.2

theorem StatedBy.foldlM {read : Json → Except FieldFault α} {part : Entry → α}
    (stated : StatedBy key read part) (nodup : members.keys.Nodup)
    (run : members.foldlM (fun entry (key, value) => addMember entry key value) entry = .ok after) :
    (∀ value, members.get? key = some value → read value = .ok (part after)) ∧
      (members.get? key = none → part after = part entry) := by
  induction members generalizing entry with
  | nil =>
    cases run
    exact ⟨fun value found => absurd found (by simp [Json.Members.get?]), fun _ => rfl⟩
  | cons member rest ih =>
    obtain ⟨name, given⟩ := member
    rw [List.foldlM_cons, bind_eq_ok] at run
    obtain ⟨next, first, run⟩ := run
    rw [Json.Members.keys, List.map_cons, List.nodup_cons] at nodup
    obtain ⟨present, absent⟩ := ih nodup.2 run
    rw [Json.Members.get?, lookup_cons_eq_ite]
    by_cases same : key = name
    · subst same
      rw [if_pos rfl]
      constructor
      · intro value found
        cases found
        rw [absent (Json.Members.get?_eq_none_iff.2 nodup.1)]
        exact stated.own first
      · intro none
        cases none
    · rw [if_neg same]
      exact ⟨present, fun none => (absent none).trans (stated.others first (Ne.symm same))⟩

theorem stated_of_ofJson {rules : Entry} {read : Json → Except FieldFault α} {part : Entry → α}
    (stated : StatedBy key read part) (nodup : members.keys.Nodup)
    (h : ofJson (.obj members) = .ok rules) :
    (∀ value, members.get? key = some value → read value = .ok (part rules)) ∧
      (members.get? key = none → part rules = part {}) :=
  stated.foldlM nodup h

theorem limit_of_ofJson {rules : Entry} {part : Entry → Option Binary64} {stated : Option Json.Number}
    (reads : StatedBy key (optional limit) part) (nodup : members.keys.Nodup)
    (h : ofJson (.obj members) = .ok rules) (blank : part {} = none)
    (given : members.get? key = stated.map .num) :
    part rules = stated.map Json.Number.toBinary64 := by
  obtain ⟨present, absent⟩ := stated_of_ofJson reads nodup h
  cases stated with
  | none => exact (absent given).trans blank
  | some n => exact (Except.ok.inj (present _ given)).symm

end Entry

end DocModel.Definition
