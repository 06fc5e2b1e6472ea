import Mathlib.Data.List.Nodup
import DocModel.Log.Record
import DocModel.Proofs.Json.Reread
import DocModel.Proofs.Text.Bytes

namespace DocModel

namespace Json.Members

variable {members : Members} {fields : List (String × String)} {key text : String}

/-- Inserts one text after the other. -/
def insertTexts (members : Members) (fields : List (String × String)) : Members :=
  fields.foldl (fun members (key, value) => members.insert key (.str value)) members

theorem Textual.insert (textual : members.Textual) : (members.insert key (.str text)).Textual := by
  by_cases mem : key ∈ members.keys
  · rw [insert_of_mem mem, set]
    refine List.forall_mem_map.2 fun member listed => ?_
    split
    · exact ⟨text, rfl⟩
    · exact textual member listed
  · rw [insert_of_notMem mem]
    exact List.forall_mem_append.2 ⟨textual, List.forall_mem_singleton.2 ⟨text, rfl⟩⟩

theorem Textual.insertTexts (textual : members.Textual) (fields : List (String × String)) :
    (members.insertTexts fields).Textual := by
  induction fields generalizing members with
  | nil => exact textual
  | cons field fields ih => exact ih textual.insert

theorem nodup_keys_insertTexts (distinct : members.keys.Nodup) (fields : List (String × String)) :
    (members.insertTexts fields).keys.Nodup := by
  induction fields generalizing members with
  | nil => exact distinct
  | cons field fields ih => exact ih (nodup_keys_insert distinct)

theorem keys_insertTexts {reserved names : List String}
    (sorted : fields.Pairwise fun a b => a.1 ≤ b.1) (listed : members.keys = reserved ++ names)
    (ascending : names.Pairwise fun a b => Text.bytes a < Text.bytes b)
    (below : ∀ name ∈ names, ∀ field ∈ fields, name ≤ field.1) :
    ∃ names, (members.insertTexts fields).keys = reserved ++ names ∧
      names.Pairwise fun a b => Text.bytes a < Text.bytes b := by
  induction fields generalizing members names with
  | nil => exact ⟨names, listed, ascending⟩
  | cons field fields ih =>
    obtain ⟨key, text⟩ := field
    obtain ⟨first, sorted⟩ := List.pairwise_cons.1 sorted
    have behind : ∀ name ∈ names, ∀ field ∈ fields, name ≤ field.1 :=
      fun name mem field later => below name mem field (List.mem_cons_of_mem _ later)
    have inserted : (members.insert key (.str text)).keys = _ := keys_insert
    by_cases present : key ∈ members.keys
    · rw [if_pos present, listed] at inserted
      exact ih sorted inserted ascending behind
    · rw [if_neg present, listed, List.append_assoc] at inserted
      refine ih sorted inserted ?_ ?_
      · have lesser : ∀ name ∈ names, Text.bytes name < Text.bytes key := by
          intro name mem
          refine Text.bytes_lt_of_le_of_ne (below name mem _ List.mem_cons_self) ?_
          rintro rfl
          exact present (listed ▸ List.mem_append_right _ mem)
        simpa [List.pairwise_append] using ⟨ascending, lesser⟩
      · intro name mem field later
        obtain mem | mem := List.mem_append.1 mem
        · exact behind name mem field later
        · rw [List.mem_singleton.1 mem]
          exact first field later

end Json.Members

namespace Log

theorem atLeast_trace (records : List Record) : atLeast .trace records = records :=
  List.filter_eq_self.2 fun _ _ => decide_eq_true (Nat.zero_le _)

/-- The value of the last of the pairs with a key. -/
def lastOf? (fields : List (String × String)) (key : String) : Option String :=
  (fields.filter (·.1 == key)).getLast?.map (·.2)

theorem lastOf?_cons (field : String × String) (fields : List (String × String)) (key : String) :
    lastOf? (field :: fields) key =
      (lastOf? fields key).or (if field.1 = key then some field.2 else none) := by
  unfold lastOf?
  by_cases same : field.1 = key
  · simp only [List.filter_cons, same, beq_self_eq_true, if_true, List.getLast?_cons]
    cases (fields.filter (·.1 == key)).getLast? <;> rfl
  · simp [same]

theorem get?_insertTexts (members : Json.Members) (fields : List (String × String)) (key : String) :
    (members.insertTexts fields).get? key =
      ((lastOf? fields key).map .str).or (members.get? key) := by
  induction fields generalizing members with
  | nil => rfl
  | cons field fields ih =>
    obtain ⟨other, text⟩ := field
    have step : ((members.insert other (.str text)).insertTexts fields).get? key = _ := ih _
    have stands : (members.insert other (.str text)).get? key =
        ((if other = key then some text else none).map .str).or (members.get? key) := by
      by_cases same : other = key
      · simp [same, Json.Members.get?_insert_self]
      · simp [same, Json.Members.get?_insert_ne (Ne.symm same)]
    rw [lastOf?_cons, Option.map_or, Option.or_assoc, ← stands]
    exact step

namespace Record

variable {record : Record}

theorem le_trans_fields (a b c : String × String) :
    decide (a.1 ≤ b.1) → decide (b.1 ≤ c.1) → decide (a.1 ≤ c.1) := by
  simpa using String.le_trans

theorem le_total_fields (a b : String × String) : decide (a.1 ≤ b.1) || decide (b.1 ≤ a.1) := by
  simpa using String.le_total a.1 b.1

theorem perm_sortedFields (record : Record) : record.sortedFields.Perm record.fields :=
  List.mergeSort_perm _ _

theorem pairwise_sortedFields (record : Record) :
    record.sortedFields.Pairwise fun a b => a.1 ≤ b.1 := by
  have sorted := List.pairwise_mergeSort le_trans_fields le_total_fields record.fields
  exact sorted.imp of_decide_eq_true

theorem filter_sortedFields (record : Record) (key : String) :
    record.sortedFields.filter (·.1 == key) = record.fields.filter (·.1 == key) := by
  have alike : (record.fields.filter (·.1 == key)).Pairwise fun a b => decide (a.1 ≤ b.1) := by
    refine List.pairwise_of_forall_mem_list fun a mem b mem' => ?_
    have same : a.1 = key := by simpa using (List.mem_filter.1 mem).2
    have same' : b.1 = key := by simpa using (List.mem_filter.1 mem').2
    simp [same, same']
  have kept : (record.fields.filter (·.1 == key)).Sublist
      (record.sortedFields.filter (·.1 == key)) := by
    have among : (record.fields.filter (·.1 == key)).Sublist record.sortedFields :=
      List.sublist_mergeSort le_trans_fields le_total_fields alike List.filter_sublist
    simpa using among.filter (·.1 == key)
  exact (kept.eq_of_length (record.perm_sortedFields.filter _).length_eq.symm).symm

/-- The order of fields under distinct keys is of no account. -/
theorem sortedFields_of_perm {other : Record} (perm : record.fields.Perm other.fields)
    (distinct : (record.fields.map (·.1)).Nodup) : record.sortedFields = other.sortedFields := by
  have perm' : record.sortedFields.Perm other.sortedFields :=
    record.perm_sortedFields.trans (perm.trans other.perm_sortedFields.symm)
  refine perm'.eq_of_pairwise ?_ record.pairwise_sortedFields other.pairwise_sortedFields
  intro a b mem mem' le ge
  refine List.inj_on_of_nodup_map distinct (record.perm_sortedFields.mem_iff.1 mem)
    (perm.mem_iff.2 (other.perm_sortedFields.mem_iff.1 mem')) (String.le_antisymm le ge)

/-- The fields that may not be replaced, in their order. -/
def head (record : Record) : Json.Members :=
  [("event", .str record.event), ("severity", .str record.severity.text)]

/-- The fields under other keys, by ascending key. -/
def free (record : Record) : List (String × String) :=
  record.sortedFields.filter fun field => field.1 != "event" && field.1 != "severity"

theorem toJson_eq (record : Record) : record.toJson = .obj (record.head.insertTexts record.free) :=
  rfl

theorem lastOf?_free {key : String} (ordinary : key ≠ "event" ∧ key ≠ "severity") :
    lastOf? record.free key = lastOf? record.fields key := by
  have same : record.free.filter (·.1 == key) = record.fields.filter (·.1 == key) := by
    rw [← record.filter_sortedFields key, free, List.filter_filter]
    refine List.filter_congr fun field _ => ?_
    by_cases same : field.1 = key
    · simp [same, ordinary]
    · simp [same]
  rw [lastOf?, same, lastOf?]

theorem lastOf?_free_reserved {key : String} (reserved : key = "event" ∨ key = "severity") :
    lastOf? record.free key = none := by
  have none : record.free.filter (·.1 == key) = [] := by
    refine List.filter_eq_nil_iff.2 fun field mem => ?_
    have kept := (List.mem_filter.1 mem).2
    obtain rfl | rfl := reserved
    · simp_all
    · simp_all
  rw [lastOf?, none]
  rfl

/-- What can be read of the members of a line: the event and the severity, and after them the other
fields by ascending key, each with the last value that it was given. -/
structure Tells (record : Record) (members : Json.Members) : Prop where
  distinct : members.keys.Nodup
  keys : ∃ names, members.keys = "event" :: "severity" :: names ∧
    names.Pairwise fun a b => Text.bytes a < Text.bytes b
  event : members.get? "event" = some (.str record.event)
  severity : members.get? "severity" = some (.str record.severity.text)
  field : ∀ key, key ≠ "event" → key ≠ "severity" →
    members.get? key = (lastOf? record.fields key).map .str

theorem tells_insertTexts (record : Record) :
    record.Tells (record.head.insertTexts record.free) where
  distinct := Json.Members.nodup_keys_insertTexts (by simp [head, Json.Members.keys]) _
  keys := by
    have sorted : record.free.Pairwise fun a b => a.1 ≤ b.1 :=
      record.pairwise_sortedFields.sublist List.filter_sublist
    have reserved : record.head.keys = ["event", "severity"] ++ [] := rfl
    exact Json.Members.keys_insertTexts sorted reserved .nil (by simp)
  event := by
    rw [get?_insertTexts, lastOf?_free_reserved (.inl rfl)]
    rfl
  severity := by
    rw [get?_insertTexts, lastOf?_free_reserved (.inr rfl)]
    rfl
  field key notEvent notSeverity := by
    have absent : record.head.get? key = none := by
      simp [Json.Members.get?_eq_none_iff, head, Json.Members.keys, notEvent, notSeverity]
    rw [get?_insertTexts, lastOf?_free ⟨notEvent, notSeverity⟩, absent, Option.or_none]

/-- A record is one line, whatever its texts are: the only newline ends it, and from what stands
before it the event, the severity and the last value of each other field are read back, by ascending
key. The order in which fields of distinct keys are given does not change the line. -/
theorem line_tells_record (record : Record) :
    ∃ text members, record.line = text ++ "\n" ∧ '\n' ∉ text.toList ∧
      Json.parse text = .ok (.obj members) ∧ record.Tells members ∧
      ∀ fields, record.fields.Perm fields → (record.fields.map (·.1)).Nodup →
        { record with fields }.line = record.line := by
  have textual : Json.Members.Textual record.head := by
    simp [head, Json.Members.Textual]
  have told := record.tells_insertTexts
  refine ⟨record.toJson.render, _, rfl, Json.newline_notMem_render _, ?_, told, ?_⟩
  · rw [toJson_eq]
    exact Json.parse_render_of_textual (textual.insertTexts _) told.distinct
  · intro fields perm distinct
    have same : record.sortedFields = sortedFields { record with fields } :=
      sortedFields_of_perm perm distinct
    simp only [line, toJson, same]

end Record

end Log

end DocModel
