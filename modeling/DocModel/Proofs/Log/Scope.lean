import DocModel.Log.Scope
import DocModel.Proofs.Log.Line

namespace DocModel.Log

/-- The line is an object with these members, ended by its only newline. -/
def Shows (line : String) (members : Json.Members) : Prop :=
  ∃ text, line = text ++ "\n" ∧ '\n' ∉ text.toList ∧ Json.parse text = .ok (.obj members)

/-- Each field stands among the members with its value. -/
def Repeats (members : Json.Members) (fields : List (String × String)) : Prop :=
  ∀ field ∈ fields, members.get? field.1 = some (.str field.2)

section

variable {line : String} {members others : Json.Members} {fields : List (String × String)}
  {field : String × String} {key : String}

theorem Shows.unique (h : Shows line members) (h' : Shows line others) : members = others := by
  obtain ⟨text, rfl, -, parsed⟩ := h
  obtain ⟨text', same, -, parsed'⟩ := h'
  obtain rfl : text = text' := by simpa using same
  rw [parsed] at parsed'
  cases parsed'
  rfl

theorem lastOf?_append (fields others : List (String × String)) (key : String) :
    lastOf? (fields ++ others) key = (lastOf? others key).or (lastOf? fields key) := by
  induction fields with
  | nil => simp [lastOf?]
  | cons field fields ih => rw [List.cons_append, lastOf?_cons, lastOf?_cons, ih, Option.or_assoc]

theorem lastOf?_eq_none (h : key ∉ fields.map (·.1)) : lastOf? fields key = none := by
  have none : fields.filter (·.1 == key) = [] := by
    refine List.filter_eq_nil_iff.2 fun field mem same => h ?_
    exact List.mem_map.2 ⟨field, mem, beq_iff_eq.1 same⟩
  rw [lastOf?, none]
  rfl

theorem lastOf?_of_mem (distinct : (fields.map (·.1)).Nodup) (mem : field ∈ fields) :
    lastOf? fields field.1 = some field.2 := by
  induction fields with
  | nil => cases mem
  | cons first fields ih =>
    obtain ⟨fresh, distinct⟩ := List.nodup_cons.1 distinct
    rw [lastOf?_cons]
    obtain rfl | mem := List.mem_cons.1 mem
    · rw [lastOf?_eq_none fresh]
      simp
    · rw [ih distinct mem]
      rfl

end

namespace Record

variable {record : Record} {members : Json.Members}

theorem exists_shows (record : Record) :
    ∃ members, Shows record.line members ∧ record.Tells members := by
  have textual : record.head.Textual := by simp [head, Json.Members.Textual]
  have told := record.tells_insertTexts
  refine ⟨_, ⟨record.toJson.render, rfl, Json.newline_notMem_render _, ?_⟩, told⟩
  rw [toJson_eq]
  exact Json.parse_render_of_textual (textual.insertTexts _) told.distinct

theorem Tells.repeats {fields more : List (String × String)} (h : record.Tells members)
    (split : record.fields = fields ++ more) (distinct : (fields.map (·.1)).Nodup)
    (free : ∀ key ∈ fields.map (·.1), key ≠ "event" ∧ key ≠ "severity")
    (apart : ∀ key ∈ fields.map (·.1), key ∉ more.map (·.1)) : Repeats members fields := by
  intro field mem
  have key : field.1 ∈ fields.map (·.1) := List.mem_map_of_mem mem
  obtain ⟨notEvent, notSeverity⟩ := free _ key
  rw [h.field _ notEvent notSeverity, split, lastOf?_append, lastOf?_eq_none (apart _ key),
    lastOf?_of_mem distinct mem]
  rfl

end Record

namespace Scope

/-- What the event at an end adds to the name of the scope. -/
def End.suffix : End → String
  | complete _ => "_COMPLETE"
  | failed _ => "_FAILED"
  | dropped => "_INCOMPLETE"

/-- The fields that are given when the end is reported. -/
def End.extra : End → List (String × String)
  | complete extra => extra
  | _ => []

def keys (scope : Scope) : List String := scope.fields.map (·.1)

/-- The fields of a scope have distinct keys, none of which a record uses for itself or is among
those that are given in the end. -/
structure Plain (scope : Scope) (ending : End) : Prop where
  distinct : scope.keys.Nodup
  free : ∀ key ∈ ["event", "severity", "reason", "elapsed_ms"], key ∉ scope.keys
  apart : ∀ key ∈ ending.extra.map (·.1), key ∉ scope.keys

theorem records_eq (scope : Scope) (elapsed : String) (ending : End) :
    scope.records elapsed ending = [scope.beginRecord, scope.endRecord elapsed ending] := by
  cases ending <;> rfl

theorem event_endRecord (scope : Scope) (elapsed : String) (ending : End) :
    (scope.endRecord elapsed ending).event = scope.name ++ ending.suffix := by
  cases ending <;> rfl

section

variable {scope : Scope} {elapsed : String} {ending : End} {members : Json.Members}

theorem Plain.ne (plain : scope.Plain ending) {key used : String} (mem : key ∈ scope.keys)
    (reserved : used ∈ ["event", "severity", "reason", "elapsed_ms"]) : key ≠ used := by
  rintro rfl
  exact plain.free _ reserved mem

theorem Plain.repeats {record : Record} {more : List (String × String)}
    (plain : scope.Plain ending) (split : record.fields = scope.fields ++ more)
    (apart : ∀ key ∈ more.map (·.1), key ∉ scope.keys) (tells : record.Tells members) :
    Repeats members scope.fields := by
  refine tells.repeats split plain.distinct ?_ fun key mem added => apart key added mem
  intro key mem
  exact ⟨plain.ne mem (by simp), plain.ne mem (by simp)⟩

theorem Plain.repeats_begin (plain : scope.Plain ending) (tells : scope.beginRecord.Tells members) :
    Repeats members scope.fields :=
  plain.repeats (List.append_nil _).symm (by simp) tells

theorem Plain.repeats_end (plain : scope.Plain ending) (reported : ending ≠ .dropped)
    (tells : (scope.endRecord elapsed ending).Tells members) : Repeats members scope.fields := by
  cases ending with
  | complete extra =>
    refine plain.repeats (List.append_assoc ..) ?_ tells
    have added : ∀ key ∈ extra.map (·.1), key ∉ scope.keys := plain.apart
    simpa [or_imp, forall_and] using And.intro added (plain.free "elapsed_ms" (by simp))
  | failed reason =>
    refine plain.repeats rfl ?_ tells
    simpa using plain.free "reason" (by simp)
  | dropped => exact absurd rfl reported

theorem Plain.fields_eq_nil (plain : scope.Plain .dropped)
    (tells : (scope.endRecord elapsed .dropped).Tells members)
    (repeats : Repeats members scope.fields) : scope.fields = [] := by
  refine List.eq_nil_iff_forall_not_mem.2 fun field mem => ?_
  have key : field.1 ∈ scope.keys := List.mem_map_of_mem mem
  have found := repeats field mem
  have untold : lastOf? (scope.endRecord elapsed .dropped).fields field.1 = none :=
    lastOf?_eq_none (by simpa [endRecord] using plain.ne key (by simp))
  rw [tells.field _ (plain.ne key (by simp)) (plain.ne key (by simp)), untold] at found
  cases found

end

/-- At the lowest level a scope is shown in two lines, when it begins and when it ends. The first
one repeats its fields; the second one does if the end was reported, and otherwise only if there are
no fields. -/
theorem shown_at_both_ends {scope : Scope} {ending : End} (plain : scope.Plain ending)
    (elapsed : String) :
    ∃ first last opened closed,
      (atLeast .trace (scope.records elapsed ending)).map Record.line = [first, last] ∧
      Shows first opened ∧ Shows last closed ∧
      opened.get? "event" = some (.str (scope.name ++ "_BEGIN")) ∧
      closed.get? "event" = some (.str (scope.name ++ ending.suffix)) ∧
      Repeats opened scope.fields ∧
      (Repeats closed scope.fields ↔ (ending = .dropped → scope.fields = [])) := by
  obtain ⟨opened, showsFirst, tellsFirst⟩ := scope.beginRecord.exists_shows
  obtain ⟨closed, showsLast, tellsLast⟩ := (scope.endRecord elapsed ending).exists_shows
  refine ⟨_, _, opened, closed, ?_, showsFirst, showsLast, tellsFirst.event, ?_,
    plain.repeats_begin tellsFirst, ?_, ?_⟩
  · rw [atLeast_trace, records_eq]
    rfl
  · rw [tellsLast.event, event_endRecord]
  · rintro repeats rfl
    exact plain.fields_eq_nil tellsLast repeats
  · intro empty
    by_cases dropped : ending = .dropped
    · rw [empty dropped]
      exact fun _ mem => absurd mem List.not_mem_nil
    · exact plain.repeats_end dropped tellsLast

/-- A compilation as it is logged. -/
def compilePost : Scope := ⟨"COMPILE", [("type", "Post"), ("root", "defs")]⟩

theorem shown_at_both_ends_compilePost :
    ∃ first last opened closed,
      (atLeast .trace (compilePost.records "12" (.complete [("fields", "3")]))).map Record.line =
        [first, last] ∧
      Shows first opened ∧ Shows last closed ∧
      closed.get? "event" = some (.str "COMPILE_COMPLETE") ∧
      Repeats opened compilePost.fields ∧ Repeats closed compilePost.fields := by
  have plain : compilePost.Plain (.complete [("fields", "3")]) := by
    constructor <;> decide
  obtain ⟨first, last, opened, closed, lines, showsFirst, showsLast, -, event, repeats, repeated⟩ :=
    shown_at_both_ends plain "12"
  exact ⟨first, last, opened, closed, lines, showsFirst, showsLast, event, repeats,
    repeated.2 nofun⟩

/-- The last line of a scope that is dropped tells nothing of its fields. -/
theorem dropped_without_fields :
    ¬ ∀ line ∈ (atLeast .trace (compilePost.records unmeasured .dropped)).map Record.line,
      ∃ members, Shows line members ∧ Repeats members compilePost.fields := by
  intro all
  have mem : (compilePost.endRecord unmeasured .dropped).line ∈
      (atLeast .trace (compilePost.records unmeasured .dropped)).map Record.line := by
    rw [atLeast_trace, records_eq]
    exact List.mem_cons_of_mem _ List.mem_cons_self
  obtain ⟨members, shows, repeats⟩ := all _ mem
  obtain ⟨told, shows', tells⟩ := (compilePost.endRecord unmeasured .dropped).exists_shows
  rw [shows.unique shows'] at repeats
  have type := repeats ("type", "Post") List.mem_cons_self
  rw [tells.field "type" (by decide) (by decide)] at type
  cases type

end Scope

end DocModel.Log
