import Mathlib.Data.List.Nodup
import DocModel.Proofs.Source.Reads

namespace DocModel

/-- The property that a field is, if it is one. -/
def Field.property? : Field → Option Property
  | property p => some p
  | relation _ => none

/-- The relation that a field is, if it is one. -/
def Field.relation? : Field → Option Relation
  | property _ => none
  | relation r => some r

namespace Definition

/-- Adds a field of either kind. -/
def add (definition : Definition) (name : String) : Field → Except SchemaError Definition
  | .property p => definition.addProperty name p
  | .relation r => definition.addRelation name r

/-- Adds fields one after the other. -/
def addAll (definition : Definition) (fields : List (String × Field)) :
    Except SchemaError Definition :=
  fields.foldlM (fun definition (name, field) => definition.add name field) definition

/-- The properties among the fields, in their order. -/
def propertiesOf (fields : List (String × Field)) : List (String × Property) :=
  fields.filterMap fun (name, field) => field.property?.map (name, ·)

/-- The relations among the fields, in their order. -/
def relationsOf (fields : List (String × Field)) : List (String × Relation) :=
  fields.filterMap fun (name, field) => field.relation?.map (name, ·)

/-- The fault of a name that is taken. -/
def repeatFaults (taken : List String) (name field : String) : List SchemaError :=
  if field ∈ taken then [.malformedField name field .repeated] else []

variable {before after : Definition} {name : String} {fields : List (String × Field)}
  {error : SchemaError}

theorem errorOf?_addProperty (before : Definition) (name : String) (p : Property) :
    errorOf? (before.addProperty name p) =
      (repeatFaults before.fieldNames before.name name).head? := by
  unfold addProperty repeatFaults
  split <;> rfl

theorem errorOf?_addRelation (before : Definition) (name : String) (r : Relation) :
    errorOf? (before.addRelation name r) =
      (repeatFaults before.fieldNames before.name name).head? := by
  unfold addRelation repeatFaults
  split <;> rfl

theorem fieldNames_addProperty {p : Property} (h : before.addProperty name p = .ok after) :
    after.fieldNames.Perm (name :: before.fieldNames) := by
  obtain ⟨-, properties, relations⟩ := addProperty_eq_ok h
  rw [fieldNames, fieldNames, properties, relations, List.map_append, List.append_assoc]
  exact List.perm_middle

theorem fieldNames_addRelation {r : Relation} (h : before.addRelation name r = .ok after) :
    after.fieldNames.Perm (name :: before.fieldNames) := by
  obtain ⟨-, properties, relations⟩ := addRelation_eq_ok h
  rw [fieldNames, fieldNames, properties, relations, List.map_append, ← List.append_assoc]
  exact List.perm_append_singleton _ _

theorem errorOf?_add (before : Definition) (name : String) (field : Field) :
    errorOf? (before.add name field) = (repeatFaults before.fieldNames before.name name).head? := by
  cases field with
  | property p => exact errorOf?_addProperty before name p
  | relation r => exact errorOf?_addRelation before name r

theorem add_eq_error_iff {field : Field} :
    before.add name field = .error error ↔
      name ∈ before.fieldNames ∧ error = .malformedField before.name name .repeated := by
  rw [← errorOf?_eq_some, errorOf?_add, repeatFaults]
  by_cases taken : name ∈ before.fieldNames
  · simp [taken, eq_comm]
  · simp [taken]

theorem fieldNames_add {field : Field} (h : before.add name field = .ok after) :
    after.fieldNames.Perm (name :: before.fieldNames) := by
  cases field with
  | property p => exact fieldNames_addProperty h
  | relation r => exact fieldNames_addRelation h

theorem add_eq_ok_iff {field : Field} :
    before.add name field = .ok after ↔
      before.Extends (propertiesOf [(name, field)]) (relationsOf [(name, field)]) after := by
  cases field with
  | property p => exact addProperty_eq_ok_iff
  | relation r => exact addRelation_eq_ok_iff

theorem addAll_eq_ok_iff :
    before.addAll fields = .ok after ↔
      before.Extends (propertiesOf fields) (relationsOf fields) after := by
  induction fields generalizing before with
  | nil =>
    rw [addAll, List.foldlM_nil]
    simp only [pure, Except.pure, Except.ok.injEq]
    exact extends_nil_iff.symm
  | cons field fields ih =>
    obtain ⟨name, field⟩ := field
    have properties : propertiesOf ((name, field) :: fields) =
        propertiesOf [(name, field)] ++ propertiesOf fields :=
      List.filterMap_append (l := [(name, field)])
    have relations : relationsOf ((name, field) :: fields) =
        relationsOf [(name, field)] ++ relationsOf fields :=
      List.filterMap_append (l := [(name, field)])
    rw [properties, relations, extends_append_iff, addAll, List.foldlM_cons, bind_eq_ok]
    exact exists_congr fun next => and_congr add_eq_ok_iff ih

theorem fieldNames_addAll (h : before.addAll fields = .ok after) :
    after.fieldNames.Perm (before.fieldNames ++ fields.map (·.1)) := by
  induction fields generalizing before with
  | nil =>
    cases h
    simp
  | cons field fields ih =>
    rw [addAll, List.foldlM_cons, bind_eq_ok] at h
    obtain ⟨next, added, rest⟩ := h
    have grown := (fieldNames_add added).append_right (fields.map (·.1))
    exact (ih rest).trans (grown.trans List.perm_middle.symm)

theorem exists_addAll_iff :
    (∃ after, before.addAll fields = .ok after) ↔
      (before.fieldNames ++ fields.map (·.1)).Nodup := by
  constructor
  · intro added
    obtain ⟨after, added⟩ := added
    exact (fieldNames_addAll added).nodup_iff.1 after.nodup
  · intro nodup
    cases added : before.addAll fields with
    | ok after => exact ⟨after, rfl⟩
    | error error =>
      obtain ⟨front, field, rest, middle, rfl, reached, failed⟩ := foldlM_eq_error.1 added
      have taken : field.1 ∈ middle.fieldNames := (add_eq_error_iff.1 failed).1
      rw [(fieldNames_addAll reached).mem_iff] at taken
      rw [List.map_append, ← List.append_assoc, List.map_cons, List.nodup_middle,
        List.nodup_cons, List.mem_append] at nodup
      exact absurd (.inl taken) nodup.1

theorem addAll_eq_error_iff :
    before.addAll fields = .error error ↔
      ∃ front field rest, fields = front ++ field :: rest ∧
        (before.fieldNames ++ front.map (·.1)).Nodup ∧
        field.1 ∈ before.fieldNames ++ front.map (·.1) ∧
        error = .malformedField before.name field.1 .repeated := by
  have settled : ∀ front middle, before.addAll front = .ok middle →
      middle.name = before.name ∧ ∀ other,
        other ∈ middle.fieldNames ↔ other ∈ before.fieldNames ++ front.map (·.1) :=
    fun front middle reached =>
      ⟨(addAll_eq_ok_iff.1 reached).name, fun _ => (fieldNames_addAll reached).mem_iff⟩
  rw [addAll, foldlM_eq_error]
  constructor
  · intro failed
    obtain ⟨front, field, rest, middle, same, reached, failed⟩ := failed
    obtain ⟨named, known⟩ := settled front middle reached
    obtain ⟨taken, rfl⟩ := add_eq_error_iff.1 failed
    refine ⟨front, field, rest, same, exists_addAll_iff.1 ⟨middle, reached⟩, (known _).1 taken, ?_⟩
    rw [named]
  · intro failed
    obtain ⟨front, field, rest, same, nodup, taken, rfl⟩ := failed
    obtain ⟨middle, reached⟩ := exists_addAll_iff.2 nodup
    obtain ⟨named, known⟩ := settled front middle reached
    refine ⟨front, field, rest, middle, same, reached, ?_⟩
    exact add_eq_error_iff.2 ⟨(known _).2 taken, by rw [named]⟩

end Definition

end DocModel
