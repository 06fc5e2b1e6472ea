import DocModel.Definition.Reader
import DocModel.Proofs.Choice

namespace DocModel

namespace Definition

namespace Entry

/-- The declared type, which is empty if there is none. -/
def typeName (entry : Entry) : String := entry.type.getD ""

/-- The entry states the rules of a property. -/
structure IsProperty (entry : Entry) : Prop where
  typed : entry.typeName ≠ ""
  plain : RelationKind.ofName? entry.typeName = none
  choices : ∀ items, entry.choices = some items →
    items ≠ [] ∧ ∀ item ∈ items, Choice.Declared item
  range : ∀ min max, entry.min = some min → entry.max = some max → min ≤ max

/-- The entry states the rules of a relation. -/
structure IsRelation (entry : Entry) : Prop where
  typed : entry.typeName ≠ ""
  kind : ∃ kind, RelationKind.ofName? entry.typeName = some kind ∧
    (entry.key.isSome → kind = .embeds .keyed)
  model : ∃ model, entry.model = some model ∧ model ≠ ""

def typeFaults (entry : Entry) : List FieldFault :=
  if entry.typeName = "" then [.missingType] else []

def choiceFaults (declared : Option (List Json)) : List FieldFault :=
  (declared.toList.flatMap Choice.faults).map .choices

def rangeFaults : Option Binary64 → Option Binary64 → List FieldFault
  | some min, some max => if max < min then [.emptyRange min max] else []
  | _, _ => []

def modelFaults (entry : Entry) : List FieldFault :=
  if entry.model.getD "" = "" then [.missingModel] else []

def keyFaults (entry : Entry) : List FieldFault :=
  if entry.key.isSome ∧ RelationKind.ofName? entry.typeName ≠ some (.embeds .keyed) then
    [.keyNotAllowed]
  else []

/-- What is wrong with an entry as a property, in the order in which it is looked for. -/
def propertyFaults (name field : String) (entry : Entry) : List SchemaError :=
  entry.typeFaults.map (.malformedField name field) ++
    ((if (RelationKind.ofName? entry.typeName).isSome then
        [.unknownFieldType name field entry.typeName] else []) ++
      (choiceFaults entry.choices ++ rangeFaults entry.min entry.max).map
        (.malformedField name field))

/-- What is wrong with an entry as a relation, in the order in which it is looked for. -/
def relationFaults (name field : String) (entry : Entry) : List SchemaError :=
  entry.typeFaults.map (.malformedField name field) ++
    ((if RelationKind.ofName? entry.typeName = none then
        [.unknownFieldType name field entry.typeName] else []) ++
      (entry.modelFaults ++ entry.keyFaults).map (.malformedField name field))

theorem typeFaults_eq_nil_iff {entry : Entry} : entry.typeFaults = [] ↔ entry.typeName ≠ "" := by
  simp [typeFaults]

theorem choiceFaults_eq_nil_iff {declared : Option (List Json)} :
    choiceFaults declared = [] ↔
      ∀ items, declared = some items → items ≠ [] ∧ ∀ item ∈ items, Choice.Declared item := by
  cases declared <;> simp [choiceFaults, Choice.faults_eq_nil_iff]

theorem modelFaults_eq_nil_iff {entry : Entry} :
    entry.modelFaults = [] ↔ ∃ model, entry.model = some model ∧ model ≠ "" := by
  cases given : entry.model <;> simp [modelFaults, given]

theorem rangeFaults_eq_nil_iff {min max : Option Binary64} :
    rangeFaults min max = [] ↔ ∀ least most, min = some least → max = some most → least ≤ most := by
  cases min with
  | none => simp [rangeFaults]
  | some min =>
    cases max with
    | none => simp [rangeFaults]
    | some max =>
      have order : max < min ↔ ¬ min ≤ max := Int.not_le.symm
      simp [rangeFaults, order]

theorem propertyFaults_eq_nil_iff (name field : String) (entry : Entry) :
    propertyFaults name field entry = [] ↔ entry.IsProperty := by
  simp only [propertyFaults, List.append_eq_nil_iff, List.map_eq_nil_iff, typeFaults_eq_nil_iff,
    choiceFaults_eq_nil_iff, rangeFaults_eq_nil_iff, ite_eq_right_iff, List.cons_ne_nil, imp_false,
    Bool.not_eq_true, Option.isSome_eq_false_iff, Option.isNone_iff_eq_none]
  constructor
  · intro sound
    obtain ⟨typed, plain, choices, range⟩ := sound
    exact ⟨typed, plain, choices, range⟩
  · intro sound
    exact ⟨sound.typed, sound.plain, sound.choices, sound.range⟩

theorem relationFaults_eq_nil_iff (name field : String) (entry : Entry) :
    relationFaults name field entry = [] ↔ entry.IsRelation := by
  simp only [relationFaults, List.append_eq_nil_iff, List.map_eq_nil_iff, typeFaults_eq_nil_iff,
    modelFaults_eq_nil_iff, keyFaults, ite_eq_right_iff, List.cons_ne_nil, imp_false]
  constructor
  · intro sound
    obtain ⟨typed, known, model, key⟩ := sound
    obtain ⟨kind, same⟩ := Option.ne_none_iff_exists'.1 known
    refine ⟨typed, ⟨kind, same, ?_⟩, model⟩
    intro given
    by_contra other
    exact key ⟨given, by simpa [same] using other⟩
  · intro sound
    obtain ⟨kind, same, key⟩ := sound.kind
    refine ⟨sound.typed, by simp [same], sound.model, ?_⟩
    intro both
    exact both.2 (same.trans (congrArg some (key both.1)))

end Entry

variable {name field : String} {declared : Json}

theorem errorOf?_within {α : Type} {result : Except FieldFault α} {faults : List FieldFault}
    (h : errorOf? result = faults.head?) :
    errorOf? (FieldFault.within name field result) =
      (faults.map (SchemaError.malformedField name field)).head? := by
  rw [FieldFault.within, errorOf?_mapError, h, List.head?_map]

theorem errorOf?_checkRange (min max : Option Binary64) :
    errorOf? (checkRange min max) = (Entry.rangeFaults min max).head? := by
  cases min with
  | none => rfl
  | some min =>
    cases max with
    | none => rfl
    | some max =>
      rw [checkRange, Entry.rangeFaults]
      split <;> rfl

theorem errorOf?_readChoices (declared : Option (List Json)) :
    errorOf? (readChoices declared) = (Entry.choiceFaults declared).head? := by
  cases declared with
  | none => rfl
  | some items =>
    rw [readChoices, errorOf?_map, errorOf?_mapError, Choice.errorOf?_ofList]
    simp [Entry.choiceFaults]

/-- What is wrong with an entry of a section: its members are not of their types, or its rules are
not what they should be. -/
def fieldFaults (own : String → Entry → List SchemaError) (name : String) (entry : String × Json) :
    List SchemaError :=
  match Entry.ofJson entry.2 with
  | .ok rules => own entry.1 rules
  | .error fault => [.malformedField name entry.1 fault]

theorem entry_of_error {fault : FieldFault} (read : Entry.ofJson declared = .error fault) :
    entry name field declared = .error (.malformedField name field fault) := by
  rw [entry, read]
  rfl

theorem entry_of_ok {rules : Entry} (read : Entry.ofJson declared = .ok rules) :
    entry name field declared =
      if rules.typeName = "" then .error (.malformedField name field .missingType)
      else .ok (rules, rules.typeName) := by
  rw [entry, read, Entry.typeName]
  dsimp only [bind, Except.bind]
  cases rules.type with
  | none => rfl
  | some type =>
    simp only [String.isEmpty_iff, Option.getD_some]
    split <;> rfl

theorem errorOf?_entry {rules : Entry} (read : Entry.ofJson declared = .ok rules) :
    errorOf? (entry name field declared) =
      (rules.typeFaults.map (SchemaError.malformedField name field)).head? := by
  rw [entry_of_ok read, Entry.typeFaults]
  split <;> rfl

theorem eq_of_entry_eq_ok {rules : Entry} {entered : Entry × String}
    (read : Entry.ofJson declared = .ok rules) (h : entry name field declared = .ok entered) :
    entered = (rules, rules.typeName) := by
  rw [entry_of_ok read] at h
  split at h
  · cases h
  · cases h
    rfl

theorem errorOf?_property :
    errorOf? (property name field declared) =
      (fieldFaults (Entry.propertyFaults name) name (field, declared)).head? := by
  cases read : Entry.ofJson declared with
  | error fault =>
    rw [property, entry_of_error read, fieldFaults, read]
    rfl
  | ok rules =>
    rw [property, fieldFaults, read]
    refine errorOf?_bind (errorOf?_entry read) ?_
    intro entered same
    obtain rfl := eq_of_entry_eq_ok read same
    dsimp only
    split
    · rfl
    · rw [List.nil_append]
      refine errorOf?_within (errorOf?_bind (errorOf?_readChoices _) fun choices _ => ?_)
      rw [← List.append_nil (Entry.rangeFaults _ _)]
      exact errorOf?_bind (errorOf?_checkRange _ _) fun _ _ => rfl

theorem errorOf?_relation :
    errorOf? (relation name field declared) =
      (fieldFaults (Entry.relationFaults name) name (field, declared)).head? := by
  cases read : Entry.ofJson declared with
  | error fault =>
    rw [relation, entry_of_error read, fieldFaults, read]
    rfl
  | ok rules =>
    rw [relation, fieldFaults, read]
    refine errorOf?_bind (errorOf?_entry read) ?_
    intro entered same
    obtain rfl := eq_of_entry_eq_ok read same
    dsimp only
    cases known : RelationKind.ofName? rules.typeName with
    | none => rfl
    | some kind =>
      dsimp only
      rw [if_neg (Option.some_ne_none kind), List.nil_append]
      refine errorOf?_within ?_
      rw [Entry.modelFaults, Entry.keyFaults, known]
      simp only [String.isEmpty_iff]
      split
      · rfl
      · rw [List.nil_append]
        simp only [ne_eq, Option.some.injEq]
        split <;> rfl

end Definition

end DocModel
