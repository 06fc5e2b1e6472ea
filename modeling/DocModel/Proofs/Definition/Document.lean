import DocModel.Proofs.Definition.Added
import DocModel.Proofs.Definition.Entry
import DocModel.Proofs.Json.Members

namespace DocModel

namespace Definition

/-- The entries of a section, which are none where there is no such section. -/
def sectionEntries (members : Json.Members) (key : String) : Json.Members :=
  match members.get? key with
  | some (.obj entries) => entries
  | _ => []

def nameFaults (name : String) (members : Json.Members) : List SchemaError :=
  match members.get? "name" with
  | none | some (.str _) => []
  | some _ => [.malformedDefinition name .nameNotString]

def sectionFaults (name : String) (members : Json.Members) (key : String) : List SchemaError :=
  match members.get? key with
  | none | some .null | some (.obj _) => []
  | some _ => [.malformedDefinition name (.sectionNotObject key)]

/-- What is wrong with the entries of a section, entry by entry; the names that are taken cannot be
declared again. -/
def entriesFaults (own : String → Entry → List SchemaError) (name : String) (taken : List String)
    (entries : Json.Members) : List SchemaError :=
  entries.flatMap fun entry => fieldFaults own name entry ++ repeatFaults taken name entry.1

/-- What is wrong with a definition document, in the order in which it is looked for. -/
def faults (name : String) : Json → List SchemaError
  | .obj members =>
    nameFaults name members ++ sectionFaults name members "properties" ++
      entriesFaults (Entry.propertyFaults name) name [] (sectionEntries members "properties") ++
      sectionFaults name members "relations" ++
      entriesFaults (Entry.relationFaults name) name (sectionEntries members "properties").keys
        (sectionEntries members "relations")
  | _ => [.malformedDefinition name .notAnObject]

/-- A definition document is an object with a textual name, if any, whose sections are objects, if
any; every entry is that of a field, and no field is declared in both sections. -/
inductive WellFormed : Json → Prop
  | intro {members : Json.Members}
    (named : ∀ value, members.get? "name" = some value → ∃ text, value = .str text)
    (sections : ∀ key ∈ ["properties", "relations"], ∀ value, members.get? key = some value →
      value = .null ∨ ∃ entries, value = .obj entries)
    (properties : ∀ entry ∈ sectionEntries members "properties",
      ∃ rules, Entry.ofJson entry.2 = .ok rules ∧ rules.IsProperty)
    (relations : ∀ entry ∈ sectionEntries members "relations",
      ∃ rules, Entry.ofJson entry.2 = .ok rules ∧ rules.IsRelation)
    (apart : ∀ field ∈ (sectionEntries members "properties").keys,
      field ∉ (sectionEntries members "relations").keys) :
    WellFormed (.obj members)

variable {name key : String} {members entries : Json.Members} {document : Json}
  {before after definition : Definition} {error : SchemaError}

theorem nameFaults_eq_nil_iff :
    nameFaults name members = [] ↔
      ∀ value, members.get? "name" = some value → ∃ text, value = .str text := by
  unfold nameFaults
  cases members.get? "name" with
  | none => simp
  | some value => cases value <;> simp

theorem sectionFaults_eq_nil_iff :
    sectionFaults name members key = [] ↔
      ∀ value, members.get? key = some value → value = .null ∨ ∃ entries, value = .obj entries := by
  unfold sectionFaults
  cases members.get? key with
  | none => simp
  | some value => cases value <;> simp

theorem fieldFaults_eq_nil_iff {own : String → Entry → List SchemaError} {Sound : Entry → Prop}
    (sound : ∀ field rules, own field rules = [] ↔ Sound rules) {entry : String × Json} :
    fieldFaults own name entry = [] ↔ ∃ rules, Entry.ofJson entry.2 = .ok rules ∧ Sound rules := by
  unfold fieldFaults
  cases Entry.ofJson entry.2 <;> simp [sound]

theorem entriesFaults_eq_nil_iff {own : String → Entry → List SchemaError} {Sound : Entry → Prop}
    (sound : ∀ field rules, own field rules = [] ↔ Sound rules) {taken : List String} :
    entriesFaults own name taken entries = [] ↔
      (∀ entry ∈ entries, ∃ rules, Entry.ofJson entry.2 = .ok rules ∧ Sound rules) ∧
        ∀ field ∈ taken, field ∉ entries.keys := by
  have fresh : ∀ field, repeatFaults taken name field = [] ↔ field ∉ taken := by
    simp [repeatFaults]
  simp only [entriesFaults, List.flatMap_eq_nil_iff, List.append_eq_nil_iff,
    fieldFaults_eq_nil_iff sound, fresh, forall_and]
  refine and_congr_right fun _ => ?_
  rw [Json.Members.keys]
  constructor
  · intro apart field mem listed
    obtain ⟨entry, mem', rfl⟩ := List.mem_map.1 listed
    exact apart entry mem' mem
  · intro apart entry mem taken
    exact apart _ taken (List.mem_map_of_mem mem)

theorem faults_eq_nil_iff : faults name document = [] ↔ WellFormed document := by
  cases document with
  | obj members =>
    simp only [faults, List.append_eq_nil_iff, nameFaults_eq_nil_iff, sectionFaults_eq_nil_iff,
      entriesFaults_eq_nil_iff (Entry.propertyFaults_eq_nil_iff name),
      entriesFaults_eq_nil_iff (Entry.relationFaults_eq_nil_iff name)]
    constructor
    · intro sound
      obtain ⟨⟨⟨⟨named, hasProperties⟩, properties, -⟩, hasRelations⟩, relations, apart⟩ := sound
      refine .intro named ?_ properties relations apart
      simpa using And.intro hasProperties hasRelations
    · intro sound
      cases sound with
      | intro named sections properties relations apart =>
        have sections := List.forall_mem_cons.1 sections
        exact ⟨⟨⟨⟨named, sections.1⟩, properties, by simp⟩,
          (List.forall_mem_singleton.1 sections.2)⟩, relations, apart⟩
  | _ =>
    simp only [faults, List.cons_ne_nil, false_iff]
    exact nofun

theorem errorOf?_checkName :
    errorOf? (checkName name members) = (nameFaults name members).head? := by
  unfold checkName nameFaults
  cases members.get? "name" with
  | none => rfl
  | some value => cases value <;> rfl

theorem errorOf?_section :
    errorOf? (section? name members key) = (sectionFaults name members key).head? := by
  unfold section? sectionFaults
  cases members.get? key with
  | none => rfl
  | some value => cases value <;> rfl

theorem sectionEntries_of_section (h : section? name members key = .ok entries) :
    sectionEntries members key = entries := by
  unfold section? at h
  unfold sectionEntries
  split at h <;> simp_all

/-- The definition has the name, and of the fields to come it has those that are taken. -/
structure Awaits (name : String) (taken : List String) (rest : Json.Members)
    (definition : Definition) : Prop where
  name_eq : definition.name = name
  nodup : rest.keys.Nodup
  taken_iff : ∀ field ∈ rest.keys, field ∈ definition.fieldNames ↔ field ∈ taken

theorem errorOf?_addEntries {α : Type} {read : String → Json → Except SchemaError α}
    {insert : Definition → String → α → Except SchemaError Definition}
    {own : String → Entry → List SchemaError} {taken : List String}
    (reading : ∀ field declared,
      errorOf? (read field declared) = (fieldFaults own name (field, declared)).head?)
    (inserting : ∀ (before : Definition) field value,
      errorOf? (insert before field value) =
        (repeatFaults before.fieldNames before.name field).head?)
    (inserted : ∀ {before : Definition} {field value after}, insert before field value = .ok after →
      after.name = before.name ∧ after.fieldNames.Perm (field :: before.fieldNames))
    (awaits : Awaits name taken entries before) :
    errorOf? (entries.foldlM (fun definition (field, declared) => do
        insert definition field (← read field declared)) before) =
      (entriesFaults own name taken entries).head? := by
  refine errorOf?_foldlM (P := Awaits name taken) ?_ ?_ awaits
  · intro entry rest before awaits
    obtain ⟨field, declared⟩ := entry
    refine errorOf?_bind (reading field declared) fun value _ => ?_
    have listed : field ∈ Json.Members.keys ((field, declared) :: rest) := List.mem_cons_self
    rw [inserting, awaits.name_eq, repeatFaults, repeatFaults]
    simp only [awaits.taken_iff field listed]
  · intro entry rest before after awaits stepped
    obtain ⟨field, declared⟩ := entry
    obtain ⟨value, -, added⟩ := bind_eq_ok.1 stepped
    obtain ⟨same, grown⟩ := inserted added
    have nodup := List.nodup_cons.1 awaits.nodup
    refine ⟨same.trans awaits.name_eq, nodup.2, ?_⟩
    intro other mem
    have apart : other ≠ field := by
      intro same
      exact nodup.1 (same ▸ mem)
    rw [grown.mem_iff, List.mem_cons, or_iff_right apart]
    exact awaits.taken_iff other (List.mem_cons_of_mem _ mem)

theorem nodup_sectionEntries (distinct : (Json.obj members).Distinct) (key : String) :
    (sectionEntries members key).keys.Nodup := by
  unfold sectionEntries
  split
  · rename_i entries found
    cases distinct with
    | obj nodup each =>
      cases each _ (Json.Members.mem_of_get? found) with
      | obj nodup _ => exact nodup
  · exact .nil

theorem keys_of_reads {α : Type} {read : String → Json → Except SchemaError α}
    {fields : List (String × α)} (h : List.Forall₂ (Reads read) entries fields) :
    fields.map (·.1) = entries.keys := by
  induction h with
  | nil => rfl
  | cons own _ ih => exact congrArg₂ (· :: ·) own.1.symm ih

/-- A definition document is refused for the first thing that is wrong with it. -/
theorem errorOf?_ofJson (distinct : document.Distinct) :
    errorOf? (ofJson name document) = (faults name document).head? := by
  cases document with
  | obj members =>
    rw [ofJson, faults, List.append_assoc, List.append_assoc, List.append_assoc]
    refine errorOf?_bind errorOf?_checkName fun _ _ => ?_
    refine errorOf?_bind errorOf?_section fun properties listed => ?_
    obtain rfl := sectionEntries_of_section listed
    have awaits : Awaits name [] (sectionEntries members "properties") (.empty name) :=
      ⟨rfl, nodup_sectionEntries distinct _, by simp [fieldNames, empty]⟩
    refine errorOf?_bind (errorOf?_addEntries (fun _ _ => errorOf?_property) errorOf?_addProperty
      (fun added => ⟨(addProperty_eq_ok added).1, fieldNames_addProperty added⟩) awaits) ?_
    intro middle added
    refine errorOf?_bind errorOf?_section fun relations listed => ?_
    obtain rfl := sectionEntries_of_section listed
    refine errorOf?_addEntries (fun _ _ => errorOf?_relation) errorOf?_addRelation
      (fun added => ⟨(addRelation_eq_ok added).1, fieldNames_addRelation added⟩) ?_
    obtain ⟨fields, reads, extends_⟩ := foldlM_addProperty_eq_ok.1 added
    refine ⟨extends_.name, nodup_sectionEntries distinct _, ?_⟩
    intro field _
    have names : middle.fieldNames = (sectionEntries members "properties").keys := by
      rw [fieldNames, extends_.properties, extends_.relations, ← keys_of_reads reads]
      simp [empty]
    rw [names]
  | _ => rfl

end Definition

/-- What holds of every property that is read. -/
structure Property.Sound (p : Property) : Prop where
  typed : p.type.name ≠ ""
  plain : RelationKind.ofName? p.type.name = none
  default : p.default ≠ some .null
  range : ∀ min max, p.min = some min → p.max = some max → min ≤ max
  choices : p.choices ≠ some []

/-- What holds of every relation that is read. -/
structure Relation.Sound (r : Relation) : Prop where
  model : r.model ≠ ""
  default : r.default ≠ some .null
  key : r.key.isSome → r.kind = .embeds .keyed

theorem presentDefault_ne_null (declared : Option Json) : presentDefault declared ≠ some .null := by
  intro null
  obtain ⟨-, kept⟩ := Option.filter_eq_some_iff.1 null
  cases kept

namespace Definition

variable {name field : String} {declared document : Json} {definition : Definition}

theorem exists_entry_of_property {p : Property} (h : property name field declared = .ok p) :
    ∃ rules, Entry.ofJson declared = .ok rules ∧ rules.IsProperty := by
  have none := errorOf?_eq_none.2 ⟨p, h⟩
  rw [errorOf?_property, List.head?_eq_none_iff] at none
  exact (fieldFaults_eq_nil_iff (Entry.propertyFaults_eq_nil_iff name)).1 none

theorem exists_entry_of_relation {r : Relation} (h : relation name field declared = .ok r) :
    ∃ rules, Entry.ofJson declared = .ok rules ∧ rules.IsRelation := by
  have none := errorOf?_eq_none.2 ⟨r, h⟩
  rw [errorOf?_relation, List.head?_eq_none_iff] at none
  exact (fieldFaults_eq_nil_iff (Entry.relationFaults_eq_nil_iff name)).1 none

theorem ne_nil_of_readChoices {items : Option (List Json)} {choices : Option (List Choice)}
    (h : readChoices items = .ok choices) : choices ≠ some [] := by
  cases items with
  | none =>
    cases h
    exact nofun
  | some items =>
    rw [readChoices, map_eq_ok] at h
    obtain ⟨list, read, rfl⟩ := h
    have filled := Choice.ne_nil_of_ofList (mapError_eq_ok.1 read)
    exact fun same => filled (Option.some.inj same)

theorem sound_of_property {p : Property} (h : property name field declared = .ok p) : p.Sound := by
  obtain ⟨rules, read, sound⟩ := exists_entry_of_property h
  rw [property, bind_eq_ok] at h
  obtain ⟨entered, entry, h⟩ := h
  obtain rfl := eq_of_entry_eq_ok read entry
  dsimp only at h
  split at h
  · cases h
  · simp only [FieldFault.within, mapError_eq_ok, bind_eq_ok] at h
    obtain ⟨choices, listed, -, -, h⟩ := h
    cases h
    constructor
    · rw [FieldType.name_ofName]
      exact sound.typed
    · rw [FieldType.name_ofName]
      exact sound.plain
    · exact presentDefault_ne_null _
    · exact sound.range
    · exact ne_nil_of_readChoices listed

theorem sound_of_relation {r : Relation} (h : relation name field declared = .ok r) : r.Sound := by
  obtain ⟨rules, read, sound⟩ := exists_entry_of_relation h
  obtain ⟨kind, known, key⟩ := sound.kind
  obtain ⟨model, given, filled⟩ := sound.model
  rw [relation, bind_eq_ok] at h
  obtain ⟨entered, entry, h⟩ := h
  obtain rfl := eq_of_entry_eq_ok read entry
  dsimp only at h
  rw [known] at h
  simp only [FieldFault.within, mapError_eq_ok, given, Option.getD_some] at h
  split at h
  · cases h
  · split at h
    · cases h
    · cases h
      exact ⟨filled, presentDefault_ne_null _, key⟩

theorem sound_of_ofJson {members : Json.Members}
    (h : ofJson name (.obj members) = .ok definition) :
    definition.name = name ∧
      definition.properties.map (·.1) = (sectionEntries members "properties").keys ∧
      definition.relations.map (·.1) = (sectionEntries members "relations").keys ∧
      (∀ field ∈ definition.properties, field.2.Sound) ∧
      ∀ field ∈ definition.relations, field.2.Sound := by
  obtain ⟨-, named, ⟨properties, listed, reads⟩, relations, listed', reads'⟩ :=
    ofJson_obj_eq_ok.1 h
  obtain rfl := sectionEntries_of_section listed
  obtain rfl := sectionEntries_of_section listed'
  refine ⟨named, keys_of_reads reads, keys_of_reads reads', ?_, ?_⟩
  · intro field mem
    obtain ⟨entry, -, -, read⟩ := exists_left_of_forall₂ reads mem
    exact sound_of_property read
  · intro field mem
    obtain ⟨entry, -, -, read⟩ := exists_left_of_forall₂ reads' mem
    exact sound_of_relation read

/-- A definition document is read if it is well formed, and otherwise refused for the first thing
that is wrong with it. The definition that is read has the fields of both sections in document
order, properties first, and they are sound; fields that are added later stand behind them, and
only a name that is taken is refused. -/
theorem read_or_refused_for_first_fault :
    (∀ (name : String) (document : Json), document.Distinct →
      ((∃ definition, ofJson name document = .ok definition) ↔ WellFormed document) ∧
      ∀ error, ofJson name document = .error error ↔
        (faults name document).head? = some error) ∧
    (∀ (name : String) (document : Json) (definition : Definition),
      ofJson name document = .ok definition →
        ∃ members : Json.Members, document = .obj members ∧ definition.name = name ∧
          definition.fieldNames = (sectionEntries members "properties").keys ++
            (sectionEntries members "relations").keys ∧
          definition.fieldNames.Nodup ∧
          (∀ field ∈ definition.properties, field.2.Sound) ∧
          ∀ field ∈ definition.relations, field.2.Sound) ∧
    ∀ (before : Definition) (fields : List (String × Field)),
      ((∃ after, before.addAll fields = .ok after) ↔
        (before.fieldNames ++ fields.map (·.1)).Nodup) ∧
      (∀ after, before.addAll fields = .ok after →
        after.name = before.name ∧ after.properties = before.properties ++ propertiesOf fields ∧
          after.relations = before.relations ++ relationsOf fields ∧
          after.fieldNames = after.properties.map (·.1) ++ after.relations.map (·.1) ∧
          after.fieldNames.Nodup) ∧
      ∀ error, before.addAll fields = .error error ↔
        ∃ front field rest, fields = front ++ field :: rest ∧
          (before.fieldNames ++ front.map (·.1)).Nodup ∧
          field.1 ∈ before.fieldNames ++ front.map (·.1) ∧
          error = .malformedField before.name field.1 .repeated := by
  refine ⟨?_, ?_, ?_⟩
  · intro name document distinct
    constructor
    · rw [← errorOf?_eq_none, errorOf?_ofJson distinct, List.head?_eq_none_iff, faults_eq_nil_iff]
    · intro error
      rw [← errorOf?_eq_some, errorOf?_ofJson distinct]
  · intro name document definition read
    cases document with
    | obj members =>
      obtain ⟨named, properties, relations, sound, sound'⟩ := sound_of_ofJson read
      refine ⟨members, rfl, named, ?_, definition.nodup, sound, sound'⟩
      rw [fieldNames, properties, relations]
    | _ => cases read
  · intro before fields
    refine ⟨exists_addAll_iff, ?_, fun error => addAll_eq_error_iff⟩
    intro after added
    obtain ⟨named, properties, relations⟩ := addAll_eq_ok_iff.1 added
    exact ⟨named, properties, relations, rfl, after.nodup⟩

/-- The document of posts, whose relations are given. -/
def postDocument (relations : Json.Members) : Json :=
  .obj [
    ("name", .str "Post"),
    ("properties", .obj [
      ("title", .obj [("type", .str "string"), ("required", .bool true)]),
      ("status", .obj [("type", .str "string"),
        ("choices", .arr [.str "draft", .arr [.str "live", .str "Live"]])])]),
    ("relations", .obj relations)]

def tags : Json.Members := [("tags", .obj [("type", .str "embedsMany"), ("model", .str "Tag")])]

/-- A relation named as a property is, before one that lacks its model. -/
def titles : Json.Members :=
  [("title", .obj [("type", .str "belongsTo"), ("model", .str "Title")]),
    ("tags", .obj [("type", .str "embedsMany")])]

theorem read_or_refused_for_first_fault_post :
    (postDocument tags).Distinct ∧ (postDocument titles).Distinct ∧
    (∃ definition, ofJson "Post" (postDocument tags) = .ok definition ∧
      definition.fieldNames = ["title", "status", "tags"] ∧
      (∀ field ∈ definition.properties, field.2.Sound) ∧
      definition.addAll [("author", .relation { kind := .hasOne, model := "User" }),
          ("status", .property { type := .any })] =
        .error (.malformedField "Post" "status" .repeated)) ∧
    ¬ WellFormed (postDocument titles) ∧
    ofJson "Post" (postDocument titles) = .error (.malformedField "Post" "title" .repeated) := by
  have distinct : (postDocument tags).Distinct := by
    simp [postDocument, tags, Json.distinct_obj_iff, Json.Members.keys, Json.distinct_arr_iff,
      Json.Distinct.str, Json.Distinct.bool]
  have distinct' : (postDocument titles).Distinct := by
    simp [postDocument, titles, Json.distinct_obj_iff, Json.Members.keys, Json.distinct_arr_iff,
      Json.Distinct.str, Json.Distinct.bool]
  obtain ⟨reads, keeps, adds⟩ := read_or_refused_for_first_fault
  have passes : (ofJson "Post" (postDocument tags)).isOk := by decide +kernel
  obtain ⟨definition, read⟩ := isOk_iff.1 passes
  have refused : ofJson "Post" (postDocument titles) =
      .error (.malformedField "Post" "title" .repeated) :=
    ((reads "Post" _ distinct').2 _).2 (by decide +kernel)
  obtain ⟨members, same, named, names, -, sound, -⟩ := keeps "Post" _ definition read
  cases same
  have names : definition.fieldNames = ["title", "status", "tags"] := names
  refine ⟨distinct, distinct', ⟨definition, read, names, sound, ?_⟩, ?_, refused⟩
  · refine ((adds definition _).2.2 _).2
      ⟨[("author", .relation { kind := .hasOne, model := "User" })], _, [], rfl, ?_, ?_, ?_⟩
    · rw [names]
      decide
    · rw [names]
      decide
    · rw [named]
  · intro sound
    obtain ⟨definition, read⟩ := (reads "Post" _ distinct').1.2 sound
    rw [refused] at read
    cases read

end Definition

end DocModel
