import Mathlib.Data.List.Nodup
import DocModel.Proofs.Clean.Service
import DocModel.Proofs.Validator.Occurs

namespace DocModel

/-- A map whose keys should be ids of a model, and where it stands in a document: the fields that
lead to it and, in lists and maps, the positions. -/
structure IdMap where
  place : Location
  model : String
  entries : Json.Members

namespace IdMap

/-- The map as it stands in a document that is held further up. -/
def below (steps : Location) (map : IdMap) : IdMap := { map with place := steps ++ map.place }

/-- The ids that the keys denote. -/
def ids (map : IdMap) : List Int := keyIds map.entries.keys

def question (map : IdMap) : Question := (map.model, map.ids)

/-- Whether there is anything to ask of the map. -/
def hasIds (map : IdMap) : Bool := !map.ids.isEmpty

end IdMap

/-- The questions that maps of ids give rise to. -/
def wanted (maps : List IdMap) : List Question := (maps.filter IdMap.hasIds).map IdMap.question

/-- Documents with their positions, counted from a first one. -/
def positioned (first : Nat) (documents : List Json) : List (Location × Json) :=
  (documents.zipIdx first).map fun part => ([.index part.2], part.1)

namespace Embedding

/-- The documents that a value holds, when a field embeds them so, with their positions. -/
def held (embedding : Embedding) (value : Json) : List (Location × Json) :=
  match embedding, value with
  | one, .obj _ | many, .obj _ => [([], value)]
  | many, .arr items => positioned 0 items
  | keyed _, .obj entries => positioned 0 (entries.map Prod.snd)
  | _, _ => []

/-- The value itself, if it is a map of ids. -/
def idMap? (embedding : Embedding) (value : Json) : Option IdMap :=
  match embedding, value with
  | keyed model, .obj entries => model.map fun model => ⟨[], model, entries⟩
  | _, _ => none

/-- The maps of ids in the documents of a value, and then the value itself. -/
def idMaps (document : Json → List IdMap) (embedding : Embedding) (value : Json) : List IdMap :=
  (embedding.held value).flatMap (fun part => (document part.2).map (.below part.1)) ++
    (embedding.idMap? value).toList

end Embedding

mutual

/-- The maps of ids in a document, those of embedded documents before the one that holds them. -/
def Validator.idMaps (validator : Validator) (document : Json) : List IdMap :=
  match validator with
  | .mk _ _ rules =>
    match document with
    | .obj members => idMapsOf rules members
    | _ => []
termination_by structural validator

def FieldRule.idMaps (rule : FieldRule) (value : Json) : List IdMap :=
  match rule with
  | .value _ _ => []
  | .embedded _ embedding nested => embedding.idMaps (fun document => nested.idMaps document) value
termination_by structural rule

def idMapsOf (rules : List FieldRule) (members : Json.Members) : List IdMap :=
  match rules with
  | [] => []
  | rule :: rules =>
    let maps := (members.get? rule.name).elim [] rule.idMaps
    maps.map (.below [.key rule.name]) ++ idMapsOf rules members
termination_by structural rules

end

/-- A map of ids stands in a document: it is the value of a field, or stands in a document that a
field holds. -/
inductive Validator.HoldsAt : Validator → Json → IdMap → Prop
  | here {validator nested : Validator} {members : Json.Members} {head : FieldHead}
    {embedding : Embedding} {value : Json} {map : IdMap}
    (rule : .embedded head embedding nested ∈ validator.rules)
    (found : members.get? head.name = some value) (ids : embedding.idMap? value = some map) :
    HoldsAt validator (.obj members) (map.below [.key head.name])
  | inside {validator nested : Validator} {members : Json.Members} {head : FieldHead}
    {embedding : Embedding} {value document : Json} {steps : Location} {map : IdMap}
    (rule : .embedded head embedding nested ∈ validator.rules)
    (found : members.get? head.name = some value)
    (part : (steps, document) ∈ embedding.held value) (holds : nested.HoldsAt document map) :
    HoldsAt validator (.obj members) ((map.below steps).below [.key head.name])

section

variable {map : IdMap} {maps others : List IdMap} {steps : Location}

theorem IdMap.hasIds_eq_true_iff : map.hasIds = true ↔ map.ids ≠ [] := by
  simp [hasIds]

theorem wanted_append : wanted (maps ++ others) = wanted maps ++ wanted others := by
  rw [wanted, List.filter_append, List.map_append]
  rfl

theorem wanted_below : wanted (maps.map (.below steps)) = wanted maps := by
  rw [wanted, List.filter_map, List.map_map]
  rfl

end

variable {validator : Validator} {rules : List FieldRule} {members other : Json.Members}
  {document : Json} {embedding : Embedding} {value : Json} {map : IdMap}

theorem idMapsOf_eq (rules : List FieldRule) (members : Json.Members) :
    idMapsOf rules members = rules.flatMap fun rule =>
      ((members.get? rule.name).elim [] rule.idMaps).map (.below [.key rule.name]) := by
  induction rules with
  | nil => rfl
  | cons rule rules ih => rw [idMapsOf, ih, List.flatMap_cons]

theorem idMapsOf_congr (same : ∀ rule ∈ rules, members.get? rule.name = other.get? rule.name) :
    idMapsOf rules members = idMapsOf rules other := by
  rw [idMapsOf_eq, idMapsOf_eq]
  exact List.flatMap_congr fun rule mem => by rw [same rule mem]

theorem Embedding.mem_idMaps {maps : Json → List IdMap} :
    map ∈ embedding.idMaps maps value ↔
      (∃ steps document inner, (steps, document) ∈ embedding.held value ∧
        inner ∈ maps document ∧ map = inner.below steps) ∨ embedding.idMap? value = some map := by
  rw [idMaps, List.mem_append, List.mem_flatMap, Option.mem_toList]
  apply or_congr_left
  constructor
  · intro inside
    obtain ⟨part, mem, inside⟩ := inside
    obtain ⟨inner, mem', rfl⟩ := List.mem_map.1 inside
    exact ⟨part.1, part.2, inner, mem, mem', rfl⟩
  · intro inside
    obtain ⟨steps, document, inner, mem, mem', rfl⟩ := inside
    exact ⟨(steps, document), mem, List.mem_map.2 ⟨inner, mem', rfl⟩⟩

theorem mem_idMapsOf : map ∈ idMapsOf rules members ↔
    ∃ rule ∈ rules, ∃ value, members.get? rule.name = some value ∧
      ∃ inner ∈ rule.idMaps value, map = inner.below [.key rule.name] := by
  rw [idMapsOf_eq, List.mem_flatMap]
  refine exists_congr fun rule => and_congr_right fun _ => ?_
  cases members.get? rule.name with
  | none => simp
  | some value => simp [eq_comm]

theorem Validator.Orderly.mem_idMaps (orderly : validator.Orderly) :
    map ∈ validator.idMaps document ↔ validator.HoldsAt document map := by
  constructor
  · intro mem
    induction orderly generalizing document map with
    | @intro typeName rejectsUnknown rules nodup nested ih =>
      cases document with
      | obj members =>
        obtain ⟨rule, listed, value, found, inner, inside, rfl⟩ := mem_idMapsOf.1 mem
        cases rule with
        | value head checks => cases inside
        | embedded head embedding nested =>
          obtain ⟨steps, held, inner, part, deeper, rfl⟩ | ids := Embedding.mem_idMaps.1 inside
          · exact .inside listed found part (ih _ _ _ listed deeper)
          · exact .here listed found ids
      | _ => cases mem
  · intro holds
    clear orderly
    induction holds with
    | @here validator nested members head embedding value map rule found ids =>
      cases validator with
      | mk typeName rejectsUnknown rules =>
        exact mem_idMapsOf.2 ⟨_, rule, value, found, map, Embedding.mem_idMaps.2 (.inr ids), rfl⟩
    | @inside validator nested members head embedding value document steps map rule found part
        holds ih =>
      cases validator with
      | mk typeName rejectsUnknown rules =>
        have mem : map.below steps ∈ FieldRule.idMaps (.embedded head embedding nested) value :=
          Embedding.mem_idMaps.2 (.inl ⟨steps, document, map, part, ih, rfl⟩)
        exact mem_idMapsOf.2 ⟨_, rule, value, found, _, mem, rfl⟩

theorem map_place_below (steps : Location) (maps : List IdMap) :
    (maps.map (.below steps)).map IdMap.place = (maps.map IdMap.place).map (steps ++ ·) := by
  rw [List.map_map, List.map_map]
  rfl

theorem nodup_places {α : Type} {parts : List α} {steps : α → Location} {maps : α → List IdMap}
    {depth : Nat} (apart : (parts.map steps).Nodup)
    (even : ∀ part ∈ parts, (steps part).length = depth)
    (each : ∀ part ∈ parts, ((maps part).map IdMap.place).Nodup) :
    ((parts.flatMap fun part => (maps part).map (.below (steps part))).map IdMap.place).Nodup := by
  rw [List.map_flatMap, List.nodup_flatMap]
  constructor
  · intro part mem
    rw [map_place_below]
    exact (each part mem).map (List.append_right_injective _)
  · refine (List.pairwise_map.1 apart).imp_of_mem ?_
    intro part other mem mem' different place first second
    simp only [map_place_below] at first second
    obtain ⟨rest, -, rfl⟩ := List.mem_map.1 first
    obtain ⟨rest', -, same⟩ := List.mem_map.1 second
    have depths : (steps other).length = (steps part).length := by rw [even _ mem, even _ mem']
    exact different (List.append_inj_left same depths).symm

theorem nodup_positioned (first : Nat) (documents : List Json) :
    ((positioned first documents).map Prod.fst).Nodup := by
  have positions : (positioned first documents).map Prod.fst =
      ((documents.zipIdx first).map Prod.snd).map fun position => [Step.index position] := by
    rw [positioned, List.map_map, List.map_map]
    rfl
  rw [positions, List.zipIdx_map_snd]
  apply List.Nodup.map _ (List.nodup_range' 1)
  intro position other same
  cases same
  rfl

theorem length_of_mem_positioned {first : Nat} {documents : List Json} {part : Location × Json}
    (mem : part ∈ positioned first documents) : part.1.length = 1 := by
  obtain ⟨_, -, rfl⟩ := List.mem_map.1 mem
  rfl

namespace Embedding

theorem nodup_held (embedding : Embedding) (value : Json) :
    ((embedding.held value).map Prod.fst).Nodup := by
  unfold held
  split
  · exact List.nodup_singleton _
  · exact List.nodup_singleton _
  · exact nodup_positioned 0 _
  · exact nodup_positioned 0 _
  · exact List.nodup_nil

theorem exists_depth_held (embedding : Embedding) (value : Json) :
    ∃ depth, ∀ part ∈ embedding.held value, part.1.length = depth := by
  unfold held
  split
  · exact ⟨0, by simp⟩
  · exact ⟨0, by simp⟩
  · exact ⟨1, fun part => length_of_mem_positioned⟩
  · exact ⟨1, fun part => length_of_mem_positioned⟩
  · exact ⟨0, by simp⟩

theorem place_of_idMap? (h : embedding.idMap? value = some map) :
    map.place = [] ∧ ∀ part ∈ embedding.held value, part.1 ≠ [] := by
  unfold idMap? at h
  split at h
  · obtain ⟨model, -, rfl⟩ := Option.map_eq_some_iff.1 h
    refine ⟨rfl, fun part mem => ?_⟩
    apply List.ne_nil_of_length_pos
    rw [length_of_mem_positioned mem]
    exact Nat.one_pos
  · cases h

/-- No two maps of ids in the value of a field stand at one place, if that is so in each document
that the value holds. -/
theorem nodup_idMaps {maps : Json → List IdMap}
    (each : ∀ part ∈ embedding.held value, ((maps part.2).map IdMap.place).Nodup) :
    ((embedding.idMaps maps value).map IdMap.place).Nodup := by
  obtain ⟨depth, even⟩ := exists_depth_held embedding value
  have inside : (((embedding.held value).flatMap
      fun part => (maps part.2).map (.below part.1)).map IdMap.place).Nodup :=
    nodup_places (nodup_held embedding value) even each
  rw [idMaps, List.map_append]
  cases ids : embedding.idMap? value with
  | none => rwa [Option.toList_none, List.map_nil, List.append_nil]
  | some map =>
    obtain ⟨top, deeper⟩ := place_of_idMap? ids
    apply inside.append (List.nodup_singleton _)
    intro place below same
    rw [List.map_flatMap, List.mem_flatMap] at below
    obtain ⟨part, mem, below⟩ := below
    rw [map_place_below] at below
    obtain ⟨rest, -, joined⟩ := List.mem_map.1 below
    rw [List.mem_singleton.1 same, top, List.append_eq_nil_iff] at joined
    exact deeper part mem joined.1

end Embedding

theorem nodup_idMapsOf (nodup : (rules.map FieldRule.name).Nodup)
    (each : ∀ rule ∈ rules, ∀ value, ((rule.idMaps value).map IdMap.place).Nodup) :
    ((idMapsOf rules members).map IdMap.place).Nodup := by
  have names : (rules.map fun rule => [Step.key rule.name]).Nodup := by
    have steps := nodup.map (f := fun name => [Step.key name]) fun name other same => by
      cases same
      rfl
    rwa [List.map_map] at steps
  rw [idMapsOf_eq]
  apply nodup_places names fun _ _ => rfl
  intro rule mem
  cases members.get? rule.name with
  | none => exact List.nodup_nil
  | some value => exact each rule mem value

theorem Validator.Orderly.nodup_idMaps (orderly : validator.Orderly) :
    ((validator.idMaps document).map IdMap.place).Nodup := by
  induction orderly generalizing document with
  | @intro typeName rejectsUnknown rules nodup nested ih =>
    cases document with
    | obj members =>
      apply nodup_idMapsOf nodup
      intro rule mem value
      cases rule with
      | value head checks => exact List.nodup_nil
      | embedded head embedding nested =>
        exact Embedding.nodup_idMaps fun part _ => ih head embedding nested mem
    | _ => exact List.nodup_nil

end DocModel
