import DocModel.Proofs.Validator.Apart
import DocModel.Proofs.Validator.Idempotent

namespace DocModel

namespace Embedding

/-- Whether the value has a form in which a field holds documents. -/
def holds : Embedding → Json → Bool
  | one, .obj _ | many, .obj _ | many, .arr _ | keyed _, .obj _ => true
  | _, _ => false

/-- The value of a field with every document in it replaced by its image. -/
def mapDocuments (image : Json → Json) : Embedding → Json → Json
  | one, .obj members | many, .obj members => image (.obj members)
  | many, .arr items => .arr (items.map image)
  | keyed _, .obj entries => .obj (entries.map fun entry => (entry.1, image entry.2))
  | _, value => value

variable {oracle : Option Oracle} {R : Json → Json → Prop} {embedding : Embedding}
  {value out document : Json}

theorem Returns.exists_of_contains (h : embedding.Returns oracle R value out)
    (contains : embedding.Contains value document) : ∃ image, R document image := by
  cases h with
  | one returns =>
    cases contains
    exact ⟨_, returns⟩
  | single returns =>
    cases contains
    exact ⟨_, returns⟩
  | list returns =>
    cases contains with
    | item mem =>
      obtain ⟨image, -, related⟩ := exists_right_of_forall₂ returns mem
      exact ⟨image, related⟩
  | map returns =>
    cases contains with
    | entry mem =>
      obtain ⟨image, -, -, related⟩ := exists_right_of_forall₂ returns mem
      exact ⟨image.2, related⟩
  | ids returns answered =>
    cases contains with
    | entry mem =>
      obtain ⟨image, -, -, related⟩ := exists_right_of_forall₂ returns mem
      exact ⟨image.2, related⟩

/-- Unless entries of unknown ids are dropped, nothing happens to the value but that its documents
are replaced. -/
theorem returns_mapDocuments {image : Json → Json} (plain : ∀ model, embedding ≠ .keyed (some model))
    (holds : embedding.holds value)
    (each : ∀ document, embedding.Contains value document → R document (image document)) :
    embedding.Returns oracle R value (embedding.mapDocuments image value) := by
  cases embedding with
  | one =>
    cases value with
    | obj members => exact .one (forall_contains_one.1 each)
    | _ => cases holds
  | many =>
    cases value with
    | obj members => exact .single (forall_contains_single.1 each)
    | arr items =>
      rw [forall_contains_item] at each
      refine .list ?_
      rw [List.forall₂_map_right_iff, List.forall₂_same]
      exact each
    | _ => cases holds
  | keyed model =>
    cases value with
    | obj entries =>
      rw [forall_contains_entry] at each
      cases model with
      | none =>
        refine .map ?_
        rw [List.forall₂_map_right_iff, List.forall₂_same]
        exact fun entry mem => ⟨rfl, each entry mem⟩
      | some model => exact absurd rfl (plain model)
    | _ => cases holds

theorem ne_null_of_holds (holds : embedding.holds value) : value ≠ .null := by
  intro null
  subst null
  cases embedding <;> cases holds

theorem returns_single_iff {members : Json.Members} {image : Json} :
    many.Returns oracle R (.obj members) image ↔ R (.obj members) image := by
  constructor
  · intro returns
    cases returns with
    | single returns => exact returns
  · exact .single

theorem returns_singleton_iff :
    many.Returns oracle R (.arr [document]) out ↔ ∃ image, R document image ∧ out = .arr [image] := by
  constructor
  · intro returns
    cases returns with
    | list returns =>
      cases returns with
      | cons first rest =>
        cases rest
        exact ⟨_, first, rfl⟩
  · intro both
    obtain ⟨image, returns, rfl⟩ := both
    exact .list (.cons returns .nil)

end Embedding

section

variable {validator nested : Validator} {oracle : Option Oracle} {head : FieldHead}
  {embedding : Embedding} {members other rest : Json.Members} {value out : Json}

namespace Validator

/-- A field that holds documents is validated if and only if they are, whatever stood there when
the rest of the document was. -/
theorem Orderly.returns_iff_embedded (orderly : validator.Orderly)
    (mem : .embedded head embedding nested ∈ validator.rules) (keeps : head.removeIf = [])
    (held : members.get? head.name = some value)
    (apart : (validator.apartFrom head.name).Returns oracle (.obj members) (.obj rest))
    (same : ∀ value, other.insert head.name value = members.insert head.name value) {given : Json}
    (found : other.get? head.name = some given) (holds : embedding.holds given) :
    validator.Returns oracle (.obj other) out ↔
      ∃ image, embedding.Returns oracle (nested.Returns oracle) given image ∧
        out = .obj (rest.set head.name image) := by
  have present : head.name ∈ members.keys :=
    Json.Members.get?_isSome_iff.1 (Option.isSome_iff_exists.2 ⟨value, held⟩)
  have kept : head.name ∈ rest.keys := Json.Members.get?_isSome_iff.1
    (Option.isSome_iff_exists.2 ⟨value, orderly.get?_of_apartFrom mem keeps held apart⟩)
  rw [orderly.returns_iff_apartFrom mem keeps present apart same found]
  refine exists_congr fun image => ?_
  have replaced : rest.insert head.name image = rest.set head.name image :=
    Json.Members.insert_of_mem kept
  rw [← replaced]
  refine and_congr_left fun _ => ?_
  constructor
  · intro returns
    cases returns with
    | null optional => exact absurd rfl (Embedding.ne_null_of_holds holds)
    | embedded returns => exact returns
  · exact .embedded

theorem Orderly.returns_single_iff_listed (orderly : validator.Orderly)
    (mem : .embedded head .many nested ∈ validator.rules) (keeps : head.removeIf = [])
    (held : members.get? head.name = some value)
    (apart : (validator.apartFrom head.name).Returns oracle (.obj members) (.obj rest))
    (document : Json.Members) :
    ((∃ out, validator.Returns oracle (.obj (members.set head.name (.obj document))) out) ↔
      ∃ out, validator.Returns oracle (.obj (members.set head.name (.arr [.obj document]))) out) ∧
    ∀ image, validator.Returns oracle (.obj (members.set head.name (.obj document)))
        (.obj (rest.set head.name image)) ↔
      validator.Returns oracle (.obj (members.set head.name (.arr [.obj document])))
        (.obj (rest.set head.name (.arr [image]))) := by
  have present : head.name ∈ members.keys :=
    Json.Members.get?_isSome_iff.1 (Option.isSome_iff_exists.2 ⟨value, held⟩)
  have kept : head.name ∈ rest.keys := Json.Members.get?_isSome_iff.1
    (Option.isSome_iff_exists.2 ⟨value, orderly.get?_of_apartFrom mem keeps held apart⟩)
  have elsewhere : ∀ value new, (members.set head.name value).insert head.name new =
      members.insert head.name new := by
    intro value new
    rw [← Json.Members.insert_of_mem present, Json.Members.insert_insert]
  have single : ∀ out, validator.Returns oracle (.obj (members.set head.name (.obj document))) out ↔
      ∃ image, nested.Returns oracle (.obj document) image ∧
        out = .obj (rest.set head.name image) := by
    intro out
    rw [orderly.returns_iff_embedded mem keeps held apart (elsewhere _)
      (Json.Members.get?_set_self held) rfl]
    simp only [Embedding.returns_single_iff]
  have listed : ∀ out,
      validator.Returns oracle (.obj (members.set head.name (.arr [.obj document]))) out ↔
        ∃ image, nested.Returns oracle (.obj document) image ∧
          out = .obj (rest.set head.name (.arr [image])) := by
    intro out
    rw [orderly.returns_iff_embedded mem keeps held apart (elsewhere _)
      (Json.Members.get?_set_self held) rfl]
    simp only [Embedding.returns_singleton_iff]
    constructor
    · intro returned
      obtain ⟨_, ⟨image, returns, rfl⟩, same⟩ := returned
      exact ⟨image, returns, same⟩
    · intro returned
      obtain ⟨image, returns, same⟩ := returned
      exact ⟨_, ⟨image, returns, rfl⟩, same⟩
  constructor
  · simp only [single, listed]
    constructor
    · intro accepted
      obtain ⟨_, image, returns, -⟩ := accepted
      exact ⟨_, image, returns, rfl⟩
    · intro accepted
      obtain ⟨_, image, returns, -⟩ := accepted
      exact ⟨_, image, returns, rfl⟩
  · intro image
    simp only [single, listed, Json.obj.injEq, Json.Members.set_inj kept, Json.arr.injEq, List.cons.injEq,
      and_true]

end Validator

/-- Validation goes through embedding: a document that passes apart from an embedded field is
validated if and only if the documents in that field are, each on its own, and the outcome has
their outcomes in their places. A single document where a list is due counts as a list of one. -/
theorem validate_embedded {compiler : Compiler} (given : compiler.Gives validator)
    (mem : .embedded head embedding nested ∈ validator.rules)
    (plain : ∀ model, embedding ≠ .keyed (some model)) (keeps : head.removeIf = [])
    (found : members.get? head.name = some value) (holds : embedding.holds value)
    (apart : ((validator.apartFrom head.name).validate oracle (.obj members)).result =
      .ok (.obj rest)) :
    ((∃ out, (validator.validate oracle (.obj members)).result = .ok out) ↔
      ∀ document, embedding.Contains value document →
        ∃ image, (nested.validate oracle document).result = .ok image) ∧
    (∀ image : Json → Json,
      (∀ document, embedding.Contains value document →
        (nested.validate oracle document).result = .ok (image document)) →
      (validator.validate oracle (.obj members)).result =
        .ok (.obj (rest.set head.name (embedding.mapDocuments image value)))) ∧
    (embedding = .many → ∀ document : Json.Members,
      let single := members.set head.name (.obj document)
      let listed := members.set head.name (.arr [.obj document])
      ((∃ out, (validator.validate oracle (.obj single)).result = .ok out) ↔
        ∃ out, (validator.validate oracle (.obj listed)).result = .ok out) ∧
      ∀ image, (validator.validate oracle (.obj single)).result =
          .ok (.obj (rest.set head.name image)) ↔
        (validator.validate oracle (.obj listed)).result =
          .ok (.obj (rest.set head.name (.arr [image])))) := by
  have whole : ∀ {out}, validator.Returns oracle (.obj members) out ↔
      ∃ image, embedding.Returns oracle (nested.Returns oracle) value image ∧
        out = .obj (rest.set head.name image) :=
    given.orderly.returns_iff_embedded mem keeps found apart (fun _ => rfl) found holds
  have replaced : ∀ image : Json → Json,
      (∀ document, embedding.Contains value document →
        nested.Returns oracle document (image document)) →
      validator.Returns oracle (.obj members)
        (.obj (rest.set head.name (embedding.mapDocuments image value))) := by
    intro image each
    exact whole.2 ⟨_, Embedding.returns_mapDocuments plain holds each, rfl⟩
  refine ⟨⟨?_, ?_⟩, replaced, ?_⟩
  · intro accepted document contains
    obtain ⟨out, returned⟩ := accepted
    obtain ⟨image, returns, -⟩ := whole.1 returned
    exact returns.exists_of_contains contains
  · intro each
    choose! image each using each
    exact ⟨_, replaced image each⟩
  · intro many document
    subst many
    exact given.orderly.returns_single_iff_listed mem keeps found apart document

end

/-- Tours of several trips, which have stops by the ids of places. -/
def tours : Compiler where
  source := Registry.source ⟨[
    ("Tour", .obj [
      ("properties", .obj [("title", .obj [("type", .str "string"), ("default", .str "tour")])]),
      ("relations", .obj [
        ("trips", .obj [("type", .str "embedsMany"), ("model", .str "Trip")])])]),
    ("Trip", .obj [("relations", .obj [
      ("stops", .obj [("type", .str "embedsManyAsObject"), ("model", .str "Stop"),
        ("key", .obj [("autoclean", .bool true), ("type", .str "model"),
          ("model", .str "place")])])])]),
    ("Stop", .obj [("properties", .obj [
      ("nights", .obj [("type", .str "int"), ("default", .num (.int 1))])])])]⟩

/-- A trip with a stop in a place and another that is in none. -/
def stopover (nights : Json.Members) : Json :=
  .obj [("stops", .obj [("4", .obj nights), ("6", .obj [])])]

/-- The trip with the one stop that is in a place. -/
def settledStopover (nights : Int) : Json :=
  .obj [("stops", .obj [("4", .obj [("nights", .num (.int nights))])])]

def legs : Json := .arr [stopover [], stopover [("nights", .num (.int 2))]]

/-- The second of two rules, where it embeds a list. -/
def secondListed? : List FieldRule → Option (FieldHead × Validator)
  | [_, .embedded head .many nested] => some (head, nested)
  | _ => none

theorem mem_of_secondListed? {rules : List FieldRule} {listed : FieldHead × Validator}
    (h : secondListed? rules = some listed) : .embedded listed.1 .many listed.2 ∈ rules := by
  unfold secondListed? at h
  split at h
  · cases h
    simp
  · cases h

theorem validate_embedded_tour :
    ∃ validator nested head, tours.Gives validator ∧
      .embedded head .many nested ∈ validator.rules ∧
      ((validator.apartFrom head.name).validate (some places.oracle)
        (.obj [("trips", legs)])).result = .ok (.obj [("trips", legs), ("title", .str "tour")]) ∧
      (∀ document, Embedding.many.Contains legs document →
        ∃ image, (nested.validate (some places.oracle) document).result = .ok image) ∧
      (validator.validate (some places.oracle) (.obj [("trips", legs)])).result =
        .ok (.obj [("trips", .arr [settledStopover 1, settledStopover 2]),
          ("title", .str "tour")]) := by
  have ran : (tours.compile 0 "Tour").result.toOption.any fun compiled =>
      (secondListed? compiled.validator.rules).any fun listed =>
        listed.1.name = "trips" ∧ listed.1.removeIf = [] ∧
          ((compiled.validator.apartFrom "trips").validate (some places.oracle)
            (.obj [("trips", legs)])).result =
              .ok (.obj [("trips", legs), ("title", .str "tour")]) ∧
          (listed.2.validate (some places.oracle) (stopover [])).result =
            .ok (settledStopover 1) ∧
          (listed.2.validate (some places.oracle) (stopover [("nights", .num (.int 2))])).result =
            .ok (settledStopover 2) := by
    decide +kernel
  obtain ⟨compiled, given, tested⟩ := Compiler.exists_gives_of_any ran
  obtain ⟨⟨head, nested⟩, listed, tested⟩ := (Option.any_eq_true _ _).1 tested
  obtain ⟨named, keeps, others, first, second⟩ := of_decide_eq_true tested
  have mem : .embedded head .many nested ∈ compiled.validator.rules :=
    mem_of_secondListed? listed
  have apart : ((compiled.validator.apartFrom head.name).validate (some places.oracle)
      (.obj [("trips", legs)])).result = .ok (.obj [("trips", legs), ("title", .str "tour")]) := by
    rw [named]
    exact others
  have found : Json.Members.get? [("trips", legs)] head.name = some legs := by
    rw [named]
    rfl
  let image : Json → Json := fun document =>
    if document = stopover [] then settledStopover 1 else settledStopover 2
  have each : ∀ document, Embedding.many.Contains legs document →
      (nested.validate (some places.oracle) document).result = .ok (image document) := by
    rw [legs, Embedding.forall_contains_item, List.forall_mem_cons, List.forall_mem_singleton]
    exact ⟨first, second⟩
  obtain ⟨-, gives, -⟩ := validate_embedded given mem (by simp) keeps found rfl apart
  refine ⟨_, nested, head, given, mem, apart, fun document contains => ⟨_, each _ contains⟩, ?_⟩
  rw [gives image each, named]
  decide +kernel

end DocModel
