import DocModel.Proofs.Json.Members
import DocModel.Proofs.Validator.Occurs
import DocModel.Oracle

namespace DocModel

/-- The documents that a value holds, when a field embeds them so. -/
inductive Embedding.Contains : Embedding → Json → Json → Prop
  | one {members : Json.Members} : Contains .one (.obj members) (.obj members)
  | single {members : Json.Members} : Contains .many (.obj members) (.obj members)
  | item {items : List Json} {document : Json} (mem : document ∈ items) :
    Contains .many (.arr items) document
  | entry {model : Option String} {entries : Json.Members} {entry : String × Json}
    (mem : entry ∈ entries) : Contains (.keyed model) (.obj entries) entry.2

namespace Embedding

variable {P : Json → Prop} {members : Json.Members}

theorem forall_contains_one : (∀ inner, one.Contains (.obj members) inner → P inner) ↔
    P (.obj members) := by
  constructor
  · intro all
    exact all _ .one
  · intro whole inner contains
    cases contains
    exact whole

theorem forall_contains_single : (∀ inner, many.Contains (.obj members) inner → P inner) ↔
    P (.obj members) := by
  constructor
  · intro all
    exact all _ .single
  · intro whole inner contains
    cases contains
    exact whole

theorem forall_contains_item {items : List Json} :
    (∀ inner, many.Contains (.arr items) inner → P inner) ↔ ∀ item ∈ items, P item := by
  constructor
  · intro all item mem
    exact all item (.item mem)
  · intro each inner contains
    cases contains with
    | item mem => exact each inner mem

theorem forall_contains_entry {model : Option String} {entries : Json.Members} :
    (∀ inner, (keyed model).Contains (.obj entries) inner → P inner) ↔
      ∀ entry ∈ entries, P entry.2 := by
  constructor
  · intro all entry mem
    exact all entry.2 (.entry mem)
  · intro each inner contains
    cases contains with
    | entry mem => exact each _ mem

end Embedding

/-- A document, with its validator, that is reached in another through embedded fields. -/
inductive Validator.Reaches : Validator → Json → Validator → Json → Prop
  | refl {validator : Validator} {document : Json} : Reaches validator document validator document
  | embedded {validator nested target : Validator} {members : Json.Members} {head : FieldHead}
    {embedding : Embedding} {value document inner : Json}
    (rule : .embedded head embedding nested ∈ validator.rules)
    (found : members.get? head.name = some value) (contains : embedding.Contains value document)
    (reaches : Reaches nested document target inner) :
    Reaches validator (.obj members) target inner

/-- A map that is reached in a document and whose keys should be ids of a model. -/
inductive Validator.HoldsIds (validator : Validator) (document : Json) (model : String)
    (entries : Json.Members) : Prop
  | intro {inner nested : Validator} {members : Json.Members} {head : FieldHead}
    (reaches : validator.Reaches document inner (.obj members))
    (rule : .embedded head (.keyed (some model)) nested ∈ inner.rules)
    (found : members.get? head.name = some (.obj entries))

/-- The oracle answers which of the ids exist that the keys stand for. -/
def Answers (oracle : Option Oracle) (model : String) (keys : List String) (existing : List Int) :
    Prop :=
  ∃ ask, oracle = some ask ∧ ask model (keyIds keys) = .ok existing

end DocModel
