import Mathlib.Data.List.Chain
import Mathlib.Logic.Relation
import DocModel.Proofs.Source

open Relation (ReflTransGen TransGen)

namespace DocModel

namespace Source

/-- One definition embeds another, through a property or through a relation. -/
def Embeds (source : Source) (name target : String) : Prop :=
  ∃ definition, source.Holds name definition ∧
    ∃ declared ∈ definition.targets, target = source.canonical declared

/-- From the name a definition is reached that embeds itself, directly or through others. -/
def ReachesCycle (source : Source) (name : String) : Prop :=
  ∃ repeated, ReflTransGen source.Embeds name repeated ∧ TransGen source.Embeds repeated repeated

/-- Every definition that is reached from the name is there and can be read. -/
def Complete (source : Source) (name : String) : Prop :=
  ∀ reached, ReflTransGen source.Embeds name reached → ∃ definition, source.Holds reached definition

/-- The chain begins with the name, each definition on it embeds the next one, and the last one
embeds a definition that is already on the chain. -/
structure Closes (source : Source) (name : String) (chain : List String) (repeated : String) :
    Prop where
  head : chain.head? = some name
  walk : (chain ++ [repeated]).IsChain source.Embeds
  mem : repeated ∈ chain

variable {source : Source} {name target repeated : String} {chain : List String}

theorem Holds.embeds {definition : Definition} {field : String} {declaration : Field}
    {embedding : Embedding} {declared : String} (h : source.Holds name definition)
    (mem : (field, declaration) ∈ definition.fields)
    (embeds : declaration.embeds? = some (embedding, declared)) :
    source.Embeds name (source.canonical declared) :=
  ⟨definition, h, declared, Definition.mem_targets.2 ⟨_, _, _, mem, embeds⟩, rfl⟩

theorem Embeds.ne_empty (h : source.Embeds name target) : target ≠ "" := by
  obtain ⟨definition, ⟨document, -, read⟩, declared, mem, rfl⟩ := h
  exact canonical_ne_empty (Definition.targets_ne_empty read _ mem)

theorem Embeds.canonical_eq (regular : source.Regular) (h : source.Embeds name target) :
    source.canonical target = target := by
  obtain ⟨definition, holds, declared, mem, rfl⟩ := h
  exact regular _ _ holds _ mem

theorem canonical_eq_of_reached (regular : source.Regular) (fixed : source.canonical name = name)
    (h : ReflTransGen source.Embeds name target) : source.canonical target = target := by
  cases h with
  | refl => exact fixed
  | tail _ step => exact step.canonical_eq regular

theorem Complete.step (complete : source.Complete name) (h : source.Embeds name target) :
    source.Complete target :=
  fun _ reached => complete _ (.head h reached)

theorem Closes.ne_empty (h : source.Closes name chain repeated) : repeated ≠ "" := by
  obtain ⟨last, found⟩ : ∃ last, chain.getLast? = some last := by
    cases found : chain.getLast? with
    | some last => exact ⟨last, rfl⟩
    | none =>
      rw [List.getLast?_eq_none_iff.1 found] at h
      cases h.mem
  exact Embeds.ne_empty ((List.isChain_append.1 h.walk).2.2 _ found _ rfl)

/-- The definitions on a closed chain lead to one another, and the repeated one to itself. -/
theorem Closes.reachesCycle (h : source.Closes name chain repeated) :
    source.ReachesCycle name := by
  have pairs : (chain ++ [repeated]).Pairwise (TransGen source.Embeds) :=
    List.isChain_iff_pairwise.1 (h.walk.imp fun _ _ => TransGen.single)
  refine ⟨repeated, ?_, (List.pairwise_append.1 pairs).2.2 _ h.mem _ List.mem_cons_self⟩
  cases chain with
  | nil => cases h.mem
  | cons first rest =>
    obtain rfl : first = name := Option.some.inj h.head
    exact (List.rel_of_pairwise_cons pairs (by simp)).to_reflTransGen

theorem intercalate_ne_empty (separator : String) {text : String} {texts : List String}
    (mem : text ∈ texts) (filled : text ≠ "") : separator.intercalate texts ≠ "" := by
  induction texts with
  | nil => cases mem
  | cons first rest ih =>
    by_cases last : rest = []
    · subst last
      rw [String.intercalate_singleton]
      exact List.mem_singleton.1 mem ▸ filled
    · rw [String.intercalate_cons_of_ne_nil last]
      simp only [ne_eq, String.append_eq_empty_iff, not_and]
      intro empty
      obtain rfl | mem := List.mem_cons.1 mem
      · exact absurd empty.1 filled
      · exact ih mem

theorem Closes.message_eq (h : source.Closes name chain repeated) :
    (SchemaError.cyclicDefinition chain repeated).message =
      s!"Definition '{repeated}' embeds itself: " ++ " -> ".intercalate (chain ++ [repeated]) := by
  have message : (SchemaError.cyclicDefinition chain repeated).message =
      s!"Definition '{repeated}' embeds itself: " ++ SchemaError.message.chainText chain ++
        repeated := rfl
  have filled := intercalate_ne_empty " -> " h.mem h.ne_empty
  have text : SchemaError.message.chainText chain = " -> ".intercalate chain ++ " -> " := by
    simp only [SchemaError.message.chainText, String.isEmpty_iff, filled, if_false]
  rw [message, text, String.intercalate_append_of_ne_nil (List.ne_nil_of_mem h.mem)
    (List.cons_ne_nil _ _), String.intercalate_singleton]
  simp only [String.append_assoc]

end Source

namespace Registry

/-- Whether every document of a registry can be read and embeds only registered definitions. -/
def isClosed (registry : Registry) : Bool :=
  registry.documents.all fun (name, document) =>
    match Definition.ofJson name document with
    | .ok definition => definition.targets.all fun declared =>
      registry.source.names.contains (registry.source.canonical declared)
    | .error _ => false

variable {registry : Registry} {name : String}

theorem holds_of_isClosed (h : registry.isClosed) (mem : name ∈ registry.source.names) :
    ∃ definition, registry.source.Holds name definition ∧
      ∀ declared ∈ definition.targets,
        registry.source.canonical declared ∈ registry.source.names := by
  cases found : registry.documents.lookup name with
  | none =>
    obtain ⟨entry, listed, rfl⟩ := List.mem_map.1 mem
    simpa using List.lookup_eq_none_iff.1 found _ listed
  | some document =>
    have mem : (name, document) ∈ registry.documents := by
      obtain ⟨before, after, split, -⟩ := List.lookup_eq_some_iff.1 found
      simp [split]
    have all := List.all_eq_true.1 h _ mem
    dsimp only at all
    split at all
    · rename_i definition read
      refine ⟨definition, ⟨document, congrArg Except.ok found, read⟩, fun declared target => ?_⟩
      exact List.contains_iff_mem.1 (List.all_eq_true.1 all _ target)
    · cases all

theorem complete_of_isClosed (h : registry.isClosed) (mem : name ∈ registry.source.names) :
    registry.source.Complete name := by
  intro reached path
  have known : reached ∈ registry.source.names := by
    induction path with
    | refl => exact mem
    | tail _ step ih =>
      obtain ⟨definition, holds, targets⟩ := holds_of_isClosed h ih
      obtain ⟨definition', holds', declared, target, rfl⟩ := step
      obtain rfl := holds.unique holds'
      exact targets _ target
  obtain ⟨definition, holds, -⟩ := holds_of_isClosed h known
  exact ⟨definition, holds⟩

end Registry

end DocModel
