import DocModel.Proofs.Clean.Reference
import DocModel.Proofs.Validator.Returns

namespace DocModel

/-- Of every model, the oracle either knows nothing or answers from the ids that exist of it. -/
def Oracle.Fixed (ask : Oracle) : Prop :=
  ∀ model, (∀ ids, ∃ error, ask model ids = .error error) ∨
    ∃ known : Int → Prop, ∀ ids, ∃ existing, ask model ids = .ok existing ∧
      ∀ id ∈ ids, id ∈ existing ↔ known id

theorem EntityStore.oracle_fixed (store : EntityStore) : store.oracle.Fixed := by
  intro model
  cases found : store.entities.lookup model with
  | none =>
    left
    intro ids
    exact ⟨.unknownModel model, by rw [oracle, found]⟩
  | some known =>
    refine .inr ⟨(· ∈ known), ?_⟩
    intro ids
    refine ⟨ids.filter known.contains, by rw [oracle, found], ?_⟩
    intro id mem
    simp [mem]

section

variable {oracle : Option Oracle} {model key : String} {keys kept : List String}

theorem isKnown_again (fixed : ∀ ask ∈ oracle, ask.Fixed)
    (known : ∀ key ∈ kept, isKnown oracle model keys key) (listed : kept ⊆ keys)
    (mem : key ∈ kept) : isKnown oracle model kept key := by
  obtain ⟨existing, id, ⟨ask, rfl, answer⟩, parsed, exists_⟩ := isKnown_iff.1 (known key mem)
  obtain refused | ⟨member, answers⟩ := fixed ask rfl model
  · obtain ⟨error, refusal⟩ := refused (keyIds keys)
    rw [answer] at refusal
    cases refusal
  · obtain ⟨existing', answer', among⟩ := answers (keyIds keys)
    rw [answer] at answer'
    cases answer'
    -- Fewer ids are asked for this time, and the id of this key is one of them.
    obtain ⟨again, answer', among'⟩ := answers (keyIds kept)
    have asked : id ∈ keyIds keys := mem_keyIds.2 ⟨key, listed mem, parsed⟩
    have asked' : id ∈ keyIds kept := mem_keyIds.2 ⟨key, mem, parsed⟩
    refine isKnown_iff.2 ⟨again, id, ⟨ask, rfl, answer'⟩, parsed, ?_⟩
    exact (among' id asked').2 ((among id asked).1 exists_)

theorem answered_of_isKnown (known : ∀ key ∈ keys, isKnown oracle model keys key) :
    Answered oracle model keys := by
  intro parses
  obtain ⟨key, mem, -⟩ := parses
  obtain ⟨existing, id, answers, -⟩ := isKnown_iff.1 (known key mem)
  exact ⟨existing, answers⟩

end

namespace Embedding

variable {oracle : Option Oracle} {R : Json → Json → Prop} {embedding : Embedding}
  {value out document : Json}

theorem Returns.of_contains
    (object : ∀ old document, R old document → ∃ members, document = .obj members)
    (h : embedding.Returns oracle R value out)
    (contains : embedding.Contains out document) : ∃ old, R old document := by
  have entry : ∀ {entries outs : Json.Members} {entry : String × Json},
      List.Forall₂ (fun entry out => entry.1 = out.1 ∧ R entry.2 out.2) entries outs →
        entry ∈ outs → ∃ old, R old entry.2 := by
    intro entries outs entry related mem
    obtain ⟨old, -, -, returns⟩ := exists_left_of_forall₂ related mem
    exact ⟨old.2, returns⟩
  cases h with
  | one returns =>
    cases contains
    exact ⟨_, returns⟩
  | single returns =>
    obtain ⟨members, rfl⟩ := object _ _ returns
    cases contains
    exact ⟨_, returns⟩
  | list returns =>
    cases contains with
    | item mem =>
      obtain ⟨old, -, returns⟩ := exists_left_of_forall₂ returns mem
      exact ⟨old, returns⟩
  | map returns =>
    cases contains with
    | entry mem => exact entry returns mem
  | ids returns answered =>
    cases contains with
    | entry mem => exact entry returns (List.mem_filter.1 mem).1

theorem forall₂_entries_self_iff {entries : Json.Members} :
    List.Forall₂ (fun entry out => entry.1 = out.1 ∧ R entry.2 out.2) entries entries ↔
      ∀ entry ∈ entries, R entry.2 entry.2 := by
  simp only [List.forall₂_same, true_and]

theorem exists_of_returns_ids {model : String} {entries kept : Json.Members}
    (h : (keyed (some model)).Returns oracle R (.obj entries) (.obj kept)) :
    ∃ outs : Json.Members,
      List.Forall₂ (fun entry out => entry.1 = out.1 ∧ R entry.2 out.2) entries outs ∧
      kept = outs.filter fun out => isKnown oracle model outs.keys out.1 := by
  generalize same : Json.obj kept = out at h
  cases h with
  | ids returns answered =>
    cases same
    exact ⟨_, returns, rfl⟩

theorem returns_ids_self_iff {model : String} {entries : Json.Members}
    (known : ∀ key ∈ entries.keys, isKnown oracle model entries.keys key) :
    (keyed (some model)).Returns oracle R (.obj entries) (.obj entries) ↔
      ∀ entry ∈ entries, R entry.2 entry.2 := by
  rw [← forall₂_entries_self_iff]
  constructor
  · intro again
    obtain ⟨outs, returns, same⟩ := exists_of_returns_ids again
    -- As many entries as there were are left of `outs`, so all of them.
    have whole : outs.filter (fun out => isKnown oracle model outs.keys out.1) = outs := by
      apply List.filter_sublist.eq_of_length
      rw [← same]
      exact returns.length_eq
    rw [whole] at same
    rwa [← same] at returns
  · intro returns
    have whole : entries.filter (fun entry => isKnown oracle model entries.keys entry.1) =
        entries :=
      List.filter_eq_self.2 fun entry mem => known _ (List.mem_map_of_mem mem)
    have again := Returns.ids returns (answered_of_isKnown known)
    rwa [whole] at again

/-- What has been cleaned is left as it is if and only if the documents in it are. -/
theorem Returns.again_iff (fixed : ∀ ask ∈ oracle, ask.Fixed)
    (object : ∀ old document, R old document → ∃ members, document = .obj members)
    (h : embedding.Returns oracle R value out) :
    embedding.Returns oracle R out out ↔
      ∀ document, embedding.Contains out document → R document document := by
  cases h with
  | one returns =>
    obtain ⟨members, rfl⟩ := object _ _ returns
    rw [forall_contains_one]
    constructor
    · intro again
      cases again with
      | one again => exact again
    · exact .one
  | single returns =>
    obtain ⟨members, rfl⟩ := object _ _ returns
    rw [forall_contains_single]
    constructor
    · intro again
      cases again with
      | single again => exact again
    · exact .single
  | list returns =>
    rw [forall_contains_item, ← List.forall₂_same]
    constructor
    · intro again
      cases again with
      | list again => exact again
    · exact .list
  | map returns =>
    rw [forall_contains_entry, ← forall₂_entries_self_iff]
    constructor
    · intro again
      cases again with
      | map again => exact again
    · exact .map
  | @ids model entries outs returns answered =>
    rw [forall_contains_entry]
    apply returns_ids_self_iff
    intro key mem
    have known : ∀ key ∈ Json.Members.keys (outs.filter fun out =>
        isKnown oracle model outs.keys out.1), isKnown oracle model outs.keys key := by
      intro key mem
      obtain ⟨entry, kept, rfl⟩ := List.mem_map.1 mem
      exact (List.mem_filter.1 kept).2
    refine isKnown_again fixed known ?_ mem
    exact List.map_subset _ (List.filter_subset_self _)

end Embedding

end DocModel
