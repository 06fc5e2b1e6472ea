import Mathlib.Data.List.Basic
import DocModel.Proofs.Clean.Yields

namespace DocModel

variable {oracle : Option Oracle}

namespace Embedding

variable {document : Location → Json → Cleaning Json} {cleaned : Json → Json} {P : Json → Prop}
  {embedding : Embedding} {value : Json}

theorem cleanItems_yields (location : Location) (index : Nat) {items : List Json}
    (sound : ∀ item ∈ items, ∀ location, (document location item).Yields (P item) (cleaned item)) :
    (cleanItems document location index items).Yields (∀ item ∈ items, P item)
      (items.map cleaned) := by
  induction items generalizing index with
  | nil => exact Cleaning.Yields.pure_of (by simp) []
  | cons item items ih =>
    rw [List.forall_mem_cons] at sound
    rw [cleanItems, List.forall_mem_cons]
    exact (sound.1 _).bind ((ih (index + 1) sound.2).map (cleaned item :: ·))

theorem cleanEntries_yields (location : Location) {entries : Json.Members}
    (sound : ∀ entry ∈ entries, ∀ location,
      (document location entry.2).Yields (P entry.2) (cleaned entry.2)) :
    (cleanEntries document location entries).Yields (∀ entry ∈ entries, P entry.2)
      (entries.map fun entry => (entry.1, cleaned entry.2)) := by
  induction entries with
  | nil => exact Cleaning.Yields.pure_of (by simp) []
  | cons entry entries ih =>
    rw [List.forall_mem_cons] at sound
    rw [cleanEntries, List.forall_mem_cons]
    exact (sound.1 _).bind ((ih sound.2).map ((entry.1, cleaned entry.2) :: ·))

/-- The documents that a value holds are answered for, and so is the value if it is a map of ids. -/
structure Answered (oracle : Option Oracle) (P : Json → Prop) (embedding : Embedding)
    (value : Json) : Prop where
  documents : ∀ inner, embedding.Contains value inner → P inner
  keys : ∀ model entries, embedding = .keyed (some model) → value = .obj entries →
    DocModel.Answered oracle model (Json.Members.keys entries)

theorem answered_iff_of_contains (plain : ∀ model, embedding ≠ .keyed (some model)) :
    embedding.Answered oracle P value ↔ ∀ inner, embedding.Contains value inner → P inner := by
  constructor
  · intro answered
    exact answered.documents
  · intro documents
    exact ⟨documents, fun model _ same => absurd same (plain model)⟩

theorem clean_one_yields (location : Location)
    (sound : ∀ inner, one.Contains value inner → ∀ location,
      (document location inner).Yields (P inner) (cleaned inner)) :
    (one.clean oracle document location value).Yields (one.Answered oracle P value)
      (one.cleaned oracle cleaned value) := by
  rw [answered_iff_of_contains (by simp)]
  cases value with
  | obj members =>
    rw [forall_contains_one] at sound ⊢
    exact sound location
  | _ =>
    apply Cleaning.Yields.pure_of
    intro inner contains
    cases contains

theorem clean_many_yields (location : Location)
    (sound : ∀ inner, many.Contains value inner → ∀ location,
      (document location inner).Yields (P inner) (cleaned inner)) :
    (many.clean oracle document location value).Yields (many.Answered oracle P value)
      (many.cleaned oracle cleaned value) := by
  rw [answered_iff_of_contains (by simp)]
  cases value with
  | obj members =>
    rw [forall_contains_single] at sound ⊢
    exact sound location
  | arr items =>
    rw [forall_contains_item] at sound ⊢
    have items := cleanItems_yields location 0 sound
    exact items.map Json.arr
  | _ =>
    apply Cleaning.Yields.pure_of
    intro inner contains
    cases contains

theorem answered_keyed_iff {model : String} {entries : Json.Members} :
    (keyed (some model)).Answered oracle P (.obj entries) ↔
      (∀ entry ∈ entries, P entry.2) ∧
        DocModel.Answered oracle model (Json.Members.keys entries) := by
  rw [← forall_contains_entry]
  constructor
  · intro answered
    exact ⟨answered.documents, answered.keys model entries rfl rfl⟩
  · intro answered
    refine ⟨answered.1, ?_⟩
    intro model' entries' same same'
    cases same
    cases same'
    exact answered.2

theorem clean_keyed_yields {model : Option String} (location : Location)
    (sound : ∀ inner, (keyed model).Contains value inner → ∀ location,
      (document location inner).Yields (P inner) (cleaned inner)) :
    ((keyed model).clean oracle document location value).Yields
      ((keyed model).Answered oracle P value) ((keyed model).cleaned oracle cleaned value) := by
  cases value with
  | obj entries =>
    rw [forall_contains_entry] at sound
    have kept := cleanEntries_yields location sound
    cases model with
    | none =>
      rw [answered_iff_of_contains (by simp), forall_contains_entry]
      exact kept.map Json.obj
    | some model =>
      have keys : Json.Members.keys (entries.map fun entry => (entry.1, cleaned entry.2)) =
          Json.Members.keys entries := by
        simp [Json.Members.keys, Function.comp_def]
      have dropped := dropDangling_yields oracle location model
        (entries.map fun entry => (entry.1, cleaned entry.2))
      rw [keys] at dropped
      rw [answered_keyed_iff]
      exact kept.bind (dropped.map Json.obj)
  | _ =>
    apply Cleaning.Yields.pure_of
    constructor
    · intro inner contains
      cases contains
    · intro model entries _ same
      cases same

theorem clean_yields (location : Location)
    (sound : ∀ inner, embedding.Contains value inner → ∀ location,
      (document location inner).Yields (P inner) (cleaned inner)) :
    (embedding.clean oracle document location value).Yields (embedding.Answered oracle P value)
      (embedding.cleaned oracle cleaned value) := by
  cases embedding with
  | one => exact clean_one_yields location sound
  | many => exact clean_many_yields location sound
  | keyed model => exact clean_keyed_yields location sound

end Embedding

variable {rule : FieldRule} {members : Json.Members} {value : Json}

theorem FieldHead.prune_of_unlisted {head : FieldHead}
    (unlisted : ¬ (members.get? head.name).any (·.isAmong head.removeIf)) :
    head.prune members = pure members := if_neg unlisted

theorem FieldHead.prune_run_of_listed {head : FieldHead} {before : Sweep}
    (listed : (members.get? head.name).any (·.isAmong head.removeIf)) :
    (head.prune members).run before = .ok (members.erase head.name) before.countRemoved := by
  rw [prune, if_pos listed]
  rfl

theorem FieldHead.prune_yields (head : FieldHead) (members : Json.Members) :
    (head.prune members).Yields True
      (if (members.get? head.name).any (·.isAmong head.removeIf) then members.erase head.name
        else members) := by
  rw [FieldHead.prune]
  split
  · apply Cleaning.Yields.after_modify
    exact Cleaning.Yields.pure _
  · exact Cleaning.Yields.pure _

theorem cleanedMember_singleton (member : String × Json) :
    cleanedMember oracle [rule] member =
      if member.1 = rule.name then
        if (rule.cleaned oracle member.2).isAmong rule.head.removeIf then none
        else some (member.1, rule.cleaned oracle member.2)
      else some member := by
  rw [cleanedMember, cleanedMember]

theorem filterMap_cleanedMember_of_absent (absent : rule.name ∉ members.keys) :
    members.filterMap (cleanedMember oracle [rule]) = members := by
  have each : ∀ member ∈ members, cleanedMember oracle [rule] member = some member := by
    intro member mem
    rw [cleanedMember_singleton, if_neg]
    intro same
    exact absent (List.mem_map.2 ⟨member, mem, same⟩)
  rw [List.filterMap_congr each, List.filterMap_some]

theorem filterMap_cleanedMember_of_present (nodup : members.keys.Nodup)
    (found : members.get? rule.name = some value) :
    members.filterMap (cleanedMember oracle [rule]) =
      if (rule.cleaned oracle value).isAmong rule.head.removeIf then
        (members.set rule.name (rule.cleaned oracle value)).erase rule.name
      else members.set rule.name (rule.cleaned oracle value) := by
  -- Every member of this name is the one that is found.
  have own : ∀ member ∈ members, member.1 = rule.name → member.2 = value := by
    intro member mem same
    have found' := Json.Members.get?_of_mem nodup mem
    rw [same, found] at found'
    exact (Option.some.inj found').symm
  split
  · rename_i among
    have each : ∀ member ∈ members, cleanedMember oracle [rule] member =
        Option.guard (fun member => member.1 != rule.name) member := by
      intro member mem
      rw [cleanedMember_singleton]
      split
      · rename_i same
        rw [own member mem same, if_pos among]
        simp [Option.guard, same]
      · rename_i apart
        simp [Option.guard, apart]
    rw [List.filterMap_congr each, List.filterMap_eq_filter, Json.Members.erase_set]
    rfl
  · rename_i wanted
    have each : ∀ member ∈ members, cleanedMember oracle [rule] member =
        some (if member.1 = rule.name then (rule.name, rule.cleaned oracle value) else member) := by
      intro member mem
      rw [cleanedMember_singleton]
      split
      · rename_i same
        rw [own member mem same, if_neg wanted, same]
      · rfl
    rw [List.filterMap_congr each, List.filterMap_eq_map']
    rfl

theorem FieldHead.refine_of_absent {head : FieldHead} (clean : Json → Cleaning Json)
    (absent : members.get? head.name = none) :
    head.refine clean members = pure members := by
  rw [refine, absent]

theorem FieldHead.refine_of_present {head : FieldHead} (clean : Json → Cleaning Json)
    (found : members.get? head.name = some value) :
    head.refine clean members = members.set head.name <$> clean value := by
  rw [refine, found]
  rfl

theorem refine_prune_yields {Q : Json → Prop} {clean : Json → Cleaning Json}
    (nodup : members.keys.Nodup)
    (sound : ∀ value, members.get? rule.name = some value →
      (clean value).Yields (Q value) (rule.cleaned oracle value)) :
    ∃ between,
      (rule.head.refine clean members).Yields
        (∀ value, members.get? rule.name = some value → Q value) between ∧
      (rule.head.prune between).Yields True
        (members.filterMap (cleanedMember oracle [rule])) := by
  cases found : members.get? rule.name with
  | none =>
    rw [FieldHead.refine_of_absent clean found]
    refine ⟨members, Cleaning.Yields.pure_of (by simp) members, ?_⟩
    have absent := Json.Members.get?_eq_none_iff.1 found
    have pruned := rule.head.prune_yields members
    rw [← FieldRule.name, found] at pruned
    apply pruned.congr Iff.rfl
    rw [filterMap_cleanedMember_of_absent absent]
    rfl
  | some value =>
    rw [FieldHead.refine_of_present clean found]
    have cleaned := (sound value found).map (members.set rule.name)
    refine ⟨_, cleaned.congr (by simp) rfl, ?_⟩
    have pruned := rule.head.prune_yields (members.set rule.name (rule.cleaned oracle value))
    rw [← FieldRule.name, Json.Members.get?_set_self found] at pruned
    apply pruned.congr Iff.rfl
    rw [filterMap_cleanedMember_of_present nodup found]
    rfl

theorem get?_filterMap_cleanedMember {name : String} (apart : name ≠ rule.name) :
    Json.Members.get? (members.filterMap (cleanedMember oracle [rule])) name =
      members.get? name := by
  induction members with
  | nil => rfl
  | cons member members ih =>
    obtain ⟨key, value⟩ := member
    rw [Json.Members.get?] at ih
    rw [List.filterMap_cons, cleanedMember_singleton, Json.Members.get?, Json.Members.get?,
      lookup_cons_eq_ite]
    by_cases same : key = rule.name
    · subst same
      rw [if_pos rfl, if_neg apart]
      split
      · exact ih
      · rename_i kept
        split at kept
        · cases kept
        · cases kept
          rw [lookup_cons_eq_ite, if_neg apart]
          exact ih
    · rw [if_neg same]
      dsimp only
      rw [lookup_cons_eq_ite, ih]
      rfl

theorem keys_filterMap_cleanedMember (oracle : Option Oracle) (rules : List FieldRule)
    (members : Json.Members) :
    (Json.Members.keys (members.filterMap (cleanedMember oracle rules))).Sublist members.keys := by
  induction members with
  | nil => exact List.Sublist.refl _
  | cons member members ih =>
    rw [List.filterMap_cons]
    split
    · exact ih.cons _
    · rename_i kept
      rw [Json.Members.keys, List.map_cons, fst_of_cleanedMember kept]
      exact ih.cons_cons _

/-- Cleaning by one rule and then by others of other fields is cleaning by all of them. -/
theorem filterMap_cleanedMember_cons {rules : List FieldRule}
    (apart : rule.name ∉ rules.map FieldRule.name) :
    (members.filterMap (cleanedMember oracle [rule])).filterMap (cleanedMember oracle rules) =
      members.filterMap (cleanedMember oracle (rule :: rules)) := by
  rw [List.filterMap_filterMap]
  apply List.filterMap_congr
  intro member mem
  rw [cleanedMember_singleton, cleanedMember]
  by_cases same : member.1 = rule.name
  · rw [if_pos same, if_pos same]
    dsimp only
    split
    · rfl
    · apply cleanedMember_of_notMem
      rw [same]
      exact apart
  · rw [if_neg same, if_neg same]
    rfl

/-- The oracle answers for every map of ids that is reached in the document. -/
def Validator.Answered (oracle : Option Oracle) (validator : Validator) (document : Json) : Prop :=
  ∀ model entries, validator.HoldsIds document model entries →
    DocModel.Answered oracle model entries.keys

def FieldRule.Answered (oracle : Option Oracle) (rule : FieldRule) (value : Json) : Prop :=
  ∀ head embedding nested, rule = .embedded head embedding nested →
    embedding.Answered oracle (nested.Answered oracle) value

theorem cleanRules_yields {rules : List FieldRule} (location : Location)
    (orderly : (rules.map FieldRule.name).Nodup) (nodup : members.keys.Nodup)
    (sound : ∀ rule ∈ rules, ∀ value, members.get? rule.name = some value → ∀ location,
      (rule.clean oracle location value).Yields (rule.Answered oracle value)
        (rule.cleaned oracle value)) :
    (cleanRules oracle rules location members).Yields
      (∀ rule ∈ rules, ∀ value, members.get? rule.name = some value → rule.Answered oracle value)
      (members.filterMap (cleanedMember oracle rules)) := by
  induction rules generalizing members with
  | nil =>
    apply (Cleaning.Yields.pure members).congr (by simp)
    exact List.filterMap_some.symm
  | cons rule rules ih =>
    rw [List.map_cons, List.nodup_cons] at orderly
    rw [List.forall_mem_cons] at sound
    obtain ⟨between, refined, pruned⟩ := refine_prune_yields nodup fun value found =>
      sound.1 value found (location ++ [.key rule.name])
    -- The other rules find in what is left what they found before.
    have same : ∀ other ∈ rules, Json.Members.get?
        (members.filterMap (cleanedMember oracle [rule])) other.name = members.get? other.name := by
      intro other mem
      apply get?_filterMap_cleanedMember
      intro same
      exact orderly.1 (List.mem_map.2 ⟨other, mem, same⟩)
    have distinct := (keys_filterMap_cleanedMember oracle [rule] members).nodup nodup
    have rest := ih orderly.2 distinct fun other mem value found =>
      sound.2 other mem value ((same other mem).symm.trans found)
    rw [cleanRules, List.forall_mem_cons]
    apply (refined.bind (pruned.bind rest)).congr
    · rw [true_and]
      apply and_congr_right
      intro _
      apply forall₂_congr
      intro other mem
      rw [same other mem]
    · exact filterMap_cleanedMember_cons orderly.1

end DocModel
