import DocModel.Proofs.Validator.Reordered

namespace DocModel

variable {oracle : Option Oracle} {first second : FieldRule} {rules rules' : List FieldRule}
  {members after : Json.Members}

namespace FieldHead

theorem store_comm {head other : FieldHead} (apart : head.name ≠ other.name) (out out' : Json)
    (members : Json.Members) :
    (Json.obj (other.store out' (head.store out members))).Reordered
      (.obj (head.store out (other.store out' members))) := by
  simp only [store]
  split
  · split
    · rw [Json.Members.erase, Json.Members.erase, Json.Members.erase, Json.Members.erase,
        List.filter_comm]
      exact .refl _
    · rw [Json.Members.erase_insert_ne apart]
      exact .refl _
  · split
    · rw [Json.Members.erase_insert_ne apart.symm]
      exact .refl _
    · exact .insert_comm members out out' apart

end FieldHead

namespace Rewrites

theorem swap (follow : List.Forall₂ (FieldRule.Follows oracle) rules rules)
    (apart : first.name ≠ second.name)
    (rewrites : Rewrites oracle (first :: second :: rules) members after) :
    ∃ after', Rewrites oracle (second :: first :: rules) members after' ∧
      (Json.obj after).Reordered (.obj after') := by
  -- Neither field sees what became of the other.
  have unseen (out : Json) (members : Json.Members) :
      second.head.given? (first.head.store out members) = second.head.given? members :=
    FieldHead.given?_congr (FieldHead.get?_store_ne apart.symm)
  have unseen' (out : Json) (members : Json.Members) :
      first.head.given? (second.head.store out members) = first.head.given? members :=
    FieldHead.given?_congr (FieldHead.get?_store_ne apart)
  cases rewrites with
  | skip missing optional rest =>
    cases rest with
    | skip missing' optional' rest =>
      exact ⟨after, .skip missing' optional' (.skip missing optional rest), .refl _⟩
    | store given returns rest =>
      exact ⟨after, .store given returns (.skip ((unseen' _ _).trans missing) optional rest),
        .refl _⟩
  | store given returns rest =>
    cases rest with
    | skip missing optional rest =>
      rw [unseen] at missing
      exact ⟨after, .skip missing optional (.store given returns rest), .refl _⟩
    | store given' returns' rest =>
      rw [unseen] at given'
      obtain ⟨after', rest', outside⟩ :=
        rest.reordered follow (FieldHead.store_comm apart _ _ members)
      exact ⟨after', .store given' returns' (.store ((unseen' _ _).trans given) returns rest'),
        outside⟩

theorem perm (shuffled : rules.Perm rules') (nodup : (rules.map FieldRule.name).Nodup)
    (follow : ∀ rule ∈ rules, rule.Follows oracle rule)
    (rewrites : Rewrites oracle rules members after) :
    ∃ after', Rewrites oracle rules' members after' ∧
      (Json.obj after).Reordered (.obj after') := by
  induction shuffled generalizing members after with
  | nil => exact ⟨after, rewrites, .refl _⟩
  | cons rule _ ih =>
    rw [List.map_cons, List.nodup_cons] at nodup
    rw [List.forall_mem_cons] at follow
    cases rewrites with
    | skip missing optional rest =>
      obtain ⟨after', rest', outside⟩ := ih nodup.2 follow.2 rest
      exact ⟨after', .skip missing optional rest', outside⟩
    | store given returns rest =>
      obtain ⟨after', rest', outside⟩ := ih nodup.2 follow.2 rest
      exact ⟨after', .store given returns rest', outside⟩
  | swap first second rules =>
    rw [List.map_cons, List.map_cons, List.nodup_cons, List.mem_cons, not_or] at nodup
    rw [List.forall_mem_cons, List.forall_mem_cons] at follow
    exact swap (List.forall₂_same.2 follow.2.2) nodup.1.1 rewrites
  | trans one _ ih ih' =>
    obtain ⟨between, rewrites', inside⟩ := ih nodup follow rewrites
    obtain ⟨after', rewrites'', outside⟩ := ih' ((one.map _).nodup_iff.1 nodup)
      (fun rule mem => follow rule (one.mem_iff.2 mem)) rewrites'
    exact ⟨after', rewrites'', inside.trans outside⟩

end Rewrites

theorem FieldRule.names_of_follow (follow : List.Forall₂ (Follows oracle) rules rules') :
    rules'.map name = rules.map name := by
  induction follow with
  | nil => rfl
  | cons first _ ih => rw [List.map_cons, List.map_cons, ih, name, name, first.head]

/-- Validators of the same fields, in whatever order, accept the same documents and leave the same
members of them, up to order. -/
theorem Validator.Orderly.carries_of_perm {typeName typeName' : String} {rejectsUnknown : Bool}
    {middle : List FieldRule} (orderly : (Validator.mk typeName rejectsUnknown rules).Orderly)
    (orderly' : (Validator.mk typeName' rejectsUnknown rules').Orderly)
    (shuffled : rules.Perm middle)
    (follow : List.Forall₂ (FieldRule.Follows oracle) middle rules') :
    Carries ((Validator.mk typeName rejectsUnknown rules).Returns oracle)
      ((Validator.mk typeName' rejectsUnknown rules').Returns oracle) := by
  have names : (rules.map FieldRule.name).Perm (rules'.map FieldRule.name) :=
    FieldRule.names_of_follow follow ▸ shuffled.map _
  have own : ∀ rule ∈ rules, rule.Follows oracle rule := by
    intro rule mem
    exact rule.follows_self fun head embedding nested same =>
      (orderly.of_mem mem head embedding nested same).orderless
  intro document other out returns h
  obtain ⟨members, rfl⟩ := Validator.isObject_of_returns returns
  obtain ⟨others, rfl⟩ := h.exists_obj
  obtain ⟨known, after, rewrites, rfl⟩ := orderly.returns_obj_iff.1 returns
  obtain ⟨between, rewrites, inside⟩ := rewrites.perm shuffled orderly.nodup_names own
  obtain ⟨after', rewrites, outside⟩ := rewrites.reordered follow h
  refine ⟨.obj after', orderly'.returns_obj_iff.2 ⟨?_, after', rewrites, rfl⟩,
    inside.trans outside⟩
  intro strict key mem
  exact names.mem_iff.1 (known strict key (h.mem_keys_iff.2 mem))

end DocModel
