import Mathlib.Data.List.Perm.Subperm
import DocModel.Proofs.Json.Members
import DocModel.Proofs.Json.Number
import DocModel.Proofs.Lists

namespace DocModel.Json

variable {a b c : Json} {items others : List Json} {members : Members} {x : Number}

section

attribute [local simp] same sameItems sameMembers alike alikeItems

theorem sameItems_iff :
    sameItems items others ↔ List.Forall₂ (fun x y => x.same y) items others := by
  induction items generalizing others with
  | nil => cases others <;> simp
  | cons item items ih => cases others <;> simp [ih]

theorem sameMembers_iff {others : Members} :
    sameMembers members others ↔
      ∀ member ∈ members, ∃ other, others.get? member.1 = some other ∧ member.2.same other := by
  induction members with
  | nil => simp
  | cons member members ih =>
    obtain ⟨key, value⟩ := member
    rw [sameMembers, Bool.and_eq_true, ih, List.forall_mem_cons, Option.any_eq_true]

theorem alikeItems_iff :
    alikeItems items others ↔ List.Forall₂ (fun x y => x.alike y) items others := by
  induction items generalizing others with
  | nil => cases others <;> simp
  | cons item items ih => cases others <;> simp [ih]

theorem num_same_iff : (num x).same b ↔ ∃ y, b = num y ∧ x.same y := by
  cases b <;> simp

theorem arr_same_iff : (arr items).same b ↔
    ∃ others, b = arr others ∧ List.Forall₂ (fun x y => x.same y) items others := by
  cases b <;> simp [sameItems_iff]

theorem obj_same_obj_iff {others : Members} :
    (obj members).same (obj others) ↔ members.length = others.length ∧
      ∀ member ∈ members, ∃ other, others.get? member.1 = some other ∧ member.2.same other := by
  rw [same, Bool.and_eq_true, beq_iff_eq, sameMembers_iff]

theorem obj_same_iff : (obj members).same b ↔
    ∃ others : Members, b = obj others ∧ members.length = others.length ∧
      ∀ member ∈ members, ∃ other, others.get? member.1 = some other ∧ member.2.same other := by
  cases b with
  | obj others => simp [sameMembers_iff]
  | _ => simp

theorem eq_of_same (h : a.same b) (noNumber : ∀ n, a ≠ num n) (noItems : ∀ items, a ≠ arr items)
    (noMembers : ∀ members, a ≠ obj members) : a = b := by
  cases a with
  | num n => exact absurd rfl (noNumber n)
  | arr items => exact absurd rfl (noItems items)
  | obj members => exact absurd rfl (noMembers members)
  | _ => cases b <;> simp_all

theorem num_alike_iff : (num x).alike b ↔ ∃ y, b = num y ∧ x.alike y := by
  cases b <;> simp

theorem arr_alike_iff : (arr items).alike b ↔
    ∃ others, b = arr others ∧ List.Forall₂ (fun x y => x.alike y) items others := by
  cases b <;> simp [alikeItems_iff]

theorem obj_alike_eq : (obj members).alike b = (obj members).same b := by cases b <;> rfl

theorem alike_obj_eq : b.alike (obj members) = b.same (obj members) := by cases b <;> rfl

theorem eq_of_alike (h : a.alike b) (noNumber : ∀ n, a ≠ num n) (noItems : ∀ items, a ≠ arr items)
    (noMembers : ∀ members, a ≠ obj members) : a = b := by
  have same : a.alike b = a.same b := by
    cases a with
    | num n => exact absurd rfl (noNumber n)
    | arr items => exact absurd rfl (noItems items)
    | _ => cases b <;> rfl
  exact eq_of_same (same ▸ h) noNumber noItems noMembers

end

theorem same_self (distinct : a.Distinct) : a.same a := by
  induction distinct with
  | null => rfl
  | bool value => exact beq_self_eq_true value
  | str value => exact beq_self_eq_true value
  | num x => exact num_same_iff.2 ⟨x, rfl, x.same_self⟩
  | arr _ ih => exact arr_same_iff.2 ⟨_, rfl, List.forall₂_same.2 ih⟩
  | obj nodup _ ih =>
    refine obj_same_iff.2 ⟨_, rfl, rfl, fun member mem => ?_⟩
    exact ⟨member.2, Members.get?_of_mem nodup mem, ih member mem⟩

theorem Members.mem_keys_of_length {others : Members} {key : String}
    (nodup : members.keys.Nodup) (length : members.length = others.length)
    (found : ∀ member ∈ members, ∃ other, others.get? member.1 = some other)
    (mem : key ∈ others.keys) : key ∈ members.keys := by
  have subset : members.keys ⊆ others.keys := by
    intro key listed
    obtain ⟨member, mem, rfl⟩ := List.mem_map.1 listed
    obtain ⟨other, found⟩ := found member mem
    exact List.mem_map.2 ⟨_, mem_of_get? found, rfl⟩
  have fits : others.keys.length ≤ members.keys.length := by
    simp only [keys, List.length_map, length, Nat.le_refl]
  exact ((List.subperm_of_subset nodup subset).perm_of_length_le fits).mem_iff.2 mem

theorem same_symm (distinct : a.Distinct) (distinct' : b.Distinct) (h : a.same b) : b.same a := by
  induction distinct generalizing b with
  | null | bool | str =>
    obtain rfl := eq_of_same h nofun nofun nofun
    exact h
  | num x =>
    obtain ⟨y, rfl, inside⟩ := num_same_iff.1 h
    exact (Number.same_comm y x).trans inside
  | arr each ih =>
    obtain ⟨others, rfl, matched⟩ := arr_same_iff.1 h
    rw [distinct_arr_iff] at distinct'
    refine arr_same_iff.2 ⟨_, rfl, ?_⟩
    refine forall₂_imp_of_mem matched.flip fun other mem item mem' found => ?_
    exact ih item mem' (distinct' other mem) found
  | @obj members nodup each ih =>
    obtain ⟨others, rfl, length, held⟩ := obj_same_iff.1 h
    rw [distinct_obj_iff] at distinct'
    refine obj_same_iff.2 ⟨_, rfl, length.symm, fun other mem' => ?_⟩
    -- Only the members of the first object are compared; that the second has no more is counted.
    have listed : other.1 ∈ members.keys := by
      apply Members.mem_keys_of_length nodup length _ (List.mem_map_of_mem mem')
      intro member mem
      obtain ⟨value, found, -⟩ := held member mem
      exact ⟨value, found⟩
    obtain ⟨member, mem, key⟩ := List.mem_map.1 listed
    obtain ⟨value, found, inside⟩ := held member mem
    rw [key, Members.get?_of_mem distinct'.1 mem'] at found
    cases found
    refine ⟨member.2, ?_, ih member mem (distinct'.2 other mem') inside⟩
    rw [← key]
    exact Members.get?_of_mem nodup mem

theorem same_trans (distinct : a.Distinct) (one : a.same b) (two : b.same c) : a.same c := by
  induction distinct generalizing b c with
  | null | bool | str =>
    obtain rfl := eq_of_same one nofun nofun nofun
    exact two
  | num x =>
    obtain ⟨y, rfl, first⟩ := num_same_iff.1 one
    obtain ⟨z, rfl, second⟩ := num_same_iff.1 two
    exact num_same_iff.2 ⟨z, rfl, Number.same_trans first second⟩
  | arr each ih =>
    obtain ⟨others, rfl, first⟩ := arr_same_iff.1 one
    obtain ⟨thirds, rfl, second⟩ := arr_same_iff.1 two
    refine arr_same_iff.2 ⟨thirds, rfl, ?_⟩
    have known := forall₂_imp_of_mem first fun item mem _ _ same => And.intro mem same
    refine forall₂_trans ?_ known second
    intro item other third listed same
    exact ih item listed.1 listed.2 same
  | obj nodup each ih =>
    obtain ⟨others, rfl, length, held⟩ := obj_same_iff.1 one
    obtain ⟨thirds, rfl, length', held'⟩ := obj_same_iff.1 two
    refine obj_same_iff.2 ⟨thirds, rfl, length.trans length', fun member mem => ?_⟩
    obtain ⟨other, found, first⟩ := held member mem
    obtain ⟨third, found', second⟩ := held' _ (Members.mem_of_get? found)
    exact ⟨third, found', ih member mem first second⟩

theorem alike_self (distinct : a.Distinct) : a.alike a := by
  induction distinct with
  | num x => exact num_alike_iff.2 ⟨x, rfl, x.alike_self⟩
  | arr _ ih => exact arr_alike_iff.2 ⟨_, rfl, List.forall₂_same.2 ih⟩
  | null => rfl
  | bool value => exact beq_self_eq_true value
  | str value => exact beq_self_eq_true value
  | obj nodup each ih => exact same_self (.obj nodup each)

theorem alike_symm (distinct : a.Distinct) (distinct' : b.Distinct) (h : a.alike b) :
    b.alike a := by
  induction distinct generalizing b with
  | null | bool | str =>
    obtain rfl := eq_of_alike h nofun nofun nofun
    exact h
  | num x =>
    obtain ⟨y, rfl, inside⟩ := num_alike_iff.1 h
    exact num_alike_iff.2 ⟨x, rfl, (Number.alike_comm x y).1 inside⟩
  | arr each ih =>
    obtain ⟨others, rfl, matched⟩ := arr_alike_iff.1 h
    rw [distinct_arr_iff] at distinct'
    refine arr_alike_iff.2 ⟨_, rfl, ?_⟩
    refine forall₂_imp_of_mem matched.flip fun other mem item mem' found => ?_
    exact ih item mem' (distinct' other mem) found
  | obj nodup each =>
    rw [obj_alike_eq] at h
    have back := same_symm (.obj nodup each) distinct' h
    obtain ⟨others, rfl, -⟩ := obj_same_iff.1 h
    rwa [obj_alike_eq]

/-- At one place, reached through lists, the three values hold numbers of which the second bridges
the others. -/
inductive Bridges : Json → Json → Json → Prop
  | num {x y z : Number} (bridges : Number.Bridges x y z) : Bridges (num x) (num y) (num z)
  | item {x y z : Json} {xs ys zs : List Json} (inside : Bridges x y z) :
    Bridges (arr (x :: xs)) (arr (y :: ys)) (arr (z :: zs))
  | items {x y z : Json} {xs ys zs : List Json} (rest : Bridges (arr xs) (arr ys) (arr zs)) :
    Bridges (arr (x :: xs)) (arr (y :: ys)) (arr (z :: zs))

theorem bridges_cons_iff {x y z : Json} {xs ys zs : List Json} :
    Bridges (arr (x :: xs)) (arr (y :: ys)) (arr (z :: zs)) ↔
      Bridges x y z ∨ Bridges (arr xs) (arr ys) (arr zs) := by
  constructor
  · intro bridges
    cases bridges with
    | item inside => exact .inl inside
    | items rest => exact .inr rest
  · intro bridges
    obtain inside | rest := bridges
    · exact .item inside
    · exact .items rest

theorem forall₂_alike_trans_iff {thirds : List Json}
    (one : List.Forall₂ (fun x y => x.alike y) items others)
    (two : List.Forall₂ (fun x y => x.alike y) others thirds)
    (each : ∀ x ∈ items, ∀ {y z}, x.alike y → y.alike z → (x.alike z ↔ ¬ Bridges x y z)) :
    List.Forall₂ (fun x y => x.alike y) items thirds ↔
      ¬ Bridges (arr items) (arr others) (arr thirds) := by
  induction one generalizing thirds with
  | nil =>
    cases two
    exact iff_of_true .nil nofun
  | cons first rest ih =>
    cases two with
    | cons second rest' =>
      rw [List.forall_mem_cons] at each
      rw [List.forall₂_cons, bridges_cons_iff, not_or, each.1 first second, ih rest' each.2]

/-- The equality is passed on from value to value but over a bridge. -/
theorem alike_trans_iff (distinct : a.Distinct) (one : a.alike b) (two : b.alike c) :
    a.alike c ↔ ¬ Bridges a b c := by
  induction distinct generalizing b c with
  | null | bool | str =>
    obtain rfl := eq_of_alike one nofun nofun nofun
    exact iff_of_true two nofun
  | num x =>
    obtain ⟨y, rfl, first⟩ := num_alike_iff.1 one
    obtain ⟨z, rfl, second⟩ := num_alike_iff.1 two
    have bridged : Bridges (num x) (num y) (num z) ↔ Number.Bridges x y z :=
      ⟨fun | .num bridges => bridges, .num⟩
    rw [bridged, ← Number.alike_trans_iff first second]
    rfl
  | arr each ih =>
    obtain ⟨others, rfl, first⟩ := arr_alike_iff.1 one
    obtain ⟨thirds, rfl, second⟩ := arr_alike_iff.1 two
    rw [← forall₂_alike_trans_iff first second ih]
    exact alikeItems_iff
  | obj nodup each =>
    rw [obj_alike_eq] at one ⊢
    refine iff_of_true ?_ nofun
    have passed := same_trans (.obj nodup each) one (c := c)
    obtain ⟨others, rfl, -⟩ := obj_same_iff.1 one
    rw [obj_alike_eq] at two
    exact passed two

end DocModel.Json
