import DocModel.Proofs.Json.Alike

namespace DocModel.Json

/-- The values differ in their numbers only, each being related to the one in its place: by
`outside` if it stands in no object, and by `inside` if it stands in one, at any depth. -/
inductive Renumbered (inside : Number → Number → Prop) :
    (outside : Number → Number → Prop) → Json → Json → Prop
  | null {outside : Number → Number → Prop} : Renumbered inside outside .null .null
  | bool {outside : Number → Number → Prop} (value : Bool) :
    Renumbered inside outside (.bool value) (.bool value)
  | str {outside : Number → Number → Prop} (value : String) :
    Renumbered inside outside (.str value) (.str value)
  | num {outside : Number → Number → Prop} {x y : Number} (related : outside x y) :
    Renumbered inside outside (.num x) (.num y)
  | arr {outside : Number → Number → Prop} {items others : List Json}
    (length : items.length = others.length)
    (each : ∀ pair ∈ items.zip others, Renumbered inside outside pair.1 pair.2) :
    Renumbered inside outside (.arr items) (.arr others)
  | obj {outside : Number → Number → Prop} {members others : Members}
    (keys : members.keys = others.keys)
    (each : ∀ pair ∈ members.zip others, Renumbered inside inside pair.1.2 pair.2.2) :
    Renumbered inside outside (.obj members) (.obj others)

/-- The members stand under the same keys in the same order. -/
def Members.Aligned (R : Json → Json → Prop) (members others : Members) : Prop :=
  List.Forall₂ (fun member other => member.1 = other.1 ∧ R member.2 other.2) members others

namespace Renumbered

variable {inside outside : Number → Number → Prop} {a b : Json} {items : List Json}
  {members others : Members} {x : Number}

theorem num_iff : Renumbered inside outside (.num x) b ↔ ∃ y, b = .num y ∧ outside x y := by
  constructor
  · intro h
    cases h with
    | num related => exact ⟨_, rfl, related⟩
  · intro h
    obtain ⟨y, rfl, related⟩ := h
    exact .num related

theorem arr_iff : Renumbered inside outside (.arr items) b ↔
    ∃ others, b = .arr others ∧ List.Forall₂ (Renumbered inside outside) items others := by
  simp only [List.forall₂_iff_zip]
  constructor
  · intro h
    cases h with
    | arr length each => exact ⟨_, rfl, length, fun mem => each _ mem⟩
  · intro h
    obtain ⟨others, rfl, length, each⟩ := h
    exact .arr length fun pair mem => each mem

theorem obj_iff : Renumbered inside outside (.obj members) b ↔
    ∃ others : Members, b = .obj others ∧
      members.Aligned (Renumbered inside inside) others := by
  have aligned : ∀ {others : Members}, members.Aligned (Renumbered inside inside) others ↔
      members.keys = others.keys ∧
        ∀ pair ∈ members.zip others, Renumbered inside inside pair.1.2 pair.2.2 := by
    intro others
    rw [Members.Aligned]
    induction members generalizing others with
    | nil => cases others <;> simp [Members.keys]
    | cons member members ih =>
      cases others with
      | nil => simp [Members.keys]
      | cons other others =>
        simp only [List.forall₂_cons, Members.keys, List.map_cons, List.cons.injEq,
          List.zip_cons_cons, List.forall_mem_cons] at ih ⊢
        rw [ih]
        exact and_and_and_comm
  constructor
  · intro h
    cases h with
    | obj keys each => exact ⟨_, rfl, aligned.2 ⟨keys, each⟩⟩
  · intro h
    obtain ⟨others, rfl, rest⟩ := h
    obtain ⟨keys, each⟩ := aligned.1 rest
    exact .obj keys each

theorem arr_arr_iff {others : List Json} : Renumbered inside outside (.arr items) (.arr others) ↔
    List.Forall₂ (Renumbered inside outside) items others := by
  rw [arr_iff]
  constructor
  · intro h
    obtain ⟨_, equal, each⟩ := h
    cases equal
    exact each
  · intro each
    exact ⟨others, rfl, each⟩

theorem obj_obj_iff : Renumbered inside outside (.obj members) (.obj others) ↔
    members.Aligned (Renumbered inside inside) others := by
  rw [obj_iff]
  constructor
  · intro h
    obtain ⟨_, equal, aligned⟩ := h
    cases equal
    exact aligned
  · intro aligned
    exact ⟨others, rfl, aligned⟩

theorem eq_of_scalar (h : Renumbered inside outside a b) (noNumber : ∀ n, a ≠ .num n)
    (noItems : ∀ items, a ≠ .arr items) (noMembers : ∀ members, a ≠ .obj members) : a = b := by
  cases h with
  | null | bool | str => rfl
  | num => exact absurd rfl (noNumber _)
  | arr => exact absurd rfl (noItems _)
  | obj => exact absurd rfl (noMembers _)

end Renumbered

namespace Members.Aligned

variable {R S T : Json → Json → Prop} {members others : Members}

theorem length_eq (h : members.Aligned R others) : members.length = others.length :=
  List.Forall₂.length_eq h

theorem keys_eq (h : members.Aligned R others) : members.keys = others.keys := by
  rw [Aligned] at h
  induction h with
  | nil => rfl
  | cons first _ ih => exact congrArg₂ List.cons first.1 ih

theorem imp (h : members.Aligned R others)
    (imp : ∀ member ∈ members, ∀ other, R member.2 other → S member.2 other) :
    members.Aligned S others :=
  forall₂_imp_of_mem h fun member mem other _ both => ⟨both.1, imp member mem other.2 both.2⟩

theorem congr (h : members.Aligned R others)
    (iff : ∀ member ∈ members, ∀ other, R member.2 other → (S member.2 other ↔ T member.2 other)) :
    members.Aligned S others ↔ members.Aligned T others :=
  forall₂_congr_of_mem h fun member mem other _ both =>
    and_congr_right fun _ => iff member mem other.2 both.2

theorem get?_rel (h : members.Aligned R others) (key : String) :
    Option.Rel R (members.get? key) (others.get? key) := by
  rw [Aligned] at h
  induction h with
  | nil => exact .none
  | @cons member other _ _ first _ ih =>
    obtain ⟨name, value⟩ := member
    obtain ⟨name', value'⟩ := other
    obtain ⟨rfl, related⟩ := first
    rw [get?, get?, lookup_cons_eq_ite, lookup_cons_eq_ite]
    split
    · exact .some related
    · exact ih

theorem same_iff (h : members.Aligned R others) (nodup : members.keys.Nodup) :
    (obj members).same (obj others) ↔ members.Aligned (fun x y => x.same y) others := by
  constructor
  · intro same
    obtain ⟨-, held⟩ := obj_same_obj_iff.1 same
    refine forall₂_imp_of_mem h fun member mem other mem' both => ⟨both.1, ?_⟩
    obtain ⟨value, found, inside⟩ := held member mem
    rw [both.1, get?_of_mem (h.keys_eq ▸ nodup) mem'] at found
    cases found
    exact inside
  · intro each
    refine obj_same_obj_iff.2 ⟨h.length_eq, fun member mem => ?_⟩
    have rel := each.get?_rel member.1
    rw [get?_of_mem nodup mem] at rel
    cases found : others.get? member.1 with
    | none =>
      rw [found] at rel
      cases rel
    | some value =>
      rw [found] at rel
      cases rel with
      | some inside => exact ⟨value, rfl, inside⟩

end Members.Aligned

namespace Renumbered

open Number (Equal Identical Steady)

variable {inside outside : Number → Number → Prop} {a b : Json}

/-- Equality is blind to no number: all of them have to be of one form with those they replace. -/
theorem same_iff (distinct : a.Distinct) (h : Renumbered inside outside a b) :
    a.same b ↔ Renumbered Identical Identical a b := by
  induction distinct generalizing outside b with
  | null | bool | str =>
    obtain rfl := h.eq_of_scalar nofun nofun nofun
    exact iff_of_true (same_self (by constructor)) (by constructor)
  | num x =>
    rw [num_same_iff, num_iff]
    rfl
  | arr each ih =>
    obtain ⟨others, rfl, matched⟩ := arr_iff.1 h
    rw [arr_same_iff, arr_iff]
    refine exists_congr fun list => and_congr_right fun same => ?_
    cases same
    exact forall₂_congr_of_mem matched fun item mem other _ related => ih item mem related
  | obj nodup each ih =>
    obtain ⟨others, rfl, aligned⟩ := obj_iff.1 h
    rw [aligned.same_iff nodup, obj_obj_iff]
    exact aligned.congr fun member mem other related => ih member mem related

/-- Equality by value is blind to the forms of numbers outside objects only. -/
theorem alike_iff (distinct : a.Distinct) (h : Renumbered inside outside a b)
    (like : ∀ x y, outside x y → x.alike y) : a.alike b ↔ Renumbered Identical outside a b := by
  induction distinct generalizing b with
  | null | bool | str =>
    obtain rfl := h.eq_of_scalar nofun nofun nofun
    exact iff_of_true (alike_self (by constructor)) (by constructor)
  | num x =>
    obtain ⟨y, rfl, related⟩ := num_iff.1 h
    exact iff_of_true (num_alike_iff.2 ⟨y, rfl, like x y related⟩) (.num related)
  | arr each ih =>
    obtain ⟨others, rfl, matched⟩ := arr_iff.1 h
    rw [arr_alike_iff, arr_iff]
    refine exists_congr fun list => and_congr_right fun same => ?_
    cases same
    exact forall₂_congr_of_mem matched fun item mem other _ related => ih item mem related
  | obj nodup each =>
    rw [obj_alike_eq, same_iff (.obj nodup each) h, obj_iff, obj_iff]

theorem same_right (distinct : a.Distinct) (h : Renumbered Identical Identical a b) (given : Json) :
    given.same a ↔ given.same b := by
  induction distinct generalizing b given with
  | null | bool | str =>
    obtain rfl := h.eq_of_scalar nofun nofun nofun
    exact Iff.rfl
  | num x =>
    obtain ⟨y, rfl, same⟩ := num_iff.1 h
    cases given with
    | num z =>
      refine ⟨fun left => Number.same_trans left same, fun right => ?_⟩
      exact Number.same_trans right ((Number.same_comm y x).trans same)
    | _ => exact Iff.rfl
  | @arr items each ih =>
    obtain ⟨others, rfl, matched⟩ := arr_iff.1 h
    cases given with
    | arr list =>
      have own : ∀ item ∈ items, item.same item := fun item mem => same_self (each item mem)
      have agree := (forall₂_eq_forall₂_iff own).2 <|
        forall₂_imp_of_mem matched fun item mem other _ related => ih item mem related
      exact sameItems_iff.trans ((agree list).trans sameItems_iff.symm)
    | _ => exact Iff.rfl
  | @obj members nodup each ih =>
    obtain ⟨others, rfl, aligned⟩ := obj_iff.1 h
    cases given with
    | obj list =>
      have agree : members.Aligned (fun x y => ∀ given : Json, given.same x ↔ given.same y)
          others := aligned.imp fun member mem other related => ih member mem related
      rw [obj_same_obj_iff, obj_same_obj_iff, aligned.length_eq]
      refine and_congr_right fun _ => forall₂_congr fun member _ => ?_
      have rel := agree.get?_rel member.1
      generalize members.get? member.1 = left at rel ⊢
      generalize others.get? member.1 = right at rel ⊢
      cases rel with
      | none => exact Iff.rfl
      | some same => simp [same]
    | _ => exact Iff.rfl

/-- Numbers that are replaced by equal ones change no comparison with any value exactly if those in
objects keep their form and the others are steady. -/
theorem forall_alike_iff (distinct : a.Distinct) (h : Renumbered Equal Equal a b) :
    (∀ given : Json, given.alike a ↔ given.alike b) ↔ Renumbered Identical Steady a b := by
  induction distinct generalizing b with
  | null | bool | str =>
    obtain rfl := h.eq_of_scalar nofun nofun nofun
    exact iff_of_true (fun _ => Iff.rfl) (by constructor)
  | num x =>
    obtain ⟨y, rfl, equal⟩ := num_iff.1 h
    have steady := Number.forall_alike_iff_steady equal
    constructor
    · intro all
      exact .num (steady.1 fun z => all (.num z))
    · intro h given
      cases h with
      | num held =>
        cases given with
        | num z => exact steady.2 held z
        | _ => exact Iff.rfl
  | @arr items each ih =>
    obtain ⟨others, rfl, matched⟩ := arr_iff.1 h
    have own : ∀ item ∈ items, item.alike item := fun item mem => alike_self (each item mem)
    have lists : (∀ given : Json, given.alike (.arr items) ↔ given.alike (.arr others)) ↔
        ∀ list : List Json, List.Forall₂ (fun x y : Json => x.alike y) list items ↔
          List.Forall₂ (fun x y : Json => x.alike y) list others := by
      simp only [← alikeItems_iff]
      constructor
      · intro all list
        exact all (.arr list)
      · intro all given
        cases given with
        | arr list => exact all list
        | _ => exact Iff.rfl
    rw [lists, forall₂_eq_forall₂_iff own, arr_arr_iff]
    exact forall₂_congr_of_mem matched fun item mem other _ related => ih item mem related
  | @obj members nodup each =>
    obtain ⟨others, rfl, -⟩ := obj_iff.1 h
    -- The object itself is among the given values, and equals the other only in every form.
    constructor
    · intro all
      have like := (all (.obj members)).1 (alike_self (.obj nodup each))
      rw [obj_alike_eq, same_iff (.obj nodup each) h] at like
      exact obj_obj_iff.2 (obj_obj_iff.1 like)
    · intro steady given
      rw [alike_obj_eq, alike_obj_eq]
      exact same_right (.obj nodup each) (obj_obj_iff.2 (obj_obj_iff.1 steady)) given

end Renumbered

end DocModel.Json
