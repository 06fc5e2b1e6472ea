import Mathlib.Algebra.BigOperators.Group.List.Basic
import Mathlib.Algebra.GroupWithZero.Nat
import DocModel.Proofs.Json.Members

namespace DocModel

/-- Why a member is struck out: for the value of the field, or as an entry whose key is no id. -/
inductive Strike
  | value
  | dangling
deriving DecidableEq

/-- The key of a member and, if it is struck out, why. -/
structure Heading where
  key : String
  strike : Option Strike
deriving DecidableEq

/-- A document in which members are struck out, at any depth, and still legible. -/
inductive Struck
  | plain (value : Json)
  | arr (items : List Struck)
  | obj (members : List (Heading × Struck))

namespace Struck

mutual

/-- The document with the members whose heading is shown. -/
def seen (shown : Heading → Bool) : Struck → Json
  | plain value => value
  | arr items => .arr (seenItems shown items)
  | obj members => .obj (seenMembers shown members)

def seenItems (shown : Heading → Bool) : List Struck → List Json
  | [] => []
  | item :: items => item.seen shown :: seenItems shown items

def seenMembers (shown : Heading → Bool) : List (Heading × Struck) → Json.Members
  | [] => []
  | (heading, value) :: members =>
    if shown heading then (heading.key, value.seen shown) :: seenMembers shown members
    else seenMembers shown members

end

/-- The document as it was. -/
def before (struck : Struck) : Json := struck.seen fun _ => true

/-- The document without what is struck out. -/
def after (struck : Struck) : Json := struck.seen fun heading => heading.strike.isNone

mutual

/-- How many members are struck out for a reason, those inside of others included. -/
def count (reason : Strike) : Struck → Nat
  | plain _ => 0
  | arr items => countItems reason items
  | obj members => countMembers reason members

def countItems (reason : Strike) : List Struck → Nat
  | [] => 0
  | item :: items => item.count reason + countItems reason items

def countMembers (reason : Strike) : List (Heading × Struck) → Nat
  | [] => 0
  | (heading, value) :: members =>
    (if heading.strike = some reason then 1 else 0) + value.count reason +
      countMembers reason members

end

/-- A member as it was. -/
def memberBefore (member : Heading × Struck) : String × Json := (member.1.key, member.2.before)

/-- What is left of a member, if it is not struck out. -/
def memberAfter (member : Heading × Struck) : Option (String × Json) :=
  if member.1.strike.isNone then some (member.1.key, member.2.after) else none

/-- How often a reason is told in a member. -/
def memberCount (reason : Strike) (member : Heading × Struck) : Nat :=
  (if member.1.strike = some reason then 1 else 0) + member.2.count reason

variable {items : List Struck} {members : List (Heading × Struck)} {reason : Strike}

@[simp] theorem memberAfter_none (key : String) (value : Struck) :
    memberAfter (⟨key, none⟩, value) = some (key, value.after) := rfl

@[simp] theorem memberAfter_some (key : String) (other : Strike) (value : Struck) :
    memberAfter (⟨key, some other⟩, value) = none := rfl

@[simp] theorem memberCount_none (key : String) (value : Struck) :
    memberCount reason (⟨key, none⟩, value) = value.count reason := Nat.zero_add _

@[simp] theorem memberCount_some (key : String) (other : Strike) (value : Struck) :
    memberCount reason (⟨key, some other⟩, value) =
      (if other = reason then 1 else 0) + value.count reason := by
  simp only [memberCount, Option.some.injEq]

theorem seenItems_eq (shown : Heading → Bool) (items : List Struck) :
    seenItems shown items = items.map (seen shown) := by
  induction items with
  | nil => rfl
  | cons item items ih => rw [seenItems, ih, List.map_cons]

@[simp] theorem before_plain (value : Json) : (plain value).before = value := rfl

@[simp] theorem after_plain (value : Json) : (plain value).after = value := rfl

@[simp] theorem count_plain (value : Json) : (plain value).count reason = 0 := rfl

@[simp] theorem before_arr : (arr items).before = .arr (items.map before) :=
  congrArg Json.arr (seenItems_eq _ items)

@[simp] theorem after_arr : (arr items).after = .arr (items.map after) :=
  congrArg Json.arr (seenItems_eq _ items)

@[simp] theorem count_arr : (arr items).count reason = (items.map (count reason)).sum := by
  rw [count]
  induction items with
  | nil => rfl
  | cons item items ih => rw [countItems, ih, List.map_cons, List.sum_cons]

@[simp] theorem before_obj : (obj members).before = .obj (members.map memberBefore) := by
  apply congrArg Json.obj
  induction members with
  | nil => rfl
  | cons member members ih =>
    rw [seenMembers, if_pos rfl, ih]
    rfl

@[simp] theorem after_obj : (obj members).after = .obj (members.filterMap memberAfter) := by
  apply congrArg Json.obj
  induction members with
  | nil => rfl
  | cons member members ih =>
    rw [seenMembers, ih, List.filterMap_cons, memberAfter]
    split <;> rfl

@[simp] theorem count_obj :
    (obj members).count reason = (members.map (memberCount reason)).sum := by
  rw [count]
  induction members with
  | nil => rfl
  | cons member members ih => rw [countMembers, ih, List.map_cons, List.sum_cons, memberCount]

mutual

theorem induct {P : Struck → Prop} (plain : ∀ value, P (plain value))
    (arr : ∀ items, (∀ item ∈ items, P item) → P (arr items))
    (obj : ∀ members, (∀ member ∈ members, P member.2) → P (obj members)) (struck : Struck) :
    P struck := by
  match struck with
  | .plain value => exact plain value
  | .arr items => exact arr items (inductItems plain arr obj items)
  | .obj members => exact obj members (inductMembers plain arr obj members)

theorem inductItems {P : Struck → Prop} (plain : ∀ value, P (plain value))
    (arr : ∀ items, (∀ item ∈ items, P item) → P (arr items))
    (obj : ∀ members, (∀ member ∈ members, P member.2) → P (obj members)) (items : List Struck) :
    ∀ item ∈ items, P item := by
  match items with
  | [] => exact nofun
  | item :: items =>
    rw [List.forall_mem_cons]
    exact ⟨induct plain arr obj item, inductItems plain arr obj items⟩

theorem inductMembers {P : Struck → Prop} (plain : ∀ value, P (plain value))
    (arr : ∀ items, (∀ item ∈ items, P item) → P (arr items))
    (obj : ∀ members, (∀ member ∈ members, P member.2) → P (obj members))
    (members : List (Heading × Struck)) : ∀ member ∈ members, P member.2 := by
  match members with
  | [] => exact nofun
  | (heading, value) :: members =>
    rw [List.forall_mem_cons]
    exact ⟨induct plain arr obj value, inductMembers plain arr obj members⟩

end

/-- How many members are struck out. -/
def total (struck : Struck) : Nat := struck.count .value + struck.count .dangling

/-- How many members are struck out in a member, itself included. -/
def memberTotal (member : Heading × Struck) : Nat :=
  (if member.1.strike.isSome then 1 else 0) + member.2.total

@[simp] theorem memberTotal_none (key : String) (value : Struck) :
    memberTotal (⟨key, none⟩, value) = value.total := Nat.zero_add _

@[simp] theorem memberTotal_some (key : String) (other : Strike) (value : Struck) :
    memberTotal (⟨key, some other⟩, value) = 1 + value.total := rfl

theorem memberTotal_eq (member : Heading × Struck) :
    memberTotal member = memberCount .value member + memberCount .dangling member := by
  obtain ⟨⟨key, _ | _ | _⟩, value⟩ := member
  · rw [memberTotal_none, memberCount_none, memberCount_none, total]
  · simp [total, Nat.add_assoc]
  · simp [total, Nat.add_left_comm]

@[simp] theorem total_plain (value : Json) : (plain value).total = 0 := rfl

@[simp] theorem total_arr : (arr items).total = (items.map total).sum := by
  rw [total, count_arr, count_arr, ← List.sum_map_add]
  rfl

@[simp] theorem total_obj : (obj members).total = (members.map memberTotal).sum := by
  rw [total, count_obj, count_obj, ← List.sum_map_add, List.map_congr_left]
  intro member _
  exact (memberTotal_eq member).symm

theorem sizeOf_after_add_total (struck : Struck) :
    sizeOf struck.after + struck.total ≤ sizeOf struck.before := by
  induction struck using induct with
  | plain value => exact Nat.le_refl _
  | arr items each =>
    simp only [after_arr, before_arr, total_arr, Json.arr.sizeOf_spec]
    induction items with
    | nil => exact Nat.le_refl _
    | cons item items ih =>
      rw [List.forall_mem_cons] at each
      have rest := ih each.2
      have first := each.1
      simp only [List.map_cons, List.sum_cons, List.cons.sizeOf_spec]
      omega
  | obj members each =>
    simp only [after_obj, before_obj, total_obj, Json.obj.sizeOf_spec]
    induction members with
    | nil => exact Nat.le_refl _
    | cons member members ih =>
      rw [List.forall_mem_cons] at each
      have rest := ih each.2
      obtain ⟨⟨key, strike⟩, value⟩ := member
      have first : sizeOf value.after + value.total ≤ sizeOf value.before := each.1
      cases strike with
      | none =>
        simp only [List.filterMap_cons, memberAfter_none, memberBefore, memberTotal_none,
          List.map_cons, List.sum_cons, List.cons.sizeOf_spec, Prod.mk.sizeOf_spec]
        omega
      | some reason =>
        simp only [List.filterMap_cons, memberAfter_some, memberBefore, memberTotal_some,
          List.map_cons, List.sum_cons, List.cons.sizeOf_spec, Prod.mk.sizeOf_spec]
        omega

theorem after_of_total_eq_zero {struck : Struck} (h : struck.total = 0) :
    struck.after = struck.before := by
  induction struck using induct with
  | plain value => rfl
  | arr items each =>
    rw [total_arr, List.sum_eq_zero_iff_forall_eq_nat, List.forall_mem_map] at h
    rw [after_arr, before_arr, List.map_congr_left fun item mem => each item mem (h item mem)]
  | obj members each =>
    rw [total_obj, List.sum_eq_zero_iff_forall_eq_nat, List.forall_mem_map] at h
    have same : ∀ member ∈ members, memberAfter member = some (memberBefore member) := by
      intro member mem
      obtain ⟨unstruck, inside⟩ := Nat.add_eq_zero_iff.1 (h member mem)
      have shown : member.1.strike.isNone := by simpa using unstruck
      rw [memberAfter, if_pos shown, each member mem inside]
      rfl
    rw [after_obj, before_obj, List.filterMap_congr same]
    exact congrArg Json.obj (congrFun List.filterMap_eq_map' members)

/-- A document is changed if and only if something is struck out. -/
theorem after_ne_before_iff (struck : Struck) :
    struck.after ≠ struck.before ↔ 0 < struck.total := by
  constructor
  · intro changed
    apply Nat.pos_of_ne_zero
    intro nothing
    exact changed (after_of_total_eq_zero nothing)
  · intro something same
    have less := struck.sizeOf_after_add_total
    rw [same] at less
    omega

end Struck

end DocModel
