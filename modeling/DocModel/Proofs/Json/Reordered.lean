import DocModel.Json.Equality
import DocModel.Proofs.Json.Insert
import DocModel.Proofs.Lists

namespace DocModel

/-- The values differ only in the order of members of objects, at any depth: one comes from the
other when two neighbouring members of different keys change places, again and again. -/
inductive Json.Reordered : Json → Json → Prop
  | refl (value : Json) : Reordered value value
  | trans {first second third : Json} (one : Reordered first second)
    (two : Reordered second third) : Reordered first third
  | item {item other : Json} (items : List Json) (inside : Reordered item other) :
    Reordered (.arr (item :: items)) (.arr (other :: items))
  | items (item : Json) {items others : List Json} (rest : Reordered (.arr items) (.arr others)) :
    Reordered (.arr (item :: items)) (.arr (item :: others))
  | member (key : String) {value other : Json} (members : Json.Members)
    (inside : Reordered value other) :
    Reordered (.obj ((key, value) :: members)) (.obj ((key, other) :: members))
  | members (member : String × Json) {members others : Json.Members}
    (rest : Reordered (.obj members) (.obj others)) :
    Reordered (.obj (member :: members)) (.obj (member :: others))
  | swap {first second : String × Json} (members : Json.Members) (apart : first.1 ≠ second.1) :
    Reordered (.obj (first :: second :: members)) (.obj (second :: first :: members))

namespace Json.Reordered

variable {value other : Json} {items others : List Json} {key : String}

theorem symm (h : value.Reordered other) : other.Reordered value := by
  induction h with
  | refl value => exact .refl value
  | trans _ _ one two => exact two.trans one
  | item items _ inside => exact .item items inside
  | items item _ rest => exact .items item rest
  | member key members _ inside => exact .member key members inside
  | members member _ rest => exact .members member rest
  | swap members apart => exact .swap members apart.symm

theorem exists_arr (h : (arr items).Reordered other) :
    ∃ others, other = arr others ∧ List.Forall₂ Reordered items others := by
  generalize same : arr items = value at h
  induction h generalizing items with
  | refl value =>
    exact ⟨items, same.symm, List.forall₂_same.2 fun item _ => .refl item⟩
  | trans _ _ one two =>
    obtain ⟨between, rfl, first⟩ := one same
    obtain ⟨others, rfl, second⟩ := two rfl
    exact ⟨others, rfl, forall₂_trans .trans first second⟩
  | item items inside =>
    cases same
    exact ⟨_, rfl, .cons inside (List.forall₂_same.2 fun item _ => .refl item)⟩
  | items item _ rest =>
    cases same
    obtain ⟨others, same, each⟩ := rest rfl
    cases same
    exact ⟨_, rfl, .cons (.refl item) each⟩
  | member | members | swap => cases same

theorem arr_of_forall₂ (h : List.Forall₂ Reordered items others) :
    (arr items).Reordered (arr others) := by
  induction h with
  | nil => exact .refl _
  | cons first _ rest => exact (Reordered.item _ first).trans (.items _ rest)

section

variable {members others : Members}

theorem exists_obj (h : (obj members).Reordered other) : ∃ others, other = obj others := by
  generalize same : obj members = document at h
  induction h generalizing members with
  | refl document => exact ⟨members, same.symm⟩
  | trans _ _ one two =>
    obtain ⟨between, rfl⟩ := one same
    exact two rfl
  | item | items => cases same
  | member | members | swap => exact ⟨_, rfl⟩

theorem obj_induction {P : Members → Members → Prop} (h : (obj members).Reordered (obj others))
    (refl : ∀ members, P members members)
    (trans : ∀ {first second third}, P first second → P second third → P first third)
    (value : ∀ key {value other} members, value.Reordered other →
      P ((key, value) :: members) ((key, other) :: members))
    (rest : ∀ member {members others}, P members others →
      P (member :: members) (member :: others))
    (swap : ∀ {first second} members, first.1 ≠ second.1 →
      P (first :: second :: members) (second :: first :: members)) : P members others := by
  generalize same : obj members = document at h
  generalize same' : obj others = document' at h
  induction h generalizing members others with
  | refl document =>
    cases same.trans same'.symm
    exact refl members
  | trans one _ below below' =>
    obtain ⟨between, rfl⟩ := exists_obj (same ▸ one)
    exact trans (below same rfl) (below' rfl same')
  | item | items => cases same
  | member key members inside =>
    cases same
    cases same'
    exact value key members inside
  | members member _ below =>
    cases same
    cases same'
    exact rest member (below rfl rfl)
  | swap members apart =>
    cases same
    cases same'
    exact swap members apart

theorem keys_perm (h : (obj members).Reordered (obj others)) : members.keys.Perm others.keys := by
  refine obj_induction (P := fun members others => members.keys.Perm others.keys) h ?_ ?_ ?_ ?_ ?_
  · exact fun members => .refl _
  · exact .trans
  · exact fun key _ _ members _ => .refl _
  · exact fun member _ _ rest => rest.cons member.1
  · exact fun members _ => .swap _ _ _

theorem mem_keys_iff (h : (obj members).Reordered (obj others)) :
    key ∈ members.keys ↔ key ∈ others.keys := h.keys_perm.mem_iff

theorem get?_eq_none_iff (h : (obj members).Reordered (obj others)) :
    members.get? key = none ↔ others.get? key = none := by
  rw [Members.get?_eq_none_iff, Members.get?_eq_none_iff, h.mem_keys_iff]

theorem exists_get? (h : (obj members).Reordered (obj others))
    (found : members.get? key = some value) :
    ∃ other, others.get? key = some other ∧ value.Reordered other := by
  revert value
  refine obj_induction (P := fun members others => ∀ {value}, members.get? key = some value →
    ∃ other, others.get? key = some other ∧ value.Reordered other) h ?_ ?_ ?_ ?_ ?_
  · exact fun members value found => ⟨value, found, .refl value⟩
  · intro _ _ _ one two value found
    obtain ⟨between, found, first⟩ := one found
    obtain ⟨other, found, second⟩ := two found
    exact ⟨other, found, first.trans second⟩
  · intro name _ _ members inside value found
    rw [Members.get?, lookup_cons_eq_ite] at found ⊢
    split at found
    · rename_i same
      cases found
      exact ⟨_, if_pos same, inside⟩
    · rename_i apart
      exact ⟨value, (if_neg apart).trans found, .refl value⟩
  · intro member _ _ rest value found
    rw [Members.get?, lookup_cons_eq_ite] at found ⊢
    split at found
    · rename_i same
      cases found
      exact ⟨_, if_pos same, .refl _⟩
    · rename_i apart
      rw [if_neg apart]
      exact rest found
  · intro first second members apart value found
    refine ⟨value, ?_, .refl value⟩
    obtain ⟨name, own⟩ := first
    obtain ⟨name', own'⟩ := second
    simp only [Members.get?, lookup_cons_eq_ite] at found ⊢
    by_cases same : key = name
    · rw [if_pos same] at found
      rw [if_neg (same ▸ apart), if_pos same, found]
    · rw [if_neg same] at found
      rw [if_neg same, found]

theorem filter (keep : String → Bool) (h : (obj members).Reordered (obj others)) :
    (obj (members.filter (keep ·.1))).Reordered (obj (others.filter (keep ·.1))) := by
  refine obj_induction (P := fun members others =>
    (obj (members.filter (keep ·.1))).Reordered (obj (others.filter (keep ·.1)))) h ?_ ?_ ?_ ?_ ?_
  · exact fun members => .refl _
  · exact .trans
  · intro key value other members inside
    simp only [List.filter_cons]
    split
    · exact .member key _ inside
    · exact .refl _
  · intro member members others rest
    simp only [List.filter_cons]
    split
    · exact .members member rest
    · exact rest
  · intro first second members apart
    simp only [List.filter_cons]
    split
    · split
      · exact .swap _ apart
      · exact .refl _
    · exact .refl _

theorem erase (key : String) (h : (obj members).Reordered (obj others)) :
    (obj (members.erase key)).Reordered (obj (others.erase key)) := h.filter (· != key)

theorem set (key : String) (new : Json) (h : (obj members).Reordered (obj others)) :
    (obj (members.set key new)).Reordered (obj (others.set key new)) := by
  refine obj_induction (P := fun members others =>
    (obj (members.set key new)).Reordered (obj (others.set key new))) h ?_ ?_ ?_ ?_ ?_
  · exact fun members => .refl _
  · exact .trans
  · intro name value other members inside
    simp only [Members.set, List.map_cons]
    split
    · exact .refl _
    · exact .member name _ inside
  · exact fun member _ _ rest => .members _ rest
  · intro first second members apart
    refine .swap _ ?_
    dsimp only
    split
    · rename_i same
      split
      · rename_i same'
        exact absurd (same.trans same'.symm) apart
      · exact same ▸ apart
    · split
      · rename_i same'
        exact same' ▸ apart
      · exact apart

theorem set_value (members : Members) (key : String) (h : value.Reordered other) :
    (obj (members.set key value)).Reordered (obj (members.set key other)) := by
  induction members with
  | nil => exact .refl _
  | cons member members ih =>
    simp only [Members.set, List.map_cons]
    split
    · exact (Reordered.member key _ h).trans (.members _ ih)
    · exact .members member ih

theorem concat (member : String × Json) (h : (obj members).Reordered (obj others)) :
    (obj (members ++ [member])).Reordered (obj (others ++ [member])) := by
  refine obj_induction (P := fun members others =>
    (obj (members ++ [member])).Reordered (obj (others ++ [member]))) h ?_ ?_ ?_ ?_ ?_
  · exact fun members => .refl _
  · exact .trans
  · exact fun key _ _ members inside => .member key _ inside
  · exact fun first _ _ rest => .members first rest
  · exact fun members apart => .swap _ apart

theorem concat_value (members : Members) (key : String) (h : value.Reordered other) :
    (obj (members ++ [(key, value)])).Reordered (obj (members ++ [(key, other)])) := by
  induction members with
  | nil => exact .member key [] h
  | cons member members ih => exact .members member ih

theorem insert (key : String) (h : (obj members).Reordered (obj others))
    (inside : value.Reordered other) :
    (obj (members.insert key value)).Reordered (obj (others.insert key other)) := by
  by_cases mem : key ∈ members.keys
  · rw [Members.insert_of_mem mem, Members.insert_of_mem (h.mem_keys_iff.1 mem)]
    exact (h.set key value).trans (set_value others key inside)
  · rw [Members.insert_of_notMem mem, Members.insert_of_notMem (mt h.mem_keys_iff.2 mem)]
    exact (h.concat _).trans (concat_value others key inside)

theorem swap_last (members : Members) {first second : String × Json}
    (apart : first.1 ≠ second.1) :
    (obj (members ++ [first] ++ [second])).Reordered (obj (members ++ [second] ++ [first])) := by
  induction members with
  | nil => exact .swap [] apart
  | cons member members ih => exact .members member ih

theorem insert_comm (members : Members) {first second : String} (value new : Json)
    (apart : first ≠ second) :
    (obj ((members.insert first value).insert second new)).Reordered
      (obj ((members.insert second new).insert first value)) := by
  by_cases mem : first ∈ members.keys
  · rw [Members.insert_comm mem apart.symm]
    exact .refl _
  · by_cases mem' : second ∈ members.keys
    · rw [Members.insert_comm mem' apart]
      exact .refl _
    · have fresh : first ∉ (members.insert second new).keys := by
        rwa [← Members.get?_isSome_iff, Members.get?_insert_ne apart, Members.get?_isSome_iff]
      have fresh' : second ∉ (members.insert first value).keys := by
        rwa [← Members.get?_isSome_iff, Members.get?_insert_ne apart.symm, Members.get?_isSome_iff]
      rw [Members.insert_of_notMem fresh, Members.insert_of_notMem fresh',
        Members.insert_of_notMem mem, Members.insert_of_notMem mem']
      exact swap_last members apart

end

theorem eq_of_scalar (h : value.Reordered other) (noItems : ∀ items, value ≠ arr items)
    (noMembers : ∀ members, value ≠ obj members) : other = value := by
  induction h with
  | refl value => rfl
  | trans _ _ one two =>
    obtain rfl := one noItems noMembers
    exact two noItems noMembers
  | item | items => exact absurd rfl (noItems _)
  | member | members | swap => exact absurd rfl (noMembers _)

theorem eq_or_exists (h : value.Reordered other) : other = value ∨
    (∃ items others, value = arr items ∧ other = arr others ∧
      List.Forall₂ Reordered items others) ∨
    ∃ members others, value = obj members ∧ other = obj others := by
  cases value with
  | arr items =>
    obtain ⟨others, same, each⟩ := h.exists_arr
    exact .inr (.inl ⟨items, others, rfl, same, each⟩)
  | obj members =>
    obtain ⟨others, same⟩ := h.exists_obj
    exact .inr (.inr ⟨members, others, rfl, same⟩)
  | _ => exact .inl (h.eq_of_scalar nofun nofun)

theorem isNull_eq (h : value.Reordered other) : value.isNull = other.isNull := by
  obtain rfl | ⟨items, others, rfl, rfl, -⟩ | ⟨members, others, rfl, rfl⟩ := h.eq_or_exists <;> rfl

end Json.Reordered

namespace Json

mutual

theorem same_congr (given : Json) {value other : Json} (h : value.Reordered other) :
    given.same value = given.same other := by
  obtain rfl | ⟨items, others, rfl, rfl, each⟩ | ⟨members, others, rfl, rfl⟩ := h.eq_or_exists
  · rfl
  · cases given with
    | arr xs => exact sameItems_congr xs each
    | _ => rfl
  · cases given with
    | obj xs =>
      have lengths : members.length = others.length := by
        have keys := h.keys_perm.length_eq
        rwa [Members.keys, Members.keys, List.length_map, List.length_map] at keys
      rw [same, same, lengths, sameMembers_congr xs h]
    | _ => rfl
termination_by structural given

theorem sameItems_congr (given : List Json) {items others : List Json}
    (h : List.Forall₂ Reordered items others) : sameItems given items = sameItems given others := by
  cases given with
  | nil => cases h <;> rfl
  | cons x xs =>
    cases h with
    | nil => rfl
    | cons first rest => rw [sameItems, sameItems, same_congr x first, sameItems_congr xs rest]
termination_by structural given

theorem sameMembers_congr (given : Members) {members others : Members}
    (h : (obj members).Reordered (obj others)) :
    sameMembers given members = sameMembers given others := by
  match given with
  | [] => rfl
  | (key, x) :: xs =>
    rw [sameMembers, sameMembers, sameMembers_congr xs h]
    cases found : members.get? key with
    | none => rw [h.get?_eq_none_iff.1 found]
    | some value =>
      obtain ⟨other, found', inside⟩ := h.exists_get? found
      rw [found', Option.any_some, Option.any_some, same_congr x inside]
termination_by structural given

end

mutual

theorem alike_congr (given : Json) {value other : Json} (h : value.Reordered other) :
    given.alike value = given.alike other := by
  obtain rfl | ⟨items, others, rfl, rfl, each⟩ | ⟨members, others, rfl, rfl⟩ := h.eq_or_exists
  · rfl
  · cases given with
    | arr xs => exact alikeItems_congr xs each
    | _ => rfl
  · cases given with
    | obj xs => exact same_congr (obj xs) h
    | _ => rfl
termination_by structural given

theorem alikeItems_congr (given : List Json) {items others : List Json}
    (h : List.Forall₂ Reordered items others) :
    alikeItems given items = alikeItems given others := by
  cases given with
  | nil => cases h <;> rfl
  | cons x xs =>
    cases h with
    | nil => rfl
    | cons first rest =>
      rw [alikeItems, alikeItems, alike_congr x first, alikeItems_congr xs rest]
termination_by structural given

end

theorem isAmong_congr {value other : Json} (h : value.Reordered other) (list : List Json) :
    value.isAmong list = other.isAmong list := by
  have each : (alike · value) = (alike · other) := funext fun given => alike_congr given h
  rw [isAmong, isAmong, each]

end Json

end DocModel
