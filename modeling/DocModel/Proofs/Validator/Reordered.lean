import Mathlib.Data.List.Sort
import DocModel.Proofs.Json.Reordered
import DocModel.Proofs.Validator.Rewrites

namespace DocModel

/-- What comes of a value comes of it, up to order, when the value stands in another order. -/
def Carries (R R' : Json → Json → Prop) : Prop :=
  ∀ ⦃value other out⦄, R value out → value.Reordered other →
    ∃ out', R' other out' ∧ out.Reordered out'

/-- Reordered values have outcomes that are reordered likewise. -/
def Orderless (R : Json → Json → Prop) : Prop := Carries R R

section

variable {value other : Json}

theorem Json.Reordered.eq_num {n : Json.Number} (h : (Json.num n).Reordered other) :
    other = .num n := h.eq_of_scalar nofun nofun

theorem Primitive.Typed.of_reordered {type : Primitive} (typed : type.Typed value)
    (h : value.Reordered other) : type.Typed other := by
  obtain rfl | ⟨items, others, rfl, rfl, -⟩ | ⟨members, others, rfl, rfl⟩ := h.eq_or_exists
  · exact typed
  · cases typed with
    | array => exact .array others
  · cases typed with
    | object => exact .object others
    | geoPoint lat lng text =>
      obtain ⟨_, lat, same⟩ := h.exists_get? lat
      obtain ⟨_, lng, same'⟩ := h.exists_get? lng
      rw [same.eq_num] at lat
      rw [same'.eq_num] at lng
      refine .geoPoint lat lng fun value found => ?_
      obtain ⟨given, found, inside⟩ := h.symm.exists_get? found
      obtain rfl | ⟨own, rfl⟩ := text given found
      · exact .inl (inside.symm.eq_of_scalar nofun nofun)
      · exact .inr ⟨own, inside.symm.eq_of_scalar nofun nofun⟩

theorem Primitive.trim_reordered (type : Primitive) (h : value.Reordered other) :
    (type.trim value).Reordered (type.trim other) := by
  by_cases point : type = .geoPoint
  · subst point
    obtain rfl | ⟨items, others, rfl, rfl, -⟩ | ⟨members, others, rfl, rfl⟩ := h.eq_or_exists
    · exact .refl _
    · exact h
    · exact h.filter pointKeys.contains
  · rw [trim_of_ne_point point, trim_of_ne_point point]
    exact h

namespace Check

theorem textLength_congr (h : value.Reordered other) : textLength value = textLength other := by
  obtain rfl | ⟨items, others, rfl, rfl, -⟩ | ⟨members, others, rfl, rfl⟩ := h.eq_or_exists <;> rfl

theorem isChosen_congr (allowed : List Json) (eachElement : Bool) (h : value.Reordered other) :
    isChosen allowed eachElement value = isChosen allowed eachElement other := by
  cases eachElement with
  | false => exact Json.isAmong_congr h allowed
  | true =>
    obtain rfl | ⟨items, others, rfl, rfl, each⟩ | ⟨members, others, rfl, rfl⟩ := h.eq_or_exists
    · rfl
    · exact all_eq_all_of_forall₂ (each.imp fun _ _ related => Json.isAmong_congr related allowed)
    · rfl

theorem Asks.of_reordered {check : Check} (asks : check.Asks value) (h : value.Reordered other) :
    check.Asks other := by
  cases check with
  | type expected => exact Primitive.Typed.of_reordered asks h
  | range bound limit =>
    obtain ⟨n, rfl, holds⟩ := asks
    exact ⟨n, h.eq_num, holds⟩
  | length bound limit =>
    rw [Asks, textLength_congr h] at asks
    exact asks
  | choice allowed eachElement =>
    rw [Asks, isChosen_congr allowed eachElement h] at asks
    exact asks

theorem apply_orderless (check : Check) :
    Orderless fun value out => check.apply value = .ok out := by
  intro value other out passed h
  obtain ⟨asks, rfl⟩ := apply_eq_ok.1 passed
  refine ⟨check.kept other, apply_eq_ok.2 ⟨asks.of_reordered h, rfl⟩, ?_⟩
  cases check with
  | type expected => exact expected.trim_reordered h
  | range | length | choice => exact h

theorem applyAll_orderless (checks : List Check) :
    Orderless fun value out => applyAll checks value = .ok out := by
  induction checks with
  | nil =>
    intro value other out passed h
    cases passed
    exact ⟨other, rfl, h⟩
  | cons check checks ih =>
    intro value other out passed h
    rw [applyAll_cons, bind_eq_ok] at passed
    obtain ⟨between, first, rest⟩ := passed
    obtain ⟨between', first', inside⟩ := check.apply_orderless first h
    obtain ⟨out', rest', outside⟩ := ih rest inside
    have passed' : applyAll (check :: checks) other = .ok out' := by
      rw [applyAll_cons, bind_eq_ok]
      exact ⟨between', first', rest'⟩
    exact ⟨out', passed', outside⟩

end Check

end

theorem keyIds_congr {keys others : List String} (perm : keys.Perm others) :
    keyIds keys = keyIds others := by
  refine (pairwise_keyIds keys).eq_of_mem_iff (pairwise_keyIds others) fun id => ?_
  rw [mem_keyIds, mem_keyIds]
  exact exists_congr fun key => and_congr_left fun _ => perm.mem_iff

variable {oracle : Option Oracle}

section

variable {model : String} {keys others : List String}

theorem Answered.of_perm (answered : Answered oracle model keys) (perm : keys.Perm others) :
    Answered oracle model others := by
  intro parses
  obtain ⟨key, mem, parsed⟩ := parses
  obtain ⟨existing, ask, same, answer⟩ := answered ⟨key, perm.mem_iff.2 mem, parsed⟩
  exact ⟨existing, ask, same, keyIds_congr perm ▸ answer⟩

theorem isKnown_congr (perm : keys.Perm others) :
    isKnown oracle model keys = isKnown oracle model others := by
  funext key
  rw [isKnown, isKnown, knownIds, knownIds, keyIds_congr perm]

end

theorem moved_entries {S : Json → Json → Prop} {entries others outs : Json.Members}
    (closed : ∀ {value other out}, S value out → value.Reordered other → S other out)
    (related : List.Forall₂ (fun entry out => entry.1 = out.1 ∧ S entry.2 out.2) entries outs)
    (h : (Json.obj entries).Reordered (.obj others)) :
    ∃ outs', List.Forall₂ (fun entry out => entry.1 = out.1 ∧ S entry.2 out.2) others outs' ∧
      (Json.obj outs).Reordered (.obj outs') := by
  revert outs
  refine Json.Reordered.obj_induction (P := fun entries others => ∀ {outs},
    List.Forall₂ (fun entry out => entry.1 = out.1 ∧ S entry.2 out.2) entries outs →
      ∃ outs', List.Forall₂ (fun entry out => entry.1 = out.1 ∧ S entry.2 out.2) others outs' ∧
        (Json.obj outs).Reordered (.obj outs')) h ?_ ?_ ?_ ?_ ?_
  · exact fun entries outs related => ⟨outs, related, .refl _⟩
  · intro _ _ _ one two outs related
    obtain ⟨between, related, first⟩ := one related
    obtain ⟨outs', related, second⟩ := two related
    exact ⟨outs', related, first.trans second⟩
  · intro key value other entries inside outs related
    cases related with
    | cons own others => exact ⟨_, .cons ⟨own.1, closed own.2 inside⟩ others, .refl _⟩
  · intro entry _ _ below outs related
    cases related with
    | @cons _ out _ rest own others =>
      obtain ⟨rest', others', outside⟩ := below others
      exact ⟨out :: rest', .cons own others', .members out outside⟩
  · intro first second entries apart outs related
    cases related with
    | @cons _ out _ _ own others =>
      cases others with
      | @cons _ out' _ rest own' others =>
        refine ⟨out' :: out :: rest, .cons own' (.cons own others), .swap rest ?_⟩
        rw [← own.1, ← own'.1]
        exact apart

namespace Carries

variable {R R' : Json → Json → Prop} (carries : Carries R R')

include carries

theorem items {items others outs : List Json} (returns : List.Forall₂ R items outs)
    (h : List.Forall₂ Json.Reordered items others) :
    ∃ outs', List.Forall₂ R' others outs' ∧ List.Forall₂ Json.Reordered outs outs' := by
  induction h generalizing outs with
  | nil =>
    cases returns
    exact ⟨[], .nil, .nil⟩
  | cons inside _ ih =>
    cases returns with
    | cons first rest =>
      obtain ⟨out', first', outside⟩ := carries first inside
      obtain ⟨outs', rest', others⟩ := ih rest
      exact ⟨out' :: outs', .cons first' rest', .cons outside others⟩

theorem entries {entries others outs : Json.Members}
    (returns : List.Forall₂ (fun entry out => entry.1 = out.1 ∧ R entry.2 out.2) entries outs)
    (h : (Json.obj entries).Reordered (.obj others)) :
    ∃ outs', List.Forall₂ (fun entry out => entry.1 = out.1 ∧ R' entry.2 out.2) others outs' ∧
      (Json.obj outs).Reordered (.obj outs') := by
  obtain ⟨moved, comes, outside⟩ := moved_entries
    (S := fun value out => ∃ given, R given out ∧ given.Reordered value)
    (fun ⟨given, own, before⟩ after => ⟨given, own, before.trans after⟩)
    (returns.imp fun entry _ own => ⟨own.1, entry.2, own.2, .refl _⟩) h
  have settled : ∃ outs', List.Forall₂ (fun entry out => entry.1 = out.1 ∧ R' entry.2 out.2)
      others outs' ∧ (Json.obj moved).Reordered (.obj outs') := by
    clear outside h
    induction comes with
    | nil => exact ⟨[], .nil, .refl _⟩
    | @cons _ out _ moved own _ ih =>
      obtain ⟨name, value⟩ := out
      obtain ⟨rfl, given, own, inside⟩ := own
      obtain ⟨value', own', outside⟩ := carries own inside
      obtain ⟨outs', rest, others⟩ := ih
      exact ⟨(_, value') :: outs', .cons ⟨rfl, own'⟩ rest,
        (Json.Reordered.member _ moved outside).trans (.members _ others)⟩
  obtain ⟨outs', returns', settled⟩ := settled
  exact ⟨outs', returns', outside.trans settled⟩

theorem embedding (embedding : Embedding) :
    Carries (embedding.Returns oracle R) (embedding.Returns oracle R') := by
  intro value other out returns h
  cases returns with
  | one returns =>
    obtain ⟨out', returns', outside⟩ := carries returns h
    obtain ⟨others, rfl⟩ := h.exists_obj
    exact ⟨out', .one returns', outside⟩
  | single returns =>
    obtain ⟨out', returns', outside⟩ := carries returns h
    obtain ⟨others, rfl⟩ := h.exists_obj
    exact ⟨out', .single returns', outside⟩
  | list returns =>
    obtain ⟨others, rfl, each⟩ := h.exists_arr
    obtain ⟨outs', returns', outside⟩ := carries.items returns each
    exact ⟨.arr outs', .list returns', Json.Reordered.arr_of_forall₂ outside⟩
  | map returns =>
    obtain ⟨others, rfl⟩ := h.exists_obj
    obtain ⟨outs', returns', outside⟩ := carries.entries returns h
    exact ⟨.obj outs', .map returns', outside⟩
  | @ids model _ _ returns answered =>
    obtain ⟨others, rfl⟩ := h.exists_obj
    obtain ⟨outs', returns', outside⟩ := carries.entries returns h
    refine ⟨_, .ids returns' (answered.of_perm outside.keys_perm), ?_⟩
    rw [isKnown_congr outside.keys_perm]
    exact outside.filter (isKnown oracle model (Json.Members.keys outs'))

end Carries

variable {rule : FieldRule} {rules rules' : List FieldRule} {validator : Validator}
  {members others after : Json.Members} {value other out out' : Json}

namespace FieldRule

/-- Rules of one field, of which the second gives, up to order, what the first gives. -/
structure Follows (oracle : Option Oracle) (rule other : FieldRule) : Prop where
  head : other.head = rule.head
  carries : Carries (rule.Returns oracle) (other.Returns oracle)

theorem follows_value (head : FieldHead) (checks : List Check) :
    Follows oracle (.value head checks) (.value head checks) where
  head := rfl
  carries := by
    intro value other out returns h
    cases returns with
    | null optional =>
      obtain rfl := h.eq_of_scalar nofun nofun
      exact ⟨.null, .null optional, .refl _⟩
    | value passed =>
      obtain ⟨out', passed', outside⟩ := Check.applyAll_orderless _ passed h
      exact ⟨out', .value passed', outside⟩

theorem follows_embedded {nested nested' : Validator} (head : FieldHead) (embedding : Embedding)
    (carries : Carries (nested.Returns oracle) (nested'.Returns oracle)) :
    Follows oracle (.embedded head embedding nested) (.embedded head embedding nested') where
  head := rfl
  carries := by
    intro value other out returns h
    cases returns with
    | null optional =>
      obtain rfl := h.eq_of_scalar nofun nofun
      exact ⟨.null, .null optional, .refl _⟩
    | embedded returns =>
      obtain ⟨out', returns', outside⟩ := carries.embedding embedding returns h
      exact ⟨out', .embedded returns', outside⟩

theorem follows_self
    (nested : ∀ head embedding nested, rule = .embedded head embedding nested →
      Orderless (nested.Returns oracle)) : rule.Follows oracle rule := by
  cases rule with
  | value head checks => exact follows_value head checks
  | embedded head embedding inner => exact follows_embedded head embedding (nested _ _ _ rfl)

end FieldRule

namespace FieldHead

variable {head : FieldHead}

theorem given?_eq_none_congr (h : (Json.obj members).Reordered (.obj others)) :
    head.given? members = none ↔ head.given? others = none := by
  rw [given?_eq_none_iff, given?_eq_none_iff, h.get?_eq_none_iff]

theorem exists_given? (h : (Json.obj members).Reordered (.obj others))
    (given : head.given? members = some value) :
    ∃ other, head.given? others = some other ∧ value.Reordered other := by
  cases found : members.get? head.name with
  | some own =>
    rw [given?_of_present found] at given
    cases given
    obtain ⟨other, found', inside⟩ := h.exists_get? found
    exact ⟨other, given?_of_present found', inside⟩
  | none =>
    rw [given?_of_absent found] at given
    exact ⟨value, (given?_of_absent (h.get?_eq_none_iff.1 found)).trans given, .refl value⟩

theorem store_reordered (head : FieldHead) (outside : out.Reordered out')
    (h : (Json.obj members).Reordered (.obj others)) :
    (Json.obj (head.store out members)).Reordered (.obj (head.store out' others)) := by
  rw [store, store, Json.isAmong_congr outside]
  split
  · exact h.erase head.name
  · exact h.insert head.name outside

end FieldHead

theorem Rewrites.reordered (follow : List.Forall₂ (FieldRule.Follows oracle) rules rules')
    (rewrites : Rewrites oracle rules members after)
    (h : (Json.obj members).Reordered (.obj others)) :
    ∃ after', Rewrites oracle rules' others after' ∧
      (Json.obj after).Reordered (.obj after') := by
  induction rewrites generalizing others rules' with
  | nil =>
    cases follow
    exact ⟨others, .nil, h⟩
  | skip missing optional _ ih =>
    cases follow with
    | cons first follow =>
      rw [← first.head] at missing optional
      obtain ⟨after', rest, outside⟩ := ih follow h
      exact ⟨after', .skip ((FieldHead.given?_eq_none_congr h).1 missing) optional rest, outside⟩
  | store given returns _ ih =>
    cases follow with
    | cons first follow =>
      rw [← first.head] at given ih
      obtain ⟨other, given', inside⟩ := FieldHead.exists_given? h given
      obtain ⟨out', returns', outcome⟩ := first.carries returns inside
      obtain ⟨after', rest, outside⟩ := ih follow (FieldHead.store_reordered _ outcome h)
      exact ⟨after', .store given' returns' rest, outside⟩

/-- A validator accepts reordered documents alike and leaves them reordered. -/
theorem Validator.Orderly.orderless (orderly : validator.Orderly) :
    Orderless (validator.Returns oracle) := by
  induction orderly with
  | @intro typeName rejectsUnknown rules nodup nested ih =>
    have whole : (Validator.mk typeName rejectsUnknown rules).Orderly := .intro nodup nested
    have each : List.Forall₂ (FieldRule.Follows oracle) rules rules :=
      List.forall₂_same.2 fun rule mem => rule.follows_self fun head embedding inner same =>
        ih head embedding inner (same ▸ mem)
    intro document other out returns h
    obtain ⟨members, rfl⟩ := Validator.isObject_of_returns returns
    obtain ⟨others, rfl⟩ := h.exists_obj
    obtain ⟨known, after, rewrites, rfl⟩ := whole.returns_obj_iff.1 returns
    obtain ⟨after', rewrites', outside⟩ := rewrites.reordered each h
    refine ⟨.obj after', whole.returns_obj_iff.2 ⟨?_, after', rewrites', rfl⟩, outside⟩
    exact fun strict key mem => known strict key (h.mem_keys_iff.2 mem)

section

variable {validator' : Validator} {document document' : Json}

theorem Carries.isOk_of_isOk
    (carries : Carries (validator.Returns oracle) (validator'.Returns oracle))
    (h : document.Reordered document')
    (accepted : (validator.validate oracle document).result.isOk) :
    (validator'.validate oracle document').result.isOk := by
  obtain ⟨out, returns⟩ := isOk_iff.1 accepted
  obtain ⟨out', returns', -⟩ := carries returns h
  exact isOk_iff.2 ⟨out', returns'⟩

theorem Carries.reordered (carries : Carries (validator.Returns oracle) (validator'.Returns oracle))
    (h : document.Reordered document') (returns : validator.Returns oracle document out)
    (returns' : validator'.Returns oracle document' out') : out.Reordered out' := by
  obtain ⟨out'', again, outside⟩ := carries returns h
  obtain rfl : out' = out'' := Except.ok.inj (returns'.symm.trans again)
  exact outside

end

end DocModel
