import DocModel.Proofs.Clean.Questions
import DocModel.Proofs.Clean.Struck
import DocModel.Proofs.Validator.Located

namespace DocModel

/-- Which ids are answered to exist for a model and the keys of a map. -/
abbrev Answering := String → List String → List Int → Prop

/-- Why an entry is struck out of a map of ids, if it is: its key is no id, or none that exists. -/
def strikeOfKey (existing : List Int) (key : String) : Option Strike :=
  if (keyId? key).any existing.contains then none else some .dangling

/-- Why a field is struck out, if it is: it has a value with which it is removed. -/
def FieldHead.strikeOf (head : FieldHead) (value : Json) : Option Strike :=
  if value.isAmong head.removeIf then some .value else none

/-- What is struck out of the value of a field that holds documents: what is struck out of each
document and, in a map of ids, the entries whose keys are not answered to exist. -/
inductive Embedding.Strikes (answers : Answering) (document : Struck → Prop) :
    Embedding → Struck → Prop
  | one {struck : Struck} (whole : document struck) : Strikes answers document .one struck
  | single {struck : Struck} (whole : document struck)
    (form : ∀ items, struck.before ≠ .arr items) : Strikes answers document .many struck
  | list {items : List Struck} (each : ∀ item ∈ items, document item) :
    Strikes answers document .many (.arr items)
  | map {members : List (Heading × Struck)}
    (each : ∀ member ∈ members, document member.2 ∧ member.1.strike = none) :
    Strikes answers document (.keyed none) (.obj members)
  | ids {model : String} {existing : List Int} {members : List (Heading × Struck)}
    (answered : answers model (members.map (·.1.key)) existing)
    (each : ∀ member ∈ members,
      document member.2 ∧ member.1.strike = strikeOfKey existing member.1.key) :
    Strikes answers document (.keyed (some model)) (.obj members)
  | other {embedding : Embedding} {value : Json} (misfit : (embedding.misfit? value).isSome) :
    Strikes answers document embedding (.plain value)

mutual

/-- What a cleanup strikes out of a document: a field if and only if its value, without what is
struck out of it, is one with which the field is removed; and what is struck out of the documents
that the fields hold. Nothing is struck out elsewhere. -/
def Validator.Strikes (answers : Answering) (validator : Validator) (struck : Struck) : Prop :=
  match validator with
  | .mk _ _ rules =>
    match struck with
    | .obj members => ∀ member ∈ members, strikesMember answers rules member
    | .arr _ => False
    | .plain value => ∀ members, value ≠ .obj members
termination_by structural validator

def FieldRule.Strikes (answers : Answering) (rule : FieldRule) (struck : Struck) : Prop :=
  match rule with
  | .value _ _ => ∃ value, struck = .plain value
  | .embedded _ embedding nested =>
    embedding.Strikes answers (fun document => nested.Strikes answers document) struck
termination_by structural rule

def strikesMember (answers : Answering) (rules : List FieldRule) (member : Heading × Struck) :
    Prop :=
  match rules with
  | [] => member.1.strike = none ∧ ∃ value, member.2 = .plain value
  | rule :: rules =>
    if member.1.key = rule.name then
      rule.Strikes answers member.2 ∧ member.1.strike = rule.head.strikeOf member.2.after
    else strikesMember answers rules member
termination_by structural rules

end

/-- Between two states, so many fields and so many entries are counted as removed. -/
structure Sweep.Adds (before after : Sweep) (removed dropped : Nat) : Prop where
  removed : after.stats.removedKeys = before.stats.removedKeys + removed
  dropped : after.stats.droppedEntries = before.stats.droppedEntries + dropped

theorem Sweep.Adds.refl (sweep : Sweep) : sweep.Adds sweep 0 0 := ⟨rfl, rfl⟩

theorem Sweep.Adds.trans {before middle after : Sweep} {removed dropped removed' dropped' : Nat}
    (first : before.Adds middle removed dropped) (second : middle.Adds after removed' dropped') :
    before.Adds after (removed + removed') (dropped + dropped') where
  removed := by rw [second.removed, first.removed, Nat.add_assoc]
  dropped := by rw [second.dropped, first.dropped, Nat.add_assoc]

/-- A struck document tells what a cleanup was given and what it left, and what is counted is what
is struck out. -/
structure Struck.Records (struck : Struck) (document out : Json) (before after : Sweep) : Prop where
  was : struck.before = document
  left : struck.after = out
  adds : before.Adds after (struck.count .value) (struck.count .dangling)

/-- Whenever an action on a document succeeds, what it does can be struck out of the document so. -/
def Cleaning.Strikes (action : Cleaning Json) (document : Json) (holds : Struck → Prop) : Prop :=
  ∀ before out after, action.run before = .ok out after →
    ∃ struck : Struck, struck.Records document out before after ∧ holds struck

namespace Struck

variable {struck : Struck} {items : List Struck} {members others : List (Heading × Struck)}
  {value out : Json} {values outs : List Json} {entries results front back : Json.Members}
  {key : String} {before middle after : Sweep}

theorem Records.plain (value : Json) (sweep : Sweep) :
    (plain value).Records value value sweep sweep := ⟨rfl, rfl, .refl sweep⟩

theorem records_arr_iff :
    (arr items).Records (.arr values) (.arr outs) before after ↔
      items.map Struck.before = values ∧ items.map Struck.after = outs ∧
        before.Adds after (items.map (count .value)).sum (items.map (count .dangling)).sum := by
  constructor
  · rintro ⟨was, left, adds⟩
    rw [before_arr] at was
    rw [after_arr] at left
    rw [count_arr, count_arr] at adds
    exact ⟨Json.arr.inj was, Json.arr.inj left, adds⟩
  · rintro ⟨rfl, rfl, adds⟩
    rw [← count_arr, ← count_arr] at adds
    exact ⟨before_arr, after_arr, adds⟩

theorem records_obj_iff :
    (obj members).Records (.obj entries) (.obj results) before after ↔
      members.map memberBefore = entries ∧ members.filterMap memberAfter = results ∧
        before.Adds after (members.map (memberCount .value)).sum
          (members.map (memberCount .dangling)).sum := by
  constructor
  · rintro ⟨was, left, adds⟩
    rw [before_obj] at was
    rw [after_obj] at left
    rw [count_obj, count_obj] at adds
    exact ⟨Json.obj.inj was, Json.obj.inj left, adds⟩
  · rintro ⟨rfl, rfl, adds⟩
    rw [← count_obj, ← count_obj] at adds
    exact ⟨before_obj, after_obj, adds⟩

theorem Records.keys_eq (h : (obj members).Records (.obj entries) out before after) :
    members.map (·.1.key) = entries.keys := by
  have was := h.was
  rw [before_obj] at was
  rw [← Json.obj.inj was, Json.Members.keys, List.map_map]
  rfl

theorem Records.cons_item (first : struck.Records value out before middle)
    (rest : (arr items).Records (.arr values) (.arr outs) middle after) :
    (arr (struck :: items)).Records (.arr (value :: values)) (.arr (out :: outs)) before after := by
  rw [records_arr_iff] at rest ⊢
  obtain ⟨rfl, rfl, adds⟩ := rest
  obtain ⟨rfl, rfl, adds'⟩ := first
  exact ⟨rfl, rfl, adds'.trans adds⟩

theorem Records.cons_entry (key : String) (first : struck.Records value out before middle)
    (rest : (obj members).Records (.obj entries) (.obj results) middle after) :
    (obj ((⟨key, none⟩, struck) :: members)).Records (.obj ((key, value) :: entries))
      (.obj ((key, out) :: results)) before after := by
  rw [records_obj_iff] at rest ⊢
  obtain ⟨rfl, rfl, adds⟩ := rest
  obtain ⟨rfl, rfl, adds'⟩ := first
  refine ⟨rfl, rfl, ?_⟩
  simpa using adds'.trans adds

theorem Records.replace (first : struck.Records value out before middle)
    (rest : (obj (members ++ (⟨key, none⟩, .plain out) :: others)).Records
      (.obj (front ++ (key, out) :: back)) (.obj results) middle after)
    (long : members.length = front.length) :
    (obj (members ++ (⟨key, none⟩, struck) :: others)).Records
      (.obj (front ++ (key, value) :: back)) (.obj results) before after := by
  rw [records_obj_iff] at rest ⊢
  obtain ⟨rfl, rfl, removed, dropped⟩ := first
  obtain ⟨was, rfl, removed', dropped'⟩ := rest
  rw [List.map_append] at was
  obtain ⟨rfl, behind⟩ := List.append_inj was (by simpa using long)
  obtain ⟨-, rfl⟩ := List.cons.inj behind
  refine ⟨by rw [List.map_append]; rfl, by simp, ?_⟩
  simp only [List.map_append, List.sum_append, List.map_cons, List.sum_cons, memberCount_none,
    count_plain, Nat.zero_add] at removed' dropped' ⊢
  exact ⟨by omega, by omega⟩

theorem Records.remove (first : struck.Records value out before middle)
    (rest : (obj (members ++ others)).Records (.obj (front ++ back)) (.obj results)
      middle.countRemoved after)
    (long : members.length = front.length) :
    (obj (members ++ (⟨key, some .value⟩, struck) :: others)).Records
      (.obj (front ++ (key, value) :: back)) (.obj results) before after := by
  rw [records_obj_iff] at rest ⊢
  obtain ⟨rfl, rfl, removed, dropped⟩ := first
  obtain ⟨was, rfl, removed', dropped'⟩ := rest
  rw [List.map_append] at was
  obtain ⟨rfl, rfl⟩ := List.append_inj was (by simpa using long)
  refine ⟨by rw [List.map_append]; rfl, by simp [List.filterMap_cons], ?_⟩
  simp only [List.map_append, List.sum_append, List.map_cons, List.sum_cons, memberCount_some,
    reduceCtorEq, if_true, if_false, Nat.zero_add, Sweep.countRemoved] at removed' dropped' ⊢
  exact ⟨by omega, by omega⟩

end Struck

/-- Entries are struck out by the answer about their keys. -/
def strikeEntries (existing : List Int) (members : List (Heading × Struck)) :
    List (Heading × Struck) :=
  members.map fun member => (⟨member.1.key, strikeOfKey existing member.1.key⟩, member.2)

section

variable (existing : List Int) {members : List (Heading × Struck)}

theorem map_key_strikeEntries :
    (strikeEntries existing members).map (·.1.key) = members.map (·.1.key) := by
  rw [strikeEntries, List.map_map]
  rfl

theorem map_before_strikeEntries :
    (strikeEntries existing members).map Struck.memberBefore =
      members.map Struck.memberBefore := by
  rw [strikeEntries, List.map_map]
  rfl

theorem sum_value_strikeEntries (unstruck : ∀ member ∈ members, member.1.strike = none) :
    ((strikeEntries existing members).map (Struck.memberCount .value)).sum =
      (members.map (Struck.memberCount .value)).sum := by
  rw [strikeEntries, List.map_map, List.map_congr_left]
  intro member mem
  have apart : strikeOfKey existing member.1.key ≠ some .value := by
    rw [strikeOfKey]
    split <;> simp
  simp [Struck.memberCount, unstruck member mem, apart]

theorem after_strikeEntries (unstruck : ∀ member ∈ members, member.1.strike = none) :
    (strikeEntries existing members).filterMap Struck.memberAfter =
        (members.filterMap Struck.memberAfter).filter
          (fun entry => (keyId? entry.1).any existing.contains) ∧
      ((strikeEntries existing members).map (Struck.memberCount .dangling)).sum +
          ((strikeEntries existing members).filterMap Struck.memberAfter).length =
        (members.map (Struck.memberCount .dangling)).sum +
          (members.filterMap Struck.memberAfter).length := by
  induction members with
  | nil => exact ⟨rfl, rfl⟩
  | cons member members ih =>
    rw [List.forall_mem_cons] at unstruck
    obtain ⟨kept, counted⟩ := ih unstruck.2
    obtain ⟨⟨key, strike⟩, value⟩ := member
    obtain rfl : strike = none := unstruck.1
    have first : strikeEntries existing ((⟨key, none⟩, value) :: members) =
        (⟨key, strikeOfKey existing key⟩, value) :: strikeEntries existing members := rfl
    rw [first]
    rw [kept] at counted
    by_cases stays : (keyId? key).any existing.contains
    · have strike : strikeOfKey existing key = none := if_pos stays
      simp only [Struck.memberAfter_none, Struck.memberCount_none, strike, stays, kept,
        List.map_cons, List.filterMap_cons, List.filter_cons, List.sum_cons, List.length_cons,
        if_true, true_and]
      omega
    · have strike : strikeOfKey existing key = some .dangling := if_neg stays
      simp only [Struck.memberAfter_none, Struck.memberAfter_some, Struck.memberCount_none,
        Struck.memberCount_some, strike, stays, kept, List.map_cons, List.filterMap_cons,
        List.filter_cons, List.sum_cons, List.length_cons, Bool.false_eq_true, if_true, if_false,
        true_and]
      omega

end

/-- A map of ids loses the entries whose keys are not answered to exist, and they are counted. -/
def Dropping.Answered (answers : Answering) (drop : Dropping) : Prop :=
  ∀ location model entries before out after,
    (drop location model entries).run before = .ok out after →
      ∃ existing, answers model entries.keys existing ∧
        out = entries.filter (fun entry => (keyId? entry.1).any existing.contains) ∧
        before.Adds after 0 (entries.length - out.length)

namespace Embedding

variable {answers : Answering} {drop : Dropping} {document : Location → Json → Cleaning Json}
  {holds : Struck → Prop} {location : Location} {before after : Sweep}

theorem cleanItems_strikes {items outs : List Json} {index : Nat}
    (strikes : ∀ item ∈ items, ∀ location, (document location item).Strikes item holds)
    (run : (cleanItems document location index items).run before = .ok outs after) :
    ∃ struck, (Struck.arr struck).Records (.arr items) (.arr outs) before after ∧
      ∀ item ∈ struck, holds item := by
  induction items generalizing index before outs with
  | nil =>
    cases run
    exact ⟨[], ⟨rfl, rfl, .refl _⟩, List.forall_mem_nil _⟩
  | cons item items ih =>
    rw [List.forall_mem_cons] at strikes
    obtain ⟨out, middle, first, run⟩ := Cleaning.exists_of_run_bind run
    obtain ⟨rest, last, later, done⟩ := Cleaning.exists_of_run_bind run
    cases done
    obtain ⟨one, records, held⟩ := strikes.1 _ _ _ _ first
    obtain ⟨others, records', held'⟩ := ih strikes.2 later
    exact ⟨one :: others, records.cons_item records', List.forall_mem_cons.2 ⟨held, held'⟩⟩

theorem cleanEntries_strikes {entries outs : Json.Members}
    (strikes : ∀ entry ∈ entries, ∀ location, (document location entry.2).Strikes entry.2 holds)
    (run : (cleanEntries document location entries).run before = .ok outs after) :
    ∃ members, (Struck.obj members).Records (.obj entries) (.obj outs) before after ∧
      ∀ member ∈ members, holds member.2 ∧ member.1.strike = none := by
  induction entries generalizing before outs with
  | nil =>
    cases run
    exact ⟨[], ⟨rfl, rfl, .refl _⟩, List.forall_mem_nil _⟩
  | cons entry entries ih =>
    rw [List.forall_mem_cons] at strikes
    obtain ⟨out, middle, first, run⟩ := Cleaning.exists_of_run_bind run
    obtain ⟨rest, last, later, done⟩ := Cleaning.exists_of_run_bind run
    cases done
    obtain ⟨one, records, held⟩ := strikes.1 _ _ _ _ first
    obtain ⟨others, records', held'⟩ := ih strikes.2 later
    exact ⟨_, records.cons_entry entry.1 records', List.forall_mem_cons.2 ⟨⟨held, rfl⟩, held'⟩⟩

theorem strikeEntries_records {members : List (Heading × Struck)} {entries outs kept : Json.Members}
    {existing : List Int} {middle : Sweep}
    (records : (Struck.obj members).Records (.obj entries) (.obj outs) before middle)
    (unstruck : ∀ member ∈ members, member.1.strike = none)
    (same : kept = outs.filter fun entry => (keyId? entry.1).any existing.contains)
    (adds : middle.Adds after 0 (outs.length - kept.length)) :
    (Struck.obj (strikeEntries existing members)).Records (.obj entries) (.obj kept) before
      after := by
  rw [Struck.records_obj_iff] at records ⊢
  obtain ⟨was, rfl, adds'⟩ := records
  obtain ⟨left, counted⟩ := after_strikeEntries existing unstruck
  rw [left, ← same] at counted
  have total := adds'.trans adds
  have fewer : kept.length ≤ (members.filterMap Struck.memberAfter).length := by
    rw [same]
    exact List.length_filter_le _ _
  refine ⟨(map_before_strikeEntries existing).trans was, left.trans same.symm, ?_⟩
  rw [sum_value_strikeEntries existing unstruck]
  have sum : ((strikeEntries existing members).map (Struck.memberCount .dangling)).sum =
      (members.map (Struck.memberCount .dangling)).sum +
        ((members.filterMap Struck.memberAfter).length - kept.length) := by
    omega
  rwa [sum]

theorem cleanBy_strikes (answered : drop.Answered answers) {embedding : Embedding} {value : Json}
    (strikes : ∀ inner, embedding.Contains value inner →
      ∀ location, (document location inner).Strikes inner holds) (location : Location) :
    (embedding.cleanBy drop document location value).Strikes value
      (embedding.Strikes answers holds) := by
  intro before out after run
  cases embedding with
  | one =>
    cases value with
    | obj members =>
      obtain ⟨struck, records, held⟩ := strikes _ .one location before out after run
      exact ⟨struck, records, .one held⟩
    | _ =>
      cases run
      exact ⟨_, .plain _ before, .other rfl⟩
  | many =>
    cases value with
    | obj members =>
      obtain ⟨struck, records, held⟩ := strikes _ .single location before out after run
      refine ⟨struck, records, .single held ?_⟩
      rw [records.was]
      exact nofun
    | arr items =>
      obtain ⟨outs, middle, run, done⟩ := Cleaning.exists_of_run_bind run
      cases done
      obtain ⟨struck, records, held⟩ :=
        cleanItems_strikes (fun item mem => strikes item (.item mem)) run
      exact ⟨_, records, .list held⟩
    | _ =>
      cases run
      exact ⟨_, .plain _ before, .other rfl⟩
  | keyed model =>
    cases value with
    | obj entries =>
      obtain ⟨outs, middle, inside, later⟩ := Cleaning.exists_of_run_bind run
      obtain ⟨members, records, held⟩ :=
        cleanEntries_strikes (fun entry mem => strikes entry.2 (.entry mem)) inside
      cases model with
      | none =>
        cases later
        exact ⟨_, records, .map held⟩
      | some model =>
        obtain ⟨kept, last, dropped, done⟩ := Cleaning.exists_of_run_bind later
        cases done
        obtain ⟨existing, told, same, adds⟩ := answered _ _ _ _ _ _ dropped
        have unstruck (member : Heading × Struck) (mem : member ∈ members) := (held member mem).2
        refine ⟨_, strikeEntries_records records unstruck same adds, ?_⟩
        refine @Strikes.ids _ _ _ existing _ ?_ ?_
        · rw [map_key_strikeEntries, records.keys_eq]
          rwa [keys_of_cleanEntries inside] at told
        · intro member mem
          obtain ⟨old, listed, rfl⟩ := List.mem_map.1 mem
          exact ⟨(held old listed).1, rfl⟩
    | _ =>
      cases run
      exact ⟨_, .plain _ before, .other rfl⟩

end Embedding

theorem FieldRule.cleanBy_strikes {answers : Answering} {drop : Dropping}
    (answered : drop.Answered answers) {rule : FieldRule} {value : Json}
    (strikes : ∀ head embedding nested, rule = .embedded head embedding nested →
      ∀ inner, embedding.Contains value inner → ∀ location,
        (nested.cleanBy drop location inner).Strikes inner (nested.Strikes answers))
    (location : Location) :
    (rule.cleanBy drop location value).Strikes value (rule.Strikes answers) := by
  cases rule with
  | value head checks =>
    intro before out after run
    cases run
    exact ⟨_, .plain value _, value, rfl⟩
  | embedded head embedding nested =>
    exact Embedding.cleanBy_strikes answered (strikes head embedding nested rfl) location

section

variable {answers : Answering} {drop : Dropping} {rules : List FieldRule} {rule : FieldRule}
  {location : Location} {members results : Json.Members} {before after : Sweep}

theorem FieldHead.nodup_keys_of_prune {head : FieldHead} {pruned : Json.Members}
    (run : (head.prune members).run before = .ok pruned after) (nodup : members.keys.Nodup) :
    pruned.keys.Nodup := by
  rw [(head.prune_yields members).result_eq run]
  split
  · exact nodup.sublist (List.filter_sublist.map _)
  · exact nodup

theorem strikesMember_of_ne {member : Heading × Struck} (apart : member.1.key ≠ rule.name) :
    strikesMember answers (rule :: rules) member ↔ strikesMember answers rules member := by
  rw [strikesMember, if_neg apart]

theorem strikesMember_of_eq {member : Heading × Struck} (same : member.1.key = rule.name) :
    strikesMember answers (rule :: rules) member ↔
      rule.Strikes answers member.2 ∧ member.1.strike = rule.head.strikeOf member.2.after := by
  rw [strikesMember, if_pos same]

theorem eq_of_strikesMember {member : Heading × Struck}
    (undeclared : member.1.key ∉ rules.map FieldRule.name)
    (h : strikesMember answers rules member) :
    ∃ value, member = (⟨member.1.key, none⟩, .plain value) := by
  induction rules with
  | nil =>
    obtain ⟨⟨key, strike⟩, struck⟩ := member
    obtain ⟨rfl, value, rfl⟩ := h
    exact ⟨value, rfl⟩
  | cons rule rules ih =>
    rw [List.map_cons, List.mem_cons, not_or] at undeclared
    exact ih undeclared.2 ((strikesMember_of_ne undeclared.1).1 h)

theorem Struck.Records.unstruck (members : Json.Members) (sweep : Sweep) :
    (obj (members.map fun member => (⟨member.1, none⟩, .plain member.2))).Records (.obj members)
      (.obj members) sweep sweep := by
  induction members with
  | nil => exact ⟨rfl, rfl, .refl sweep⟩
  | cons member members ih => exact (Records.plain member.2 sweep).cons_entry member.1 ih

theorem forall_strikesMember_cons {front back : List (Heading × Struck)} {strike : Option Strike}
    {struck : Struck} (holds : rule.Strikes answers struck)
    (reason : strike = rule.head.strikeOf struck.after)
    (apart : ∀ member ∈ front ++ back, member.1.key ≠ rule.name)
    (others : ∀ member ∈ front ++ back, strikesMember answers rules member) :
    ∀ member ∈ front ++ (⟨rule.name, strike⟩, struck) :: back,
      strikesMember answers (rule :: rules) member := by
  intro member mem
  rw [List.mem_append, List.mem_cons, or_left_comm, ← List.mem_append] at mem
  rcases mem with rfl | mem
  · exact (strikesMember_of_eq rfl).2 ⟨holds, reason⟩
  · exact (strikesMember_of_ne (apart member mem)).2 (others member mem)

theorem apart_of_notMem_keys {key : String} {front back : List (Heading × Struck)}
    (absent : key ∉ Json.Members.keys (front.map Struck.memberBefore ++
      back.map Struck.memberBefore)) : ∀ member ∈ front ++ back, member.1.key ≠ key := by
  intro member mem same
  apply absent
  rw [← List.map_append, Json.Members.keys, List.map_map]
  exact List.mem_map.2 ⟨member, mem, same⟩

theorem exists_strikesMember_cons {value out : Json} {struck : Struck} {pruned : Json.Members}
    {middle last : Sweep} (named : rule.name ∉ rules.map FieldRule.name)
    (nodup : members.keys.Nodup) (found : members.get? rule.name = some value)
    (holds : rule.Strikes answers struck) (records : struck.Records value out before middle)
    (run : (rule.head.prune (members.set rule.name out)).run middle = .ok pruned last)
    (rest : ∃ others, (Struck.obj others).Records (.obj pruned) (.obj results) last after ∧
      ∀ member ∈ others, strikesMember answers rules member) :
    ∃ whole, (Struck.obj whole).Records (.obj members) (.obj results) before after ∧
      ∀ member ∈ whole, strikesMember answers (rule :: rules) member := by
  obtain ⟨others, records', held⟩ := rest
  obtain ⟨front, back, rfl, absent, set, erase⟩ := Json.Members.exists_split nodup found
  have present : Json.Members.get? (Json.Members.set (front ++ (rule.name, value) :: back)
      rule.name out) rule.head.name = some out := Json.Members.get?_set_self found
  have was := (Struck.records_obj_iff.1 records').1
  by_cases listed : out.isAmong rule.head.removeIf
  · rw [FieldHead.prune_run_of_listed (by rw [present]; exact listed),
      show rule.head.name = rule.name from rfl, Json.Members.erase_set, erase] at run
    cases run
    obtain ⟨first, second, rfl, rfl, rfl⟩ := List.map_eq_append_iff.1 was
    refine ⟨_, records.remove records' (by simp), ?_⟩
    apply forall_strikesMember_cons holds
    · rw [records.left, FieldHead.strikeOf, if_pos listed]
    · exact apart_of_notMem_keys absent
    · exact held
  · rw [FieldHead.prune_of_unlisted (by rw [present]; exact listed), set] at run
    cases run
    obtain ⟨first, rest, rfl, rfl, split⟩ := List.map_eq_append_iff.1 was
    obtain ⟨member, second, rfl, same, rfl⟩ := List.map_eq_cons_iff.1 split
    rw [List.forall_mem_append, List.forall_mem_cons] at held
    obtain ⟨held, here, held'⟩ := held
    have key : member.1.key = rule.name := congrArg Prod.fst same
    -- No other rule is for the field, so the others leave its member as it is.
    obtain ⟨old, plain⟩ := eq_of_strikesMember (key.symm ▸ named) here
    rw [plain] at same
    obtain rfl : old = out := congrArg Prod.snd same
    rw [plain, key] at records'
    refine ⟨_, records.replace records' (by simp), ?_⟩
    apply forall_strikesMember_cons holds
    · rw [records.left, FieldHead.strikeOf, if_neg listed]
    · exact apart_of_notMem_keys absent
    · exact List.forall_mem_append.2 ⟨held, held'⟩

theorem cleanRulesBy_strikes (names : (rules.map FieldRule.name).Nodup)
    (nodup : members.keys.Nodup)
    (strikes : ∀ rule ∈ rules, ∀ value, members.get? rule.name = some value →
      ∀ location, (rule.cleanBy drop location value).Strikes value (rule.Strikes answers))
    (run : (cleanRulesBy drop rules location members).run before = .ok results after) :
    ∃ struck, (Struck.obj struck).Records (.obj members) (.obj results) before after ∧
      ∀ member ∈ struck, strikesMember answers rules member := by
  induction rules generalizing members before with
  | nil =>
    cases run
    refine ⟨_, .unstruck _ _, ?_⟩
    intro member mem
    obtain ⟨old, -, rfl⟩ := List.mem_map.1 mem
    exact ⟨rfl, old.2, rfl⟩
  | cons rule rules ih =>
    rw [List.map_cons, List.nodup_cons] at names
    rw [List.forall_mem_cons] at strikes
    obtain ⟨refined, middle, refining, between⟩ := Cleaning.exists_of_run_bind run
    obtain ⟨pruned, last, pruning, rest⟩ := Cleaning.exists_of_run_bind between
    have apart (other : FieldRule) (mem : other ∈ rules) : other.name ≠ rule.name := by
      intro same
      exact names.1 (List.mem_map.2 ⟨other, mem, same⟩)
    -- The other rules find in what is left what they would have found before.
    have later : ∀ other ∈ rules, ∀ value, pruned.get? other.name = some value → ∀ location,
        (other.cleanBy drop location value).Strikes value (other.Strikes answers) := by
      intro other mem value found
      rw [FieldHead.get?_of_prune pruning (apart other mem),
        FieldHead.get?_of_refine refining (apart other mem)] at found
      exact strikes.2 other mem value found
    cases found : members.get? rule.name with
    | none =>
      rw [FieldHead.refine_of_absent _ found] at refining
      cases refining
      have unlisted : ¬ (members.get? rule.head.name).any (·.isAmong rule.head.removeIf) := by
        rw [show rule.head.name = rule.name from rfl, found]
        exact Bool.false_ne_true
      rw [FieldHead.prune_of_unlisted unlisted] at pruning
      cases pruning
      obtain ⟨struck, records, held⟩ := ih names.2 nodup later rest
      refine ⟨struck, records, ?_⟩
      intro member mem
      apply (strikesMember_of_ne _).2 (held member mem)
      intro same
      apply Json.Members.get?_eq_none_iff.1 found
      rw [← records.keys_eq, ← same]
      exact List.mem_map_of_mem mem
    | some value =>
      rw [FieldHead.refine_of_present _ found, map_eq_pure_bind] at refining
      obtain ⟨out, middle, cleaning, done⟩ := Cleaning.exists_of_run_bind refining
      cases done
      obtain ⟨struck, records, holds⟩ := strikes.1 value found _ _ _ _ cleaning
      have distinct : pruned.keys.Nodup := by
        apply FieldHead.nodup_keys_of_prune pruning
        rwa [Json.Members.keys_set]
      exact exists_strikesMember_cons names.1 nodup found holds records pruning
        (ih names.2 distinct later rest)

end

/-- A cleanup strikes out of a document what its rules say, and counts what it strikes out. -/
theorem Validator.Orderly.cleanBy_strikes {answers : Answering} {drop : Dropping}
    {validator : Validator} {document : Json} (orderly : validator.Orderly)
    (answered : drop.Answered answers) (distinct : document.Distinct) (location : Location) :
    (validator.cleanBy drop location document).Strikes document (validator.Strikes answers) := by
  induction orderly generalizing document location with
  | @intro typeName rejectsUnknown rules nodup nested ih =>
    intro before out after run
    cases document with
    | obj members =>
      cases distinct with
      | obj distinct each =>
        obtain ⟨results, last, cleaning, done⟩ := Cleaning.exists_of_run_bind run
        cases done
        have strikes : ∀ rule ∈ rules, ∀ value, Json.Members.get? members rule.name = some value →
            ∀ location,
              (rule.cleanBy drop location value).Strikes value (rule.Strikes answers) := by
          intro rule mem value found location
          apply FieldRule.cleanBy_strikes answered
          intro head embedding nested same inner contains location
          have held := each _ (Json.Members.mem_of_get? found)
          exact ih head embedding nested (same ▸ mem) (contains.distinct held) location
        obtain ⟨struck, records, holds⟩ := cleanRulesBy_strikes nodup distinct strikes cleaning
        exact ⟨.obj struck, records, holds⟩
    | _ =>
      cases run
      exact ⟨_, .plain _ _, nofun⟩

end DocModel
