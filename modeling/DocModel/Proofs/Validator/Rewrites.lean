import DocModel.Proofs.Validator.Returns

namespace DocModel

/-- Puts the outcome of a field in its place, unless it is one to be removed. -/
def FieldHead.store (head : FieldHead) (out : Json) (members : Json.Members) : Json.Members :=
  if out.isAmong head.removeIf then members.erase head.name else members.insert head.name out

/-- What becomes of the members of a document, one field after the other. -/
inductive Rewrites (oracle : Option Oracle) : List FieldRule → Json.Members → Json.Members → Prop
  | nil {members : Json.Members} : Rewrites oracle [] members members
  | skip {rule : FieldRule} {rules : List FieldRule} {members after : Json.Members}
    (missing : rule.head.given? members = none) (optional : rule.head.required = false)
    (rest : Rewrites oracle rules members after) : Rewrites oracle (rule :: rules) members after
  | store {rule : FieldRule} {rules : List FieldRule} {members after : Json.Members}
    {value out : Json} (given : rule.head.given? members = some value)
    (returns : rule.Returns oracle value out)
    (rest : Rewrites oracle rules (rule.head.store out members) after) :
    Rewrites oracle (rule :: rules) members after

variable {oracle : Option Oracle}

namespace FieldHead

variable {head : FieldHead} {members : Json.Members} {out value : Json} {key : String}

theorem get?_store_ne (h : key ≠ head.name) :
    (head.store out members).get? key = members.get? key := by
  rw [store]
  split
  · exact Json.Members.get?_erase_ne h
  · exact Json.Members.get?_insert_ne h

theorem store_insert (value : Json) :
    head.store out (members.insert head.name value) = head.store out members := by
  rw [store, store, Json.Members.erase_insert_self, Json.Members.insert_insert]

theorem store_insert_ne (mem : head.name ∈ members.keys) (h : key ≠ head.name) :
    head.store out (members.insert key value) = (head.store out members).insert key value := by
  rw [store, store, Json.Members.erase_insert_ne h, Json.Members.insert_comm mem h]
  split <;> rfl

end FieldHead

section

variable {rule : FieldRule} {rules : List FieldRule} {location : Location}
  {members after : Json.Members} {out : Json}

theorem checkRules_store (mem : rule.name ∈ members.keys)
    (fresh : rule.name ∉ rules.map FieldRule.name) :
    checkRules rules location (rule.head.store out members) =
      (checkRules rules location members).map (rule.head.store out) := by
  induction rules generalizing members with
  | nil => rfl
  | cons first rules ih =>
    rw [List.map_cons, List.mem_cons, not_or] at fresh
    have apart : first.head.name ≠ rule.head.name := Ne.symm fresh.1
    have same : first.head.given? (rule.head.store out members) = first.head.given? members :=
      FieldHead.given?_congr (FieldHead.get?_store_ne apart)
    rw [checkRules, checkRules]
    cases given : first.head.given? members with
    | none =>
      rw [FieldHead.fill_of_not_given given, FieldHead.fill_of_not_given (same.trans given)]
      cases first.head.required with
      | true => rfl
      | false => exact ih mem fresh.2
    | some value =>
      rw [FieldHead.fill_of_given given, FieldHead.fill_of_given (same.trans given)]
      cases first.check (location ++ [.key first.name]) value with
      | error violations => rfl
      | ok checked =>
        have present : rule.head.name ∈ (members.insert first.head.name checked).keys := by
          rw [← Json.Members.get?_isSome_iff, Json.Members.get?_insert_ne apart.symm,
            Json.Members.get?_isSome_iff]
          exact mem
        change checkRules rules location ((rule.head.store out members).insert _ checked) = _
        rw [← FieldHead.store_insert_ne mem apart]
        exact ih present fresh.2

theorem gives_rules_of_absent (absent : members.get? rule.name = none) :
    (cleanRules oracle (rule :: rules) location members).Gives after ↔
      (cleanRules oracle rules location members).Gives after := by
  have pruned : rule.head.prune members = pure members := by
    rw [FieldHead.prune, ← FieldRule.name, absent]
    rfl
  rw [cleanRules, FieldHead.refine_of_absent _ absent, pure_bind, pruned, pure_bind]

theorem gives_rules_of_present {value : Json}
    (found : members.get? rule.head.name = some value) :
    (cleanRules oracle (rule :: rules) location members).Gives after ↔
      ∃ out, (rule.clean oracle (location ++ [.key rule.name]) value).Gives out ∧
        (cleanRules oracle rules location (rule.head.store out members)).Gives after := by
  have steady : (rule.clean oracle (location ++ [.key rule.name]) value).Agrees
      (rule.clean oracle (location ++ [.key rule.name]) value) :=
    rule.clean_agrees value _ _
  have mem : rule.head.name ∈ members.keys :=
    Json.Members.get?_isSome_iff.1 (Option.isSome_iff_exists.2 ⟨value, found⟩)
  have rest : ∀ members, (cleanRules oracle rules location members).Agrees
      (cleanRules oracle rules location members) := fun members =>
    cleanRules_agrees rules members location location
  have pruned : ∀ out, (rule.head.prune (members.set rule.head.name out)).Yields True
      (rule.head.store out members) := by
    intro out
    have pruned := rule.head.prune_yields (members.set rule.head.name out)
    rw [Json.Members.get?_set_self found] at pruned
    apply pruned.congr Iff.rfl
    rw [FieldHead.store, Json.Members.erase_set, Json.Members.insert_of_mem mem]
    rfl
  rw [cleanRules, FieldHead.refine_of_present _ found, map_eq_pure_bind, bind_assoc,
    Cleaning.gives_bind_iff steady]
  · refine exists_congr fun out => and_congr_right fun _ => ?_
    rw [pure_bind, Cleaning.gives_bind_iff (rule.head.prune_agrees _) rest]
    simp only [(pruned out).gives_iff, true_and, exists_eq_left]
  · intro out
    rw [pure_bind]
    exact (rule.head.prune_agrees _).bind rest

theorem leads_rules_of_missing (missing : rule.head.given? members = none)
    (fresh : rule.name ∉ rules.map FieldRule.name) :
    Leads (checkRules (rule :: rules) location members)
        (cleanRules oracle (rule :: rules) location) after ↔
      rule.head.required = false ∧
        Leads (checkRules rules location members) (cleanRules oracle rules location) after := by
  have absent := (FieldHead.given?_eq_none_iff.1 missing).1
  rw [Leads, Leads, checkRules, FieldHead.fill_of_not_given missing]
  cases rule.head.required with
  | true => simp [bind, Except.bind]
  | false =>
    simp only [bind, Except.bind, true_and]
    refine exists_congr fun checked => and_congr_right fun passed => ?_
    apply gives_rules_of_absent
    rw [get?_of_checkRules passed fresh]
    exact absent

theorem leads_rules_of_given {value : Json} (given : rule.head.given? members = some value)
    (fresh : rule.name ∉ rules.map FieldRule.name) :
    Leads (checkRules (rule :: rules) location members)
        (cleanRules oracle (rule :: rules) location) after ↔
      ∃ out, rule.Returns oracle value out ∧
        Leads (checkRules rules location (rule.head.store out members))
          (cleanRules oracle rules location) after := by
  -- The other rules see the checked value, and do the same where its outcome is stored.
  have stored : ∀ own out, checkRules rules location (rule.head.store out members) =
      (checkRules rules location (members.insert rule.head.name own)).map
        (rule.head.store out) := by
    intro own out
    have present : rule.name ∈ (members.insert rule.head.name own).keys :=
      Json.Members.get?_isSome_iff.1
        (Option.isSome_iff_exists.2 ⟨own, Json.Members.get?_insert_self⟩)
    rw [← FieldHead.store_insert own, checkRules_store present fresh]
  have found : ∀ {own checked}, checkRules rules location (members.insert rule.head.name own) =
      .ok checked → checked.get? rule.head.name = some own := by
    intro own checked passed
    exact (get?_of_checkRules passed fresh).trans Json.Members.get?_insert_self
  constructor
  · intro leads
    obtain ⟨checked, passed, gives⟩ := leads
    obtain ⟨between, filled, passed⟩ := checkRules_cons_eq_ok.1 passed
    rw [FieldHead.fill_of_given given, map_eq_ok] at filled
    obtain ⟨own, first, rfl⟩ := filled
    obtain ⟨out, cleaned, gives⟩ := (gives_rules_of_present (found passed)).1 gives
    refine ⟨out, (FieldRule.leads_iff _).1 ⟨own, first, cleaned⟩, _, ?_, gives⟩
    rw [stored own, passed]
    rfl
  · intro both
    obtain ⟨out, returns, final, passed, gives⟩ := both
    obtain ⟨own, first, cleaned⟩ :=
      (FieldRule.leads_iff (location ++ [.key rule.name])).2 returns
    rw [stored own, map_eq_ok] at passed
    obtain ⟨checked, passed, rfl⟩ := passed
    refine ⟨checked, ?_, (gives_rules_of_present (found passed)).2 ⟨out, cleaned, gives⟩⟩
    refine checkRules_cons_eq_ok.2 ⟨_, ?_, passed⟩
    rw [FieldHead.fill_of_given given, first]
    rfl

/-- To check all fields and then to clean them is to do both for one field after the other. -/
theorem leads_rules_iff (location : Location) (nodup : (rules.map FieldRule.name).Nodup) :
    Leads (checkRules rules location members) (cleanRules oracle rules location) after ↔
      Rewrites oracle rules members after := by
  induction rules generalizing members with
  | nil =>
    simp only [Leads, checkRules, Except.ok.injEq, exists_eq_left', cleanRules,
      Cleaning.gives_pure_iff]
    constructor
    · intro same
      subst same
      exact .nil
    · intro rewrites
      cases rewrites
      rfl
  | cons rule rules ih =>
    rw [List.map_cons, List.nodup_cons] at nodup
    constructor
    · intro leads
      cases given : rule.head.given? members with
      | none =>
        obtain ⟨optional, rest⟩ := (leads_rules_of_missing given nodup.1).1 leads
        exact .skip given optional ((ih nodup.2).1 rest)
      | some value =>
        obtain ⟨out, returns, rest⟩ := (leads_rules_of_given given nodup.1).1 leads
        exact .store given returns ((ih nodup.2).1 rest)
    · intro rewrites
      cases rewrites with
      | skip missing optional rest =>
        exact (leads_rules_of_missing missing nodup.1).2 ⟨optional, (ih nodup.2).2 rest⟩
      | store given returns rest =>
        exact (leads_rules_of_given given nodup.1).2 ⟨_, returns, (ih nodup.2).2 rest⟩

/-- To validate an object is to rewrite its fields, one after the other; unless others are allowed,
all its keys are declared. -/
theorem Validator.Orderly.returns_obj_iff {validator : Validator} (orderly : validator.Orderly) :
    validator.Returns oracle (.obj members) out ↔
      (validator.rejectsUnknown → ∀ key ∈ members.keys, key ∈ validator.fieldNames) ∧
        ∃ after, Rewrites oracle validator.rules members after ∧ out = .obj after := by
  cases orderly with
  | @intro typeName rejectsUnknown rules nodup nested =>
    have gives : ∀ checked, ((Validator.mk typeName rejectsUnknown rules).clean oracle []
        (.obj checked)).Gives out ↔
          ∃ after, (cleanRules oracle rules [] checked).Gives after ∧ out = .obj after := by
      intro checked
      rw [Validator.clean, Cleaning.gives_bind_iff (cleanRules_agrees rules checked [] [])
        fun _ => Cleaning.agrees_pure _]
      simp only [Cleaning.gives_pure_iff]
    rw [Validator.returns_iff, Leads]
    constructor
    · intro leads
      obtain ⟨_, passed, cleaned⟩ := leads
      obtain ⟨checked, passed', known, rfl⟩ := Validator.check_obj_eq_ok.1 passed
      obtain ⟨after, cleaned', rfl⟩ := (gives checked).1 cleaned
      exact ⟨known, after, (leads_rules_iff [] nodup).1 ⟨checked, passed', cleaned'⟩, rfl⟩
    · intro both
      obtain ⟨known, after, rewrites, rfl⟩ := both
      obtain ⟨checked, passed, cleaned⟩ := (leads_rules_iff [] nodup).2 rewrites
      exact ⟨.obj checked, Validator.check_obj_eq_ok.2 ⟨checked, passed, known, rfl⟩,
        (gives checked).2 ⟨after, cleaned, rfl⟩⟩

theorem Validator.isObject_of_returns {validator : Validator} {document : Json}
    (h : validator.Returns oracle document out) : ∃ members, document = .obj members := by
  obtain ⟨checked, passed, -⟩ := Validator.returns_iff.1 h
  cases validator with
  | mk typeName rejectsUnknown rules =>
    cases document with
    | obj members => exact ⟨members, rfl⟩
    | _ => cases passed

end

end DocModel
