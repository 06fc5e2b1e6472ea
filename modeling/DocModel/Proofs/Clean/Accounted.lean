import DocModel.Proofs.Clean.Counters
import DocModel.Proofs.Clean.Strikes
import DocModel.Proofs.Validator.Distinct

namespace DocModel

/-- The ids that a service answers to exist among those that keys denote; with no ids there is no
question, and none exists. -/
def Service.Answered (service : Option Service) : Answering := fun model keys existing =>
  keyIds keys = [] ∧ existing = [] ∨
    ∃ serve past, service = some serve ∧ serve past model (keyIds keys) = .ok existing

/-- Whether an activity is a question to an oracle, or its failure to answer. -/
def Activity.asks : Activity → Bool
  | queried .. | queryFailed .. => true
  | _ => false

/-- The log records of cleanups that changed something. -/
def cleanupRecords (activities : List Activity) : List Log.Record :=
  (activities.flatMap Activity.records).filter (·.event = Log.Event.cleanupApplied.text)

/-- So far there have been questions only. -/
def Sweep.OnlyAsks (sweep : Sweep) : Prop := ∀ activity ∈ sweep.activities, activity.asks

section

variable {activities : List Activity}

theorem flatMap_counts_of_asks (asks : ∀ activity ∈ activities, activity.asks) :
    activities.flatMap Activity.counts = [] := by
  rw [List.flatMap_eq_nil_iff]
  intro activity mem
  have asking := asks activity mem
  cases activity <;> first | rfl | cases asking

theorem cleanupRecords_append_of_asks (asks : ∀ activity ∈ activities, activity.asks)
    (others : List Activity) : cleanupRecords (activities ++ others) = cleanupRecords others := by
  have none : cleanupRecords activities = [] := by
    rw [cleanupRecords, List.filter_eq_nil_iff]
    intro record mem
    obtain ⟨activity, listed, logged⟩ := List.mem_flatMap.1 mem
    have asking := asks activity listed
    cases activity with
    | queried model ids =>
      rw [List.mem_singleton.1 logged]
      simp [Log.Event.record, Log.Event.text]
    | queryFailed model reason =>
      rw [List.mem_singleton.1 logged]
      simp [Log.Event.record, Log.Event.text]
    | _ => cases asking
  rw [cleanupRecords, List.flatMap_append, List.filter_append, ← cleanupRecords, none]
  rfl

end

theorem Service.drop_keeps_onlyAsks (service : Option Service) :
    Dropping.Keeps Sweep.OnlyAsks (Service.drop service) := by
  apply Service.drop_keeps
  · intro sweep model ids asks
    exact List.forall_mem_append.2 ⟨asks, List.forall_mem_singleton.2 rfl⟩
  · intro sweep model reason asks
    exact List.forall_mem_append.2 ⟨asks, List.forall_mem_singleton.2 rfl⟩
  · exact fun _ _ asks => asks
  · exact fun _ asks => asks

theorem Service.drop_answered (service : Option Service) :
    Dropping.Answered (Service.Answered service) (Service.drop service) := by
  intro location model entries before out after run
  rw [drop_eq] at run
  obtain ⟨existing, middle, asking, later⟩ := Cleaning.exists_of_run_bind run
  cases later
  have told : Service.Answered service model entries.keys existing ∧ before.Adds middle 0 0 := by
    change (existingIds (service.map fun serve => serve (questions before.activities)) location
      model (keyIds entries.keys)).run before = .ok existing middle at asking
    by_cases ids : keyIds entries.keys = []
    · rw [ids] at asking
      cases asking
      exact ⟨.inl ⟨ids, rfl⟩, .refl before⟩
    · cases service with
      | none =>
        rw [Option.map_none, existingIds_run_none ids] at asking
        cases asking
      | some serve =>
        rw [Option.map_some] at asking
        cases answer : serve (questions before.activities) model (keyIds entries.keys) with
        | error error =>
          rw [existingIds_run_error ids answer] at asking
          cases asking
        | ok answered =>
          rw [existingIds_run_ok ids answer] at asking
          cases asking
          exact ⟨.inr ⟨serve, _, rfl, answer⟩, rfl, rfl⟩
  obtain ⟨answered, adds⟩ := told
  exact ⟨existing, answered, rfl, adds.removed, congrArg (· + _) adds.dropped⟩

variable {validator : Validator} {service : Option Service} {document checked cleaned : Json}
  {sweep : Sweep}

theorem onlyAsks_cleanBy :
    ((validator.cleanBy (Service.drop service) [] checked).left {}).OnlyAsks :=
  validator.cleanBy_keeps (Service.drop_keeps_onlyAsks service) [] checked {} nofun

theorem Validator.reject_accounts (violations : List Violation) {activities : List Activity}
    (asks : ∀ activity ∈ activities, activity.asks) :
    (∀ counter, amount counter (validator.reject violations activities).activities =
      if counter = .documentsRejected then 1 else 0) ∧
    cleanupRecords (validator.reject violations activities).activities = [] := by
  constructor
  · intro counter
    rw [reject, amount_append_of_unheard (flatMap_counts_of_asks asks)]
    cases counter <;> rfl
  · rw [reject, cleanupRecords_append_of_asks asks]
    simp [cleanupRecords, Activity.records, Log.Event.record, Log.Event.text]

/-- The record of a cleanup that removed so many fields and entries. -/
def cleanupRecord (typeName : String) (stats : CleanupStats) : Log.Record :=
  Log.Event.cleanupApplied.record [("type", typeName), ("blacklisted", toString stats.removedKeys),
    ("dangling", toString stats.droppedEntries)]

theorem cleanupRecords_accepted (typeName : String) (stats : CleanupStats) :
    cleanupRecords [.cleaned typeName stats, .validated typeName] =
      if stats.changed then [cleanupRecord typeName stats] else [] := by
  cases changed : stats.changed <;>
    simp [cleanupRecords, cleanupRecord, Activity.records, changed, Log.Event.record,
      Log.Event.text]

theorem Struck.changed_iff {struck : Struck} {stats : CleanupStats}
    (removed : stats.removedKeys = struck.count .value)
    (dropped : stats.droppedEntries = struck.count .dangling) :
    stats.changed ↔ struck.after ≠ struck.before := by
  rw [struck.after_ne_before_iff, total, ← removed, ← dropped, CleanupStats.changed,
    decide_eq_true_iff]
  omega

/-- What is told of an accepted document: the questions, and then the cleanup and the success. -/
theorem Validator.Orderly.accepted_accounts (orderly : validator.Orderly)
    (distinct : checked.Distinct) (passed : validator.check [] document = .ok checked)
    (accepted : (validator.validateBy service document).result = .ok cleaned) :
    ∃ stats struck asked,
      (validator.validateBy service document).activities =
        asked ++ [.cleaned validator.typeName stats, .validated validator.typeName] ∧
      (∀ activity ∈ asked, activity.asks) ∧
      struck.before = checked ∧ struck.after = cleaned ∧
      validator.Strikes (Service.Answered service) struck ∧
      stats.removedKeys = struck.count .value ∧ stats.droppedEntries = struck.count .dangling := by
  rw [validateBy] at accepted ⊢
  have asks : ((validator.cleanBy (Service.drop service) [] checked).left {}).OnlyAsks :=
    onlyAsks_cleanBy
  cases run : (validator.cleanBy (Service.drop service) [] checked).run {} with
  | error violation sweep =>
    rw [judge_of_error passed run] at accepted
    cases accepted
  | ok out sweep =>
    rw [judge_of_ok passed run] at accepted ⊢
    cases accepted
    rw [Cleaning.left_of_ok run] at asks
    obtain ⟨struck, records, strikes⟩ :=
      orderly.cleanBy_strikes (Service.drop_answered service) distinct [] _ _ _ run
    refine ⟨sweep.stats, struck, sweep.activities, rfl, asks, records.was, records.left, strikes,
      ?_, ?_⟩
    · exact records.adds.removed.trans (Nat.zero_add _)
    · exact records.adds.dropped.trans (Nat.zero_add _)

theorem Validator.refused_accounts {rejection : Rejection}
    (refused : (validator.validateBy service document).result = .error rejection) :
    (∀ counter, amount counter (validator.validateBy service document).activities =
      if counter = .documentsRejected then 1 else 0) ∧
    cleanupRecords (validator.validateBy service document).activities = [] := by
  rw [validateBy] at refused ⊢
  cases passed : validator.check [] document with
  | error violations =>
    rw [judge_of_failed passed]
    exact reject_accounts violations (List.forall_mem_nil _)
  | ok checked =>
    have asks : ((validator.cleanBy (Service.drop service) [] checked).left {}).OnlyAsks :=
      onlyAsks_cleanBy
    cases run : (validator.cleanBy (Service.drop service) [] checked).run {} with
    | error violation sweep =>
      rw [Cleaning.left_of_error run] at asks
      rw [judge_of_error passed run]
      exact reject_accounts [violation] asks
    | ok out sweep =>
      rw [judge_of_ok passed run] at refused
      cases refused

theorem Validator.exists_checked_of_accepted
    (accepted : (validator.validateBy service document).result = .ok cleaned) :
    ∃ checked, validator.check [] document = .ok checked := by
  cases passed : validator.check [] document with
  | ok checked => exact ⟨checked, rfl⟩
  | error violations =>
    rw [validateBy, judge_of_failed passed] at accepted
    cases accepted

/-- What a cleanup removes can be struck out of the checked document, at any depth and also in what
is itself struck out. The statistics and the counters tell how much that is, and the log tells of a
cleanup if and only if it is something. A refusal is counted as such and else not at all. Documents
and definitions that are read are distinct by `Json.distinct_of_parse`. -/
theorem cleanup_accounted {compiler : Compiler} (given : compiler.Gives validator)
    (defaults : validator.DistinctDefaults) (distinct : document.Distinct)
    (service : Option Service) (metrics : Metrics) :
    let verdict := validator.validateBy service document
    let grows (counter : Counter) (n : Nat) := (metrics.addAll verdict.activities).count counter =
      metrics.count counter + .ofNat n
    (∀ cleaned, verdict.result = .ok cleaned → ∃ checked stats struck asked,
      validator.check [] document = .ok checked ∧
      verdict.activities =
        asked ++ [.cleaned validator.typeName stats, .validated validator.typeName] ∧
      (∀ activity ∈ asked, activity.asks) ∧
      struck.before = checked ∧ struck.after = cleaned ∧
      validator.Strikes (Service.Answered service) struck ∧
      stats.removedKeys = struck.count .value ∧ stats.droppedEntries = struck.count .dangling ∧
      (stats.changed ↔ cleaned ≠ checked) ∧
      grows .blacklistedKeysRemoved (struck.count .value) ∧
      grows .danglingEntriesRemoved (struck.count .dangling) ∧
      grows .documentsValidated 1 ∧ grows .documentsRejected 0 ∧
      cleanupRecords verdict.activities =
        if cleaned = checked then [] else [cleanupRecord validator.typeName stats]) ∧
    (∀ rejection, verdict.result = .error rejection →
      (∀ counter, grows counter (if counter = .documentsRejected then 1 else 0)) ∧
      cleanupRecords verdict.activities = []) ∧
    ∀ oracle, validator.validate oracle document =
      validator.validateBy (oracle.map Oracle.always) document := by
  intro verdict grows
  have counts (counter : Counter) (n : Nat) (h : amount counter verdict.activities = n) :
      grows counter n := h ▸ metrics.count_addAll counter verdict.activities
  refine ⟨?_, ?_, fun oracle => validator.validate_eq_validateBy oracle document⟩
  · intro cleaned accepted
    obtain ⟨checked, passed⟩ := Validator.exists_checked_of_accepted accepted
    obtain ⟨stats, struck, asked, activities, asks, rfl, rfl, strikes, removed, dropped⟩ :=
      given.orderly.accepted_accounts (given.orderly.check_distinct defaults passed distinct)
        passed accepted
    have changed := Struck.changed_iff removed dropped
    have heard (counter : Counter) : amount counter verdict.activities =
        amount counter [.cleaned validator.typeName stats, .validated validator.typeName] := by
      rw [show verdict.activities = _ from activities]
      exact amount_append_of_unheard (flatMap_counts_of_asks asks)
    refine ⟨_, stats, struck, asked, passed, activities, asks, rfl, rfl, strikes, removed, dropped,
      changed, counts _ _ ?_, counts _ _ ?_, counts _ _ ?_, counts _ _ ?_, ?_⟩
    · rw [heard, ← removed]
      rfl
    · rw [heard, ← dropped]
      rfl
    · rw [heard]
      rfl
    · rw [heard]
      rfl
    · rw [show verdict.activities = _ from activities, cleanupRecords_append_of_asks asks,
        cleanupRecords_accepted]
      by_cases same : struck.after = struck.before
      · rw [if_pos same, if_neg fun differs => changed.1 differs same]
      · rw [if_neg same, if_pos (changed.2 same)]
  · intro rejection refused
    obtain ⟨counted, unlogged⟩ := Validator.refused_accounts refused
    exact ⟨fun counter => counts counter _ (counted counter), unlogged⟩

theorem Validator.distinctDefaults_of_everyRule
    (h : validator.everyRule fun rule => rule.head.default.isNone) :
    validator.DistinctDefaults := by
  intro inner occurs rule mem value default
  have none := test_of_everyRule h occurs mem
  rw [default] at none
  cases none

/-- A shelf on which the thing that does not exist is a draft. -/
def draftShelf : Json :=
  .obj [("things", .obj [("7", .obj []), ("8", .obj [("state", .str "draft")])])]

theorem draftShelf_distinct : draftShelf.Distinct := by
  simp [draftShelf, Json.distinct_obj_iff, Json.Members.keys, Json.Distinct.str]

/-- The state of the draft is counted, though the draft is dropped as a whole. -/
theorem cleanup_accounted_shelf :
    ∃ validator cleaned struck, shelves.Gives validator ∧ validator.DistinctDefaults ∧
      draftShelf.Distinct ∧
      (validator.validateBy (some things.always) draftShelf).result = .ok cleaned ∧
      validator.Strikes (Service.Answered (some things.always)) struck ∧ struck.after = cleaned ∧
      struck.count .value = 1 ∧ struck.count .dangling = 1 ∧ cleaned ≠ struck.before := by
  have ran : (shelves.compile 0 "Shelf").result.toOption.any fun compiled =>
      compiled.validator.everyRule (fun rule => rule.head.default.isNone) &&
        (compiled.validator.validateBy (some things.always) draftShelf).result.toOption.any
          fun _ => (compiled.validator.validateBy (some things.always) draftShelf).activities =
            [.queried "thing" [7, 8]] ++
              [.cleaned compiled.validator.typeName ⟨1, 1, 1⟩,
                .validated compiled.validator.typeName] := by
    decide +kernel
  obtain ⟨compiled, given, tested⟩ := Compiler.exists_gives_of_any ran
  obtain ⟨undefaulted, tested⟩ := Bool.and_eq_true_iff.1 tested
  obtain ⟨cleaned, accepted, tested⟩ := exists_of_any_toOption tested
  have defaults := Validator.distinctDefaults_of_everyRule undefaulted
  obtain ⟨accounts, -⟩ := cleanup_accounted given defaults draftShelf_distinct
    (some things.always) Metrics.zero
  obtain ⟨checked, stats, struck, asked, -, activities, -, rfl, left, strikes, removed, dropped,
    changed, -⟩ := accounts cleaned accepted
  obtain ⟨-, same⟩ := List.append_inj' ((of_decide_eq_true tested).symm.trans activities) rfl
  obtain rfl : ⟨1, 1, 1⟩ = stats := by simpa using same
  exact ⟨_, cleaned, struck, given, defaults, draftShelf_distinct, accepted, strikes, left,
    removed.symm, dropped.symm, changed.1 rfl⟩

end DocModel
