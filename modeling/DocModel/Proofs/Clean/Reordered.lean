import DocModel.Proofs.Clean.Questions
import DocModel.Proofs.Validator.Reordered

namespace DocModel

namespace Embedding

/-- The way a field holds its documents, when nothing is known of the keys of a map. -/
def withoutIds : Embedding → Embedding
  | keyed _ => keyed none
  | embedding => embedding

variable {document : Location → Json → Checked Json} {R : Json → Json → Prop}
  (sound : ∀ location value out, document location value = .ok out ↔ R value out)

include sound

theorem checkItems_eq_ok_iff (location : Location) (index : Nat) {items outs : List Json} :
    checkItems document location index items = .ok outs ↔ List.Forall₂ R items outs := by
  induction items generalizing index outs with
  | nil => simp [checkItems, eq_comm]
  | cons item items ih => simp only [checkItems_cons_eq_ok, sound, ih, List.forall₂_cons_left_iff,
      exists_and_left]

theorem checkEntries_eq_ok_iff (location : Location) {entries outs : Json.Members} :
    checkEntries document location entries = .ok outs ↔
      List.Forall₂ (fun entry out => entry.1 = out.1 ∧ R entry.2 out.2) entries outs := by
  induction entries generalizing outs with
  | nil => simp [checkEntries, eq_comm]
  | cons entry entries ih =>
    rw [checkEntries_cons_eq_ok, List.forall₂_cons_left_iff]
    simp only [sound, ih]
    constructor
    · intro checked
      obtain ⟨out, rest, first, others, rfl⟩ := checked
      exact ⟨(entry.1, out), rest, ⟨rfl, first⟩, others, rfl⟩
    · intro related
      obtain ⟨⟨_, out⟩, rest, ⟨rfl, first⟩, others, rfl⟩ := related
      exact ⟨out, rest, first, others, rfl⟩

theorem check_eq_ok_iff (embedding : Embedding) (location : Location) {value out : Json} :
    embedding.check document location value = .ok out ↔
      embedding.withoutIds.Returns none R value out := by
  constructor
  · intro checked
    cases embedding with
    | one =>
      cases value with
      | obj members => exact .one ((sound _ _ _).1 checked)
      | _ => cases checked
    | many =>
      cases value with
      | obj members => exact .single ((sound _ _ _).1 checked)
      | arr items =>
        obtain ⟨outs, passed, rfl⟩ := map_eq_ok.1 checked
        exact .list ((checkItems_eq_ok_iff sound location 0).1 passed)
      | _ => cases checked
    | keyed model =>
      cases value with
      | obj entries =>
        obtain ⟨outs, passed, rfl⟩ := map_eq_ok.1 checked
        exact .map ((checkEntries_eq_ok_iff sound location).1 passed)
      | _ => cases checked
  · intro returns
    cases embedding with
    | one =>
      cases returns with
      | one returns => exact (sound _ _ _).2 returns
    | many =>
      cases returns with
      | single returns => exact (sound _ _ _).2 returns
      | list returns =>
        exact map_eq_ok.2 ⟨_, (checkItems_eq_ok_iff sound location 0).2 returns, rfl⟩
    | keyed model =>
      cases returns with
      | map returns =>
        exact map_eq_ok.2 ⟨_, (checkEntries_eq_ok_iff sound location).2 returns, rfl⟩

end Embedding

variable {rules : List FieldRule} {rule : FieldRule} {validator : Validator} {location : Location}
  {members others after : Json.Members} {document other : Json}

theorem Validator.check_eq_ok_congr (validator : Validator) (location : Location)
    (document out : Json) :
    validator.check location document = .ok out ↔ validator.check [] document = .ok out :=
  ⟨fun passed => check_anywhere passed [], fun passed => check_anywhere passed location⟩

theorem FieldRule.check_orderless (location : Location)
    (nested : ∀ head embedding nested, rule = .embedded head embedding nested →
      Orderless fun document out => nested.check [] document = .ok out) :
    Orderless fun value out => rule.check location value = .ok out := by
  intro value other out passed h
  cases rule with
  | value head checks =>
    simp only [FieldRule.check, ← h.isNull_eq] at passed ⊢
    split at passed
    · rename_i skipped
      cases passed
      exact ⟨other, if_pos skipped, h⟩
    · rename_i present
      obtain ⟨out', passed', outside⟩ :=
        Check.applyAll_orderless checks (mapError_eq_ok.1 passed) h
      exact ⟨out', (if_neg present).trans (mapError_eq_ok.2 passed'), outside⟩
  | embedded head embedding inner =>
    have whole {value out : Json} :
        embedding.check inner.check location value = .ok out ↔ embedding.withoutIds.Returns none
          (fun document out => inner.check [] document = .ok out) value out :=
      embedding.check_eq_ok_iff inner.check_eq_ok_congr location
    simp only [FieldRule.check, ← h.isNull_eq] at passed ⊢
    split at passed
    · rename_i skipped
      cases passed
      exact ⟨other, if_pos skipped, h⟩
    · rename_i present
      obtain ⟨out', passed', outside⟩ :=
        (nested head embedding inner rfl).embedding _ (whole.1 passed) h
      exact ⟨out', (if_neg present).trans (whole.2 passed'), outside⟩

theorem checkRules_reordered
    (orderless : ∀ rule ∈ rules, ∀ location,
      Orderless fun value out => rule.check location value = .ok out)
    (passed : checkRules rules location members = .ok after)
    (h : (Json.obj members).Reordered (.obj others)) :
    ∃ after', checkRules rules location others = .ok after' ∧
      (Json.obj after).Reordered (.obj after') := by
  induction rules generalizing members others with
  | nil =>
    cases passed
    exact ⟨others, rfl, h⟩
  | cons rule rules ih =>
    rw [List.forall_mem_cons] at orderless
    obtain ⟨between, filled, rest⟩ := checkRules_cons_eq_ok.1 passed
    have step : ∃ between', rule.head.fill
        (fun value => rule.check (location ++ [.key rule.name]) value)
          (location ++ [.key rule.name]) others = .ok between' ∧
            (Json.obj between).Reordered (.obj between') := by
      obtain ⟨value, out, given, checked, rfl⟩ | ⟨missing, optional, rfl⟩ :=
        FieldHead.fill_eq_ok.1 filled
      · obtain ⟨value', given', inside⟩ := FieldHead.exists_given? h given
        obtain ⟨out', checked', outside⟩ := orderless.1 _ checked inside
        exact ⟨_, FieldHead.fill_eq_ok.2 (.inl ⟨value', out', given', checked', rfl⟩),
          h.insert _ outside⟩
      · have missing' := (FieldHead.given?_eq_none_congr h).1 missing
        exact ⟨others, FieldHead.fill_eq_ok.2 (.inr ⟨missing', optional, rfl⟩), h⟩
    obtain ⟨between', filled', outside⟩ := step
    obtain ⟨after', rest', last⟩ := ih orderless.2 rest outside
    exact ⟨after', checkRules_cons_eq_ok.2 ⟨between', filled', rest'⟩, last⟩

theorem Validator.Orderly.check_orderless (orderly : validator.Orderly) :
    Orderless fun document out => validator.check [] document = .ok out := by
  induction orderly with
  | @intro typeName rejectsUnknown rules nodup nested ih =>
    have each : ∀ rule ∈ rules, ∀ location,
        Orderless fun value out => rule.check location value = .ok out :=
      fun rule mem location => rule.check_orderless location fun head embedding inner same =>
        ih head embedding inner (same ▸ mem)
    intro document other out passed h
    cases document with
    | obj members =>
      obtain ⟨others, rfl⟩ := h.exists_obj
      obtain ⟨after, checked, known, rfl⟩ := Validator.check_obj_eq_ok.1 passed
      obtain ⟨after', checked', outside⟩ := checkRules_reordered each checked h
      refine ⟨.obj after', Validator.check_obj_eq_ok.2 ⟨after', checked', ?_, rfl⟩, outside⟩
      exact fun strict key mem => known strict key (h.mem_keys_iff.2 mem)
    | _ => cases passed

theorem perm_flatMap_of_reordered {α : Type} {f : Json → List α}
    (same : ∀ value other, value.Reordered other → (f value).Perm (f other))
    {items others : List Json}
    (h : List.Forall₂ Json.Reordered items others) : (items.flatMap f).Perm (others.flatMap f) := by
  induction h with
  | nil => exact .refl _
  | cons first _ ih => exact (same _ _ first).append ih

theorem perm_flatMap_members {α : Type} {f : Json → List α}
    (same : ∀ value other, value.Reordered other → (f value).Perm (f other))
    (h : (Json.obj members).Reordered (.obj others)) :
    ((members.map Prod.snd).flatMap f).Perm ((others.map Prod.snd).flatMap f) := by
  refine h.obj_induction (P := fun members others =>
    ((members.map Prod.snd).flatMap f).Perm ((others.map Prod.snd).flatMap f)) ?_ ?_ ?_ ?_ ?_
  · exact fun members => .refl _
  · exact .trans
  · exact fun key _ _ members inside => (same _ _ inside).append_right _
  · exact fun member _ _ rest => rest.append_left _
  · exact fun members _ => List.perm_append_comm_assoc _ _ _

theorem wanted_congr {map map' : IdMap} (model : map.model = map'.model)
    (perm : map.entries.keys.Perm map'.entries.keys) : wanted [map] = wanted [map'] := by
  have ids : map.ids = map'.ids := keyIds_congr perm
  have question : map.question = map'.question := by rw [IdMap.question, IdMap.question, model, ids]
  have hasIds : map.hasIds = map'.hasIds := by rw [IdMap.hasIds, IdMap.hasIds, ids]
  rw [wanted, wanted, List.filter_singleton, List.filter_singleton, hasIds]
  cases map'.hasIds with
  | false => rfl
  | true => exact congrArg ([·]) question

theorem Embedding.wanted_perm {maps : Json → List IdMap}
    (same : ∀ value other, value.Reordered other → (wanted (maps value)).Perm (wanted (maps other)))
    (embedding : Embedding) {value other : Json} (h : value.Reordered other) :
    (wanted (embedding.idMaps maps value)).Perm (wanted (embedding.idMaps maps other)) := by
  have single (value : Json) : wanted ([([], value)].flatMap
      fun part : Location × Json => (maps part.2).map (.below part.1)) = wanted (maps value) := by
    rw [List.flatMap_singleton, wanted_below]
  obtain rfl | ⟨items, others, rfl, rfl, each⟩ | ⟨members, others, rfl, rfl⟩ := h.eq_or_exists
  · exact .refl _
  · cases embedding with
    | one | keyed => exact .refl _
    | many =>
      simp only [idMaps, held, idMap?, wanted_append, wanted_held]
      exact (perm_flatMap_of_reordered same each).append_right _
  · cases embedding with
    | one | many =>
      simp only [idMaps, held, idMap?, wanted_append, single]
      exact (same _ _ h).append_right _
    | keyed model =>
      simp only [idMaps, held, wanted_append, wanted_held]
      refine (perm_flatMap_members same h).append ?_
      cases model with
      | none => exact .refl _
      | some model => exact .of_eq (wanted_congr rfl h.keys_perm)

theorem wanted_perm_rules (h : (Json.obj members).Reordered (.obj others))
    (same : ∀ rule ∈ rules, ∀ value other, value.Reordered other →
      (wanted (rule.idMaps value)).Perm (wanted (rule.idMaps other))) :
    (wanted (idMapsOf rules members)).Perm (wanted (idMapsOf rules others)) := by
  induction rules with
  | nil => exact .refl _
  | cons rule rules ih =>
    rw [List.forall_mem_cons] at same
    rw [idMapsOf, idMapsOf, wanted_append, wanted_append, wanted_below, wanted_below]
    refine List.Perm.append ?_ (ih same.2)
    cases found : members.get? rule.name with
    | none =>
      rw [h.get?_eq_none_iff.1 found]
    | some value =>
      obtain ⟨value', found', inside⟩ := h.exists_get? found
      rw [found']
      exact same.1 value value' inside

theorem Validator.Orderly.wanted_perm (orderly : validator.Orderly)
    (h : document.Reordered other) :
    (wanted (validator.idMaps document)).Perm (wanted (validator.idMaps other)) := by
  induction orderly generalizing document other with
  | @intro typeName rejectsUnknown rules nodup nested ih =>
    obtain rfl | ⟨items, others, rfl, rfl, -⟩ | ⟨members, others, rfl, rfl⟩ := h.eq_or_exists
    · exact .refl _
    · exact .refl _
    · refine wanted_perm_rules h fun rule mem value other inside => ?_
      cases rule with
      | value head checks => exact .refl _
      | embedded head embedding inner =>
        exact embedding.wanted_perm (fun value other => ih head embedding inner mem) inside

/-- An accepted document was put to the oracle with all the questions that its maps of ids give
rise to. -/
theorem Validator.Orderly.questions_of_returns (orderly : validator.Orderly)
    {oracle : Option Oracle} {out : Json} (returns : validator.Returns oracle document out) :
    ∃ checked, validator.check [] document = .ok checked ∧
      questions (validator.validate oracle document).activities =
        wanted (validator.idMaps checked) := by
  let service := oracle.map Oracle.always
  have same : validator.validate oracle document = validator.judge
      (validator.cleanBy (Service.drop service) []) document :=
    validator.validate_eq_validateBy oracle document
  rw [Validator.Returns, same] at returns
  cases passed : validator.check [] document with
  | error violations =>
    rw [Validator.judge_of_failed passed] at returns
    cases returns
  | ok checked =>
    refine ⟨checked, rfl, ?_⟩
    obtain ⟨left, succeeds⟩ := orderly.cleanBy_asks service [] checked {}
    cases run : (validator.cleanBy (Service.drop service) [] checked).run {} with
    | error violation sweep =>
      rw [Validator.judge_of_error passed run] at returns
      cases returns
    | ok cleaned sweep =>
      have answered := succeeds.1 ⟨cleaned, sweep, run⟩
      rw [same, questions_judge passed, left, Service.asked_of_answersAll answered]
      exact List.nil_append _

/-- The order of members, at any depth, is of no account to a compiled validator: it accepts
documents that differ in it alike, what it leaves of them differs in it only, and they are put to
the oracle with the same questions, in some order. -/
theorem validate_reordered {compiler : Compiler} (given : compiler.Gives validator)
    (oracle : Option Oracle) (reordered : document.Reordered other) :
    ((validator.validate oracle document).result.isOk ↔
      (validator.validate oracle other).result.isOk) ∧
    ∀ out out', (validator.validate oracle document).result = .ok out →
      (validator.validate oracle other).result = .ok out' →
      out.Reordered out' ∧
        (questions (validator.validate oracle document).activities).Perm
          (questions (validator.validate oracle other).activities) := by
  have orderless : Orderless (validator.Returns oracle) := given.orderly.orderless
  refine ⟨⟨orderless.isOk_of_isOk reordered, orderless.isOk_of_isOk reordered.symm⟩, ?_⟩
  intro out out' returns returns'
  refine ⟨orderless.reordered reordered returns returns', ?_⟩
  obtain ⟨checked, passed, made⟩ := given.orderly.questions_of_returns returns
  obtain ⟨checked', passed', made'⟩ := given.orderly.questions_of_returns returns'
  obtain ⟨_, again, inside⟩ := given.orderly.check_orderless passed reordered
  have same : Except.ok checked' = Except.ok _ := passed'.symm.trans again
  cases same
  rw [made, made']
  exact given.orderly.wanted_perm inside

/-- A hall with a shelf and a reserve. -/
def smallHall : Json :=
  .obj [("shelves", .arr [.obj [("things", .obj [("8", .obj []), ("7", .obj [])])]]),
    ("reserve", .obj [("things", .obj [("9", .obj []), ("7", .obj [])])])]

/-- The same hall told in another order, outside and inside. -/
def smallHall' : Json :=
  .obj [("reserve", .obj [("things", .obj [("7", .obj []), ("9", .obj [])])]),
    ("shelves", .arr [.obj [("things", .obj [("8", .obj []), ("7", .obj [])])]])]

/-- The members of the outcome stand in the order of the document. -/
theorem validate_reordered_hall :
    ∃ validator out out', halls.Gives validator ∧ smallHall.Reordered smallHall' ∧
      (validator.validate (some (EntityStore.oracle ⟨[("thing", [7, 9])]⟩)) smallHall).result =
        .ok out ∧
      (validator.validate (some (EntityStore.oracle ⟨[("thing", [7, 9])]⟩)) smallHall').result =
        .ok out' ∧
      out ≠ out' ∧ out.Reordered out' := by
  have ran : (halls.compile 0 "Hall").result.toOption.any fun compiled =>
      (compiled.validator.validate (some (EntityStore.oracle ⟨[("thing", [7, 9])]⟩))
        smallHall).result.toOption.any fun out =>
      (compiled.validator.validate (some (EntityStore.oracle ⟨[("thing", [7, 9])]⟩))
        smallHall').result.toOption.any fun out' => out ≠ out' := by
    decide +kernel
  obtain ⟨compiled, given, tested⟩ := Compiler.exists_gives_of_any ran
  obtain ⟨out, returns, tested⟩ := exists_of_any_toOption tested
  obtain ⟨out', returns', different⟩ := exists_of_any_toOption tested
  have reordered : smallHall.Reordered smallHall' :=
    (Json.Reordered.swap [] (by decide)).trans
      (.member "reserve" _ (.member "things" [] (.swap [] (by decide))))
  obtain ⟨-, outcome⟩ := validate_reordered given
    (some (EntityStore.oracle ⟨[("thing", [7, 9])]⟩)) reordered
  exact ⟨_, out, out', given, reordered, returns, returns', of_decide_eq_true different,
    (outcome out out' returns returns').1⟩

end DocModel
