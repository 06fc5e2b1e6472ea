import DocModel.Proofs.Clean.Asks
import DocModel.Proofs.Clean.Correct
import DocModel.Proofs.Json.Insert

namespace DocModel

theorem wanted_held {maps : Json → List IdMap} (first : Nat) (documents : List Json) :
    wanted ((positioned first documents).flatMap fun part => (maps part.2).map (.below part.1)) =
      documents.flatMap fun document => wanted (maps document) := by
  induction documents generalizing first with
  | nil => rfl
  | cons document documents ih =>
    rw [positioned, List.zipIdx_cons, List.map_cons, List.flatMap_cons, wanted_append, wanted_below,
      ← positioned, ih, List.flatMap_cons]

variable {service : Option Service}

namespace Embedding

variable {document : Location → Json → Cleaning Json} {maps : Json → List IdMap}

theorem cleanItems_asks (asks : ∀ location inner, (document location inner).Asks service
      (wanted (maps inner))) (items : List Json) (location : Location) (index : Nat) :
    (cleanItems document location index items).Asks service
      (items.flatMap fun item => wanted (maps item)) := by
  induction items generalizing index with
  | nil => exact .pure []
  | cons item items ih =>
    apply (asks _ item).bind
    intro before out after run
    exact (ih (index + 1)).map (out :: ·)

theorem cleanEntries_asks (asks : ∀ location inner, (document location inner).Asks service
      (wanted (maps inner))) (entries : Json.Members) (location : Location) :
    (cleanEntries document location entries).Asks service
      ((entries.map Prod.snd).flatMap fun entry => wanted (maps entry)) := by
  induction entries with
  | nil => exact .pure []
  | cons entry entries ih =>
    apply (asks _ entry.2).bind
    intro before out after run
    exact ih.map ((entry.1, out) :: ·)

theorem keys_of_cleanEntries {entries outs : Json.Members} {location : Location}
    {before after : Sweep}
    (run : (cleanEntries document location entries).run before = .ok outs after) :
    outs.keys = entries.keys := by
  induction entries generalizing outs before with
  | nil =>
    cases run
    rfl
  | cons entry entries ih =>
    obtain ⟨out, middle, -, run⟩ := Cleaning.exists_of_run_bind run
    obtain ⟨rest, last, run, done⟩ := Cleaning.exists_of_run_bind run
    cases done
    exact congrArg (entry.1 :: ·) (ih run)

theorem cleanBy_asks (asks : ∀ location inner, (document location inner).Asks service
      (wanted (maps inner))) (embedding : Embedding) (location : Location) (value : Json) :
    (embedding.cleanBy (Service.drop service) document location value).Asks service
      (wanted (embedding.idMaps maps value)) := by
  have single : wanted ([([], value)].flatMap
      (fun part : Location × Json => (maps part.2).map (.below part.1)) ++ []) =
        wanted (maps value) := by
    rw [List.append_nil, List.flatMap_singleton, wanted_below]
  cases embedding with
  | one =>
    cases value with
    | obj members =>
      have top : wanted (one.idMaps maps (.obj members)) = wanted (maps (.obj members)) := single
      rw [top]
      exact asks location _
    | _ => exact .pure _
  | many =>
    cases value with
    | obj members =>
      have top : wanted (many.idMaps maps (.obj members)) = wanted (maps (.obj members)) := single
      rw [top]
      exact asks location _
    | arr items =>
      rw [idMaps, wanted_append, held, wanted_held]
      change Cleaning.Asks service _ (_ ++ [])
      rw [List.append_nil]
      exact (cleanItems_asks asks items location 0).map Json.arr
    | _ => exact .pure _
  | keyed model =>
    cases value with
    | obj entries =>
      rw [idMaps, held, wanted_append, wanted_held]
      apply (cleanEntries_asks asks entries location).bind
      intro before outs after run
      cases model with
      | none => exact .pure _
      | some model =>
        have keys : outs.keys = Json.Members.keys entries := keys_of_cleanEntries run
        exact (Service.drop_asks ⟨[], model, entries⟩ location keys).map Json.obj
    | _ => exact .pure _

end Embedding

variable {members after : Json.Members} {before last : Sweep} {key : String}

namespace FieldHead

variable {head : FieldHead} {clean : Json → Cleaning Json}

theorem refine_asks {maps : Json → List IdMap}
    (asks : ∀ value, (clean value).Asks service (wanted (maps value))) :
    (head.refine clean members).Asks service
      (wanted ((members.get? head.name).elim [] maps)) := by
  cases found : members.get? head.name with
  | none =>
    rw [refine_of_absent clean found]
    exact .pure members
  | some value =>
    rw [refine_of_present clean found, map_eq_pure_bind]
    exact (asks value).map (members.set head.name)

theorem get?_of_refine (run : (head.refine clean members).run before = .ok after last)
    (other : key ≠ head.name) : after.get? key = members.get? key := by
  cases found : members.get? head.name with
  | none =>
    rw [refine_of_absent clean found] at run
    cases run
    rfl
  | some value =>
    rw [refine_of_present clean found, map_eq_pure_bind] at run
    obtain ⟨out, middle, -, done⟩ := Cleaning.exists_of_run_bind run
    cases done
    exact Json.Members.get?_set_ne other

theorem prune_asks : (head.prune members).Asks service [] := by
  rw [prune]
  split
  · have quiet : ∀ sweep : Sweep, sweep.countRemoved.activities = sweep.activities :=
      fun sweep => rfl
    exact (Cleaning.Asks.of_quiet quiet).map _
  · exact .pure members

theorem get?_of_prune (run : (head.prune members).run before = .ok after last)
    (other : key ≠ head.name) : after.get? key = members.get? key := by
  rw [(head.prune_yields members).result_eq run]
  split
  · exact Json.Members.get?_erase_ne other
  · rfl

end FieldHead

variable {rules : List FieldRule} {rule : FieldRule} {validator : Validator}

theorem cleanRulesBy_asks (nodup : (rules.map FieldRule.name).Nodup)
    (asks : ∀ rule ∈ rules, ∀ location value,
      (rule.cleanBy (Service.drop service) location value).Asks service
        (wanted (rule.idMaps value))) (location : Location) (members : Json.Members) :
    (cleanRulesBy (Service.drop service) rules location members).Asks service
      (wanted (idMapsOf rules members)) := by
  induction rules generalizing members with
  | nil => exact .pure members
  | cons rule rules ih =>
    rw [List.map_cons, List.nodup_cons] at nodup
    rw [List.forall_mem_cons] at asks
    rw [cleanRulesBy, idMapsOf, wanted_append, wanted_below]
    apply (FieldHead.refine_asks (asks.1 _)).bind
    intro before refined middle run
    rw [← List.nil_append (wanted (idMapsOf rules members))]
    apply FieldHead.prune_asks.bind
    intro middle pruned after run'
    -- The other rules find in what is left what they would have found before.
    have same : idMapsOf rules members = idMapsOf rules pruned := by
      apply idMapsOf_congr
      intro other mem
      have apart : other.name ≠ rule.name := by
        intro same
        exact nodup.1 (List.mem_map.2 ⟨other, mem, same⟩)
      rw [FieldHead.get?_of_prune run' apart, FieldHead.get?_of_refine run apart]
    rw [same]
    exact ih nodup.2 asks.2 pruned

/-- A cleanup asks once for each map of ids that holds an id, innermost first, as far as there are
answers. -/
theorem Validator.Orderly.cleanBy_asks (orderly : validator.Orderly) (service : Option Service)
    (location : Location) (document : Json) :
    (validator.cleanBy (Service.drop service) location document).Asks service
      (wanted (validator.idMaps document)) := by
  induction orderly generalizing location document with
  | @intro typeName rejectsUnknown rules nodup nested ih =>
    cases document with
    | obj members =>
      apply Cleaning.Asks.map
      apply cleanRulesBy_asks nodup
      intro rule mem location value
      cases rule with
      | value head checks => exact .pure value
      | embedded head embedding nested =>
        exact embedding.cleanBy_asks (ih head embedding nested mem) location value
    | _ => exact .pure _

theorem questions_reject (violations : List Violation) (activities : List Activity) :
    questions (validator.reject violations activities).activities = questions activities := by
  rw [Validator.reject, questions_append]
  exact List.append_nil _

theorem questions_judge {clean : Json → Cleaning Json} {document checked : Json}
    (passed : validator.check [] document = .ok checked) :
    questions (validator.judge clean document).activities =
      questions ((clean checked).left {}).activities := by
  cases run : (clean checked).run {} with
  | error violation sweep =>
    rw [Validator.judge_of_error passed run, Cleaning.left_of_error run]
    exact questions_reject [violation] sweep.activities
  | ok cleaned sweep =>
    rw [Validator.judge_of_ok passed run, Cleaning.left_of_ok run, questions_append]
    exact List.append_nil _

theorem exists_maps_asked (service : Option Service) (maps : List IdMap) :
    ∃ asked, asked <+: maps.filter IdMap.hasIds ∧
      Service.asked service [] (wanted maps) = asked.map IdMap.question ∧
      ∀ before map after, maps.filter IdMap.hasIds = before ++ map :: after →
        (before ++ [map] <+: asked ↔
          service.isSome ∧ Service.answersAll service [] (before.map IdMap.question)) := by
  let count := (Service.asked service [] (wanted maps)).length
  refine ⟨(maps.filter IdMap.hasIds).take count, List.take_prefix _ _, ?_, ?_⟩
  · rw [List.map_take]
    exact List.prefix_iff_eq_take.1 (Service.asked_prefix_wanted service [] _)
  · intro before map after split
    have begins : before ++ [map] <+: maps.filter IdMap.hasIds :=
      ⟨after, by rw [List.append_assoc, split, List.singleton_append]⟩
    have parted : wanted maps =
        before.map IdMap.question ++ map.question :: after.map IdMap.question := by
      rw [wanted, split, List.map_append, List.map_cons]
    rw [List.prefix_take_iff, and_iff_right begins, List.length_append, List.length_singleton,
      Nat.succ_le_iff, ← Service.lt_length_asked_iff, ← parted, List.length_map]

/-- An oracle is asked only about a document that passed the check: once for each map of ids in it,
innermost first, for which there is an id to ask about, until there is no answer. -/
theorem validate_questions {compiler : Compiler} (given : compiler.Gives validator)
    (service : Option Service) (document : Json) :
    let made := questions (validator.validateBy service document).activities
    (∀ violations, validator.check [] document = .error violations → made = []) ∧
    (∀ checked, validator.check [] document = .ok checked →
      let maps := validator.idMaps checked
      (maps.map IdMap.place).Nodup ∧ (∀ map, map ∈ maps ↔ validator.HoldsAt checked map) ∧
      ∃ asked, asked <+: maps.filter IdMap.hasIds ∧ made = asked.map IdMap.question ∧
        (∀ before map after, maps.filter IdMap.hasIds = before ++ map :: after →
          (before ++ [map] <+: asked ↔
            service.isSome ∧ Service.answersAll service [] (before.map IdMap.question))) ∧
        ∀ map ∈ asked, map.ids ≠ [] ∧ map.ids.Pairwise (· < ·) ∧
          ∀ id, id ∈ map.ids ↔ ∃ key ∈ map.entries.keys, keyId? key = some id) ∧
    ∀ oracle, validator.validate oracle document =
      validator.validateBy (oracle.map Oracle.always) document := by
  intro made
  refine ⟨?_, ?_, fun oracle => validator.validate_eq_validateBy oracle document⟩
  · intro violations failed
    change questions (validator.judge _ document).activities = []
    rw [Validator.judge_of_failed failed]
    exact questions_reject violations []
  · intro checked passed maps
    refine ⟨given.orderly.nodup_idMaps, fun map => given.orderly.mem_idMaps, ?_⟩
    obtain ⟨left, -⟩ := given.orderly.cleanBy_asks service [] checked {}
    have all : made = Service.asked service [] (wanted maps) := (questions_judge passed).trans left
    obtain ⟨asked, first, same, asked_iff⟩ := exists_maps_asked service maps
    refine ⟨asked, first, all.trans same, asked_iff, ?_⟩
    intro map mem
    have some_ids : map.hasIds := (List.mem_filter.1 (first.subset mem)).2
    exact ⟨IdMap.hasIds_eq_true_iff.1 some_ids, pairwise_keyIds _, fun id => mem_keyIds⟩

/-- Halls of shelves, one of them a reserve that has the thing of id 9 unless it says otherwise. -/
def halls : Compiler where
  source := Registry.source ⟨[
    ("Hall", .obj [("relations", .obj [
      ("shelves", .obj [("type", .str "embedsMany"), ("model", .str "Shelf")]),
      ("reserve", .obj [("type", .str "embedsOne"), ("model", .str "Shelf"),
        ("default", .obj [("things", .obj [("9", .obj [])])])])])]),
    ("Shelf", .obj [("relations", .obj [
      ("things", .obj [("type", .str "embedsManyAsObject"), ("model", .str "Thing"),
        ("key", .obj [("autoclean", .bool true), ("type", .str "model"),
          ("model", .str "thing")])])])]),
    ("Thing", .obj [])]⟩

/-- A hall with three shelves, the second without ids. -/
def hall : Json :=
  .obj [("shelves", .arr [
    .obj [("things", .obj [("8", .obj []), (" 7", .obj [])])],
    .obj [("things", .obj [("seven", .obj [])])],
    .obj [("things", .obj [("7", .obj []), ("8", .obj []), ("+7", .obj [])])]])]

/-- Answers one question and no more. -/
def Service.once : Service := fun past _ ids => if past.isEmpty then .ok ids else .error (.timeout 5)

/-- The third shelf is not told from the first by what is asked; the reserve is not asked about. -/
theorem validate_questions_hall :
    ∃ validator checked, halls.Gives validator ∧ validator.check [] hall = .ok checked ∧
      ((validator.idMaps checked).filter IdMap.hasIds).map IdMap.place =
        [[.key "shelves", .index 0, .key "things"], [.key "shelves", .index 2, .key "things"],
          [.key "reserve", .key "things"]] ∧
      ∃ asked, asked <+: (validator.idMaps checked).filter IdMap.hasIds ∧
        questions (validator.validateBy (some Service.once) hall).activities =
          asked.map IdMap.question ∧
        asked.map IdMap.question = [("thing", [7, 8]), ("thing", [7, 8])] := by
  have ran : (halls.compile 0 "Hall").result.toOption.any fun compiled =>
      (compiled.validator.check [] hall).toOption.any fun checked =>
        ((compiled.validator.idMaps checked).filter IdMap.hasIds).map IdMap.place =
          [[.key "shelves", .index 0, .key "things"], [.key "shelves", .index 2, .key "things"],
            [.key "reserve", .key "things"]] ∧
        questions (compiled.validator.validateBy (some Service.once) hall).activities =
          [("thing", [7, 8]), ("thing", [7, 8])] := by
    decide +kernel
  obtain ⟨compiled, given, tested⟩ := Compiler.exists_gives_of_any ran
  obtain ⟨checked, passed, tested⟩ := exists_of_any_toOption tested
  obtain ⟨places, made⟩ := of_decide_eq_true tested
  obtain ⟨-, asks, -⟩ := validate_questions given (some Service.once) hall
  obtain ⟨-, -, asked, first, same, -⟩ := asks checked passed
  exact ⟨_, checked, given, passed, places, asked, first, same, same.symm.trans made⟩

end DocModel
