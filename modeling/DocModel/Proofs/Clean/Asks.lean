import DocModel.Proofs.Clean.Maps
import DocModel.Proofs.Json.Members

namespace DocModel

namespace Service

/-- Whether a service answers a question that comes after others; without one there is no answer. -/
def answers (service : Option Service) (past : List Question) (question : Question) : Bool :=
  service.any fun serve => (serve past question.1 question.2).isOk

/-- Whether a service answers questions that are asked one after the other. -/
def answersAll (service : Option Service) (past : List Question) : List Question → Bool
  | [] => true
  | question :: wanted =>
    answers service past question && answersAll service (past ++ [question]) wanted

/-- The questions that are asked of those wanted: none after one that is not answered. -/
def asked (service : Option Service) (past : List Question) : List Question → List Question
  | [] => []
  | question :: wanted =>
    if service.isNone then []
    else if answers service past question then
      question :: asked service (past ++ [question]) wanted
    else [question]

variable {service : Option Service} {past wanted others before after : List Question}
  {question : Question}

theorem answersAll_append : answersAll service past (wanted ++ others) =
    (answersAll service past wanted && answersAll service (past ++ wanted) others) := by
  induction wanted generalizing past with
  | nil => simp [answersAll]
  | cons question wanted ih =>
    rw [List.cons_append, answersAll, answersAll, ih, Bool.and_assoc, List.append_assoc,
      List.singleton_append]

theorem asked_append_of_answersAll (h : answersAll service past wanted) :
    asked service past (wanted ++ others) = wanted ++ asked service (past ++ wanted) others := by
  induction wanted generalizing past with
  | nil => simp
  | cons question wanted ih =>
    rw [answersAll, Bool.and_eq_true] at h
    obtain ⟨answered, rest⟩ := h
    have served : ¬ service.isNone := by
      intro absent
      rw [Option.isNone_iff_eq_none.1 absent] at answered
      cases answered
    rw [List.cons_append, asked, if_neg served, if_pos answered, ih rest, List.append_assoc]
    rfl

theorem asked_of_answersAll (h : answersAll service past wanted) :
    asked service past wanted = wanted := by
  have whole : asked service past (wanted ++ []) = wanted ++ [] := asked_append_of_answersAll h
  rwa [List.append_nil] at whole

theorem asked_append_of_not (h : ¬ answersAll service past wanted) :
    asked service past (wanted ++ others) = asked service past wanted := by
  induction wanted generalizing past with
  | nil => exact absurd rfl h
  | cons question wanted ih =>
    rw [answersAll, Bool.and_eq_true] at h
    rw [List.cons_append, asked, asked]
    by_cases answered : answers service past question
    · rw [ih fun rest => h ⟨answered, rest⟩]
    · rw [if_neg answered, if_neg answered]

theorem asked_prefix_wanted (service : Option Service) (past wanted : List Question) :
    asked service past wanted <+: wanted := by
  induction wanted generalizing past with
  | nil => exact List.prefix_refl []
  | cons question wanted ih =>
    rw [asked]
    split
    · exact List.nil_prefix
    · split
      · exact (List.prefix_cons_inj question).2 (ih _)
      · exact ⟨wanted, rfl⟩

theorem asked_ne_nil_iff : asked service past (question :: after) ≠ [] ↔ service.isSome := by
  rw [asked]
  cases service with
  | none => simp
  | some serve =>
    apply iff_of_true _ rfl
    rw [if_neg (by simp)]
    split
    · exact List.cons_ne_nil _ _
    · exact List.cons_ne_nil _ _

/-- A question is asked if there is a service and all questions before it are answered. -/
theorem lt_length_asked_iff :
    before.length < (asked service past (before ++ question :: after)).length ↔
      service.isSome ∧ answersAll service past before := by
  by_cases answered : answersAll service past before
  · rw [asked_append_of_answersAll answered, List.length_append, Nat.lt_add_right_iff_pos,
      List.length_pos_iff, asked_ne_nil_iff]
    exact (and_iff_left answered).symm
  · rw [asked_append_of_not answered]
    have short := (asked_prefix_wanted service past before).length_le
    exact iff_of_false (Nat.not_lt_of_le short) fun both => answered both.2

end Service

namespace Cleaning

variable {α β : Type}

/-- What an action leaves behind, whether it succeeds or fails. -/
def left (action : Cleaning α) (before : Sweep) : Sweep :=
  match action.run before with
  | .ok _ after | .error _ after => after

/-- From a state, an action asks the wanted questions as far as they are answered, and succeeds if
and only if they all are. -/
structure AsksFrom (service : Option Service) (action : Cleaning α) (wanted : List Question)
    (before : Sweep) : Prop where
  questions_left : questions (action.left before).activities =
    questions before.activities ++ Service.asked service (questions before.activities) wanted
  succeeds_iff : (∃ value after, action.run before = .ok value after) ↔
    Service.answersAll service (questions before.activities) wanted

/-- From every state, an action asks the wanted questions. -/
def Asks (service : Option Service) (action : Cleaning α) (wanted : List Question) : Prop :=
  ∀ before, action.AsksFrom service wanted before

variable {service : Option Service} {action : Cleaning α} {next : α → Cleaning β}
  {wanted others : List Question} {before after : Sweep} {value : α} {violation : Violation}

theorem left_of_ok (run : action.run before = .ok value after) : action.left before = after := by
  rw [left, run]

theorem left_of_error (run : action.run before = .error violation after) :
    action.left before = after := by
  rw [left, run]

theorem run_bind_of_ok (run : action.run before = .ok value after) :
    (action >>= next).run before = (next value).run after := by
  rw [EStateM.run_bind, run]

theorem run_bind_of_error (run : action.run before = .error violation after) :
    (action >>= next).run before = .error violation after := by
  rw [EStateM.run_bind, run]

theorem left_bind_of_ok (run : action.run before = .ok value after) :
    (action >>= next).left before = (next value).left after := by
  rw [left, run_bind_of_ok run]
  rfl

theorem exists_of_run_bind {result : β}
    (run : (action >>= next).run before = .ok result after) :
    ∃ value middle, action.run before = .ok value middle ∧
      (next value).run middle = .ok result after := by
  cases first : action.run before with
  | ok value middle => exact ⟨value, middle, rfl, (run_bind_of_ok first).symm.trans run⟩
  | error violation middle =>
    rw [run_bind_of_error first] at run
    cases run

theorem AsksFrom.of_ok (run : action.run before = .ok value after)
    (answered : Service.answersAll service (questions before.activities) wanted)
    (made : questions after.activities = questions before.activities ++ wanted) :
    action.AsksFrom service wanted before where
  questions_left := by rw [left_of_ok run, Service.asked_of_answersAll answered, made]
  succeeds_iff := iff_of_true ⟨value, after, run⟩ answered

theorem AsksFrom.of_error (run : action.run before = .error violation after)
    (refused : ¬ Service.answersAll service (questions before.activities) wanted)
    (made : questions after.activities =
      questions before.activities ++ Service.asked service (questions before.activities) wanted) :
    action.AsksFrom service wanted before where
  questions_left := by rw [left_of_error run, made]
  succeeds_iff := by
    apply iff_of_false _ refused
    intro success
    obtain ⟨value, after', run'⟩ := success
    rw [run] at run'
    cases run'

theorem Asks.pure (value : α) : Asks service (pure value) [] := by
  intro before
  have run : EStateM.run (Pure.pure value : Cleaning α) before = .ok value before := rfl
  exact .of_ok run rfl (List.append_nil _).symm

theorem Asks.of_quiet {f : Sweep → Sweep}
    (quiet : ∀ sweep, (f sweep).activities = sweep.activities) :
    Asks service (modify f) [] := by
  intro before
  have run : EStateM.run (modify f : Cleaning Unit) before = .ok () (f before) := rfl
  apply AsksFrom.of_ok run rfl
  rw [quiet, List.append_nil]

theorem Asks.bind (first : action.Asks service wanted)
    (rest : ∀ before value after, action.run before = .ok value after →
      (next value).Asks service others) :
    (action >>= next).Asks service (wanted ++ others) := by
  intro before
  obtain ⟨made, success⟩ := first before
  cases run : action.run before with
  | ok value after =>
    have answered := success.1 ⟨value, after, run⟩
    rw [left_of_ok run, Service.asked_of_answersAll answered] at made
    obtain ⟨made', success'⟩ := rest before value after run after
    constructor
    · rw [left_bind_of_ok run, Service.asked_append_of_answersAll answered, ← List.append_assoc,
        ← made]
      exact made'
    · rw [run_bind_of_ok run, Service.answersAll_append, answered, Bool.true_and, ← made]
      exact success'
  | error violation after =>
    have refused : ¬ Service.answersAll service (questions before.activities) wanted := by
      intro answered
      obtain ⟨value, after', run'⟩ := success.2 answered
      rw [run] at run'
      cases run'
    rw [left_of_error run] at made
    apply AsksFrom.of_error (run_bind_of_error run)
    · rw [Service.answersAll_append, Bool.and_eq_true]
      exact fun both => refused both.1
    · rw [made, Service.asked_append_of_not refused]

theorem Asks.map (h : action.Asks service wanted) (f : α → β) :
    Asks service (action >>= fun value => Pure.pure (f value)) wanted := by
  have mapped : Asks service (action >>= fun value => Pure.pure (f value)) (wanted ++ []) :=
    h.bind fun _ value _ _ => Asks.pure (f value)
  rwa [List.append_nil] at mapped

end Cleaning

theorem questions_note_queried (model : String) (ids : List Int) (sweep : Sweep) :
    questions ((sweep.note (.queried model ids)).activities) =
      questions sweep.activities ++ [(model, ids)] :=
  questions_append _ _

theorem questions_note_queryFailed (model reason : String) (sweep : Sweep) :
    questions (sweep.note (.queryFailed model reason)).activities =
      questions sweep.activities := by
  rw [Sweep.note, questions_append]
  exact List.append_nil _

variable {service : Option Service}

/-- Asks a service which of the ids exist. -/
def Service.existing (service : Option Service) (location : Location) (model : String)
    (ids : List Int) : Cleaning (List Int) := do
  let sweep ← get
  existingIds (service.map fun serve => serve (questions sweep.activities)) location model ids

theorem Service.existing_asks_nil (location : Location) (model : String) :
    (Service.existing service location model []).Asks service [] := Cleaning.Asks.pure []

/-- The state once a question has been asked. -/
def Sweep.ask (model : String) (ids : List Int) (sweep : Sweep) : Sweep :=
  (sweep.note (.queried model ids)).countQuery

variable {model : String} {ids : List Int} {location : Location} {before : Sweep}

theorem existingIds_run_none (some_ids : ids ≠ []) :
    (existingIds none location model ids).run before =
      .error ⟨location, .noOracle model⟩ before := by
  rw [existingIds, if_neg (by simpa using some_ids)]
  rfl

theorem existingIds_run_ok {oracle : Oracle} {existing : List Int} (some_ids : ids ≠ [])
    (answer : oracle model ids = .ok existing) :
    (existingIds (some oracle) location model ids).run before =
      .ok existing (before.ask model ids) := by
  rw [existingIds, if_neg (by simpa using some_ids)]
  simp only [answer]
  rfl

theorem existingIds_run_error {oracle : Oracle} {error : OracleError} (some_ids : ids ≠ [])
    (answer : oracle model ids = .error error) :
    (existingIds (some oracle) location model ids).run before =
      .error ⟨location, .oracleFailed model error.message⟩
        ((before.ask model ids).note (.queryFailed model error.message)) := by
  rw [existingIds, if_neg (by simpa using some_ids)]
  simp only [answer]
  rfl

theorem Service.existing_asks (some_ids : ids ≠ []) :
    (Service.existing service location model ids).Asks service [(model, ids)] := by
  intro before
  have run : (Service.existing service location model ids).run before =
    (existingIds (service.map fun serve => serve (questions before.activities)) location model
      ids).run before := rfl
  cases service with
  | none =>
    rw [Option.map_none, existingIds_run_none some_ids] at run
    exact .of_error run Bool.false_ne_true (List.append_nil _).symm
  | some serve =>
    rw [Option.map_some] at run
    cases answer : serve (questions before.activities) model ids with
    | error error =>
      rw [existingIds_run_error some_ids answer] at run
      have refused : answers (some serve) (questions before.activities) (model, ids) = false := by
        rw [answers, Option.any_some, answer]
        rfl
      apply Cleaning.AsksFrom.of_error run
      · rw [answersAll, refused]
        exact Bool.false_ne_true
      · rw [questions_note_queryFailed, asked, refused]
        exact questions_note_queried model ids before
    | ok existing =>
      rw [existingIds_run_ok some_ids answer] at run
      have answered : answers (some serve) (questions before.activities) (model, ids) = true := by
        rw [answers, Option.any_some, answer]
        rfl
      apply Cleaning.AsksFrom.of_ok run
      · rw [answersAll, answered]
        rfl
      · exact questions_note_queried model ids before

theorem Service.drop_eq (location : Location) (model : String) (entries : Json.Members) :
    Service.drop service location model entries = do
      let existing ← Service.existing service location model (keyIds entries.keys)
      let kept := entries.filter fun entry => (keyId? entry.1).any existing.contains
      modify (Sweep.countDropped (entries.length - kept.length))
      return kept := rfl

theorem Service.drop_asks (map : IdMap) (location : Location) {entries : Json.Members}
    (same : entries.keys = map.entries.keys) :
    (Service.drop service location map.model entries).Asks service (wanted [map]) := by
  have ask : (Service.existing service location map.model (keyIds entries.keys)).Asks service
      (wanted [map]) := by
    rw [same, ← IdMap.ids]
    by_cases ids : map.ids = []
    · have none_wanted : wanted [map] = [] := by simp [wanted, IdMap.hasIds, ids]
      rw [ids, none_wanted]
      exact existing_asks_nil location map.model
    · have one_wanted : wanted [map] = [(map.model, map.ids)] := by
        rw [wanted, List.filter_singleton, IdMap.hasIds_eq_true_iff.2 ids]
        rfl
      rw [one_wanted]
      exact existing_asks ids
  rw [drop_eq, ← List.append_nil (wanted [map])]
  apply ask.bind
  intro before existing after run
  have quiet : ∀ sweep : Sweep, (sweep.countDropped
      (entries.length - (entries.filter fun entry =>
        (keyId? entry.1).any existing.contains).length)).activities = sweep.activities :=
    fun sweep => rfl
  exact (Cleaning.Asks.of_quiet quiet).map _

end DocModel
