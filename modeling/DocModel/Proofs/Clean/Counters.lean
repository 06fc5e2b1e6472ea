import Mathlib.Algebra.GroupWithZero.Nat
import DocModel.Proofs.Clean.Tally

namespace DocModel

/-- What some activities add to a counter. -/
def amount (counter : Counter) (activities : List Activity) : Nat :=
  (((activities.flatMap Activity.counts).filter (·.1 = counter)).map Prod.snd).sum

theorem Metrics.count_add (metrics : Metrics) (added counter : Counter) (n : UInt64) :
    (metrics.add added n).count counter =
      if counter = added then metrics.count counter + n else metrics.count counter := rfl

theorem Metrics.count_addAll (metrics : Metrics) (counter : Counter) (activities : List Activity) :
    (metrics.addAll activities).count counter =
      metrics.count counter + .ofNat (amount counter activities) := by
  rw [addAll, amount]
  induction activities.flatMap Activity.counts generalizing metrics with
  | nil => exact (UInt64.add_zero _).symm
  | cons count counts ih =>
    rw [List.foldl_cons, ih, count_add, List.filter_cons]
    by_cases same : counter = count.1
    · rw [if_pos same, if_pos (by simpa using same.symm), List.map_cons, List.sum_cons,
        UInt64.ofNat_add, UInt64.add_assoc]
    · rw [if_neg same, if_neg (by simpa using Ne.symm same)]

/-- A document that is given to a validator with a service. -/
structure Call where
  validator : Validator
  service : Option Service
  document : Json

namespace Call

def verdict (call : Call) : Verdict := call.validator.validateBy call.service call.document

def accepted (call : Call) : Bool := call.verdict.result.isOk

/-- How often the service was asked. -/
def queries (call : Call) : Nat := (questions call.verdict.activities).length

end Call

/-- The counters after some calls, one after the other. -/
def Metrics.addCalls (metrics : Metrics) (calls : List Call) : Metrics :=
  calls.foldl (fun metrics call => metrics.addAll call.verdict.activities) metrics

theorem amount_append_of_unheard {activities others : List Activity} {counter : Counter}
    (unheard : activities.flatMap Activity.counts = []) :
    amount counter (activities ++ others) = amount counter others := by
  rw [amount, List.flatMap_append, unheard, List.nil_append]
  rfl

variable {validator : Validator} {service : Option Service} {checked : Json}

theorem tallied_cleanBy : (((validator.cleanBy (Service.drop service) []) checked).left {}).Tallied :=
  validator.cleanBy_keeps (Service.drop_keeps_tallied service) [] checked {} ⟨rfl, rfl⟩

/-- The questions of a call reach the counter only if the document is accepted. -/
theorem Call.amount_eq (call : Call) :
    amount .oracleQueries call.verdict.activities = if call.accepted then call.queries else 0 := by
  obtain ⟨validator, service, document⟩ := call
  cases passed : validator.check [] document with
  | error violations =>
    rw [accepted, verdict, Validator.validateBy, Validator.judge_of_failed passed]
    rfl
  | ok checked =>
    have tallied : (((validator.cleanBy (Service.drop service) []) checked).left {}).Tallied :=
      tallied_cleanBy
    cases run : (validator.cleanBy (Service.drop service) [] checked).run {} with
    | error violation sweep =>
      rw [Cleaning.left_of_error run] at tallied
      rw [accepted, verdict, Validator.validateBy, Validator.judge_of_error passed run]
      exact amount_append_of_unheard tallied.2
    | ok cleaned sweep =>
      rw [Cleaning.left_of_ok run] at tallied
      obtain ⟨counted, unheard⟩ := tallied
      rw [accepted, queries, verdict, Validator.validateBy, questions_judge passed,
        Validator.judge_of_ok passed run, Cleaning.left_of_ok run, ← counted,
        amount_append_of_unheard unheard]
      exact Nat.add_zero _

theorem Metrics.count_addCalls (metrics : Metrics) (calls : List Call) :
    (metrics.addCalls calls).count .oracleQueries = metrics.count .oracleQueries +
      .ofNat ((calls.filter Call.accepted).map Call.queries).sum := by
  rw [addCalls]
  induction calls generalizing metrics with
  | nil => exact (UInt64.add_zero _).symm
  | cons call calls ih =>
    rw [List.foldl_cons, ih, count_addAll, call.amount_eq, List.filter_cons]
    split
    · rw [List.map_cons, List.sum_cons, UInt64.ofNat_add, UInt64.add_assoc]
    · rw [UInt64.add_assoc, ← UInt64.ofNat_add, Nat.zero_add]

theorem sum_queries_eq (calls : List Call) :
    (calls.map Call.queries).sum = ((calls.filter Call.accepted).map Call.queries).sum +
      ((calls.filter (!·.accepted)).map Call.queries).sum := by
  induction calls with
  | nil => rfl
  | cons call calls ih =>
    rw [List.map_cons, List.sum_cons, ih, List.filter_cons, List.filter_cons]
    cases call.accepted with
    | true =>
      exact (Nat.add_assoc _ _ _).symm
    | false =>
      exact Nat.add_left_comm _ _ _

/-- The counter of questions to oracles grows by those of the accepted calls alone. So it is the
number of all questions only where the rejected calls asked none, up to the wrapping at 64 bits. -/
theorem oracleQueries_of_accepted (metrics : Metrics) (calls : List Call) :
    (metrics.addCalls calls).count .oracleQueries = metrics.count .oracleQueries +
      .ofNat ((calls.filter Call.accepted).map Call.queries).sum ∧
    ((metrics.addCalls calls).count .oracleQueries =
        metrics.count .oracleQueries + .ofNat (calls.map Call.queries).sum ↔
      2 ^ 64 ∣ ((calls.filter (!·.accepted)).map Call.queries).sum) ∧
    ∀ validator oracle document, validator.validate oracle document =
      (Call.mk validator (oracle.map Oracle.always) document).verdict := by
  refine ⟨metrics.count_addCalls calls, ?_,
    fun validator oracle document => validator.validate_eq_validateBy oracle document⟩
  rw [metrics.count_addCalls, sum_queries_eq calls, UInt64.ofNat_add, UInt64.add_right_inj,
    UInt64.left_eq_add, UInt64.ofNat_eq_iff_mod_eq_toNat]
  exact Nat.dvd_iff_mod_eq_zero.symm

/-- An oracle that never answers. -/
def unreachable : Oracle := fun _ _ => .error (.unavailable "down")

/-- A question that is not answered is asked and not counted. -/
theorem uncounted_query_shelf :
    ∃ validator, shelves.Gives validator ∧
      questions (validator.validate (some unreachable) shelf).activities = [("thing", [7, 8])] ∧
      (Metrics.zero.addAll (validator.validate (some unreachable) shelf).activities).count
        .oracleQueries = 0 ∧
      ¬ (Metrics.zero.addCalls [⟨validator, some unreachable.always, shelf⟩]).count
          .oracleQueries = Metrics.zero.count .oracleQueries +
        .ofNat ([⟨validator, some unreachable.always, shelf⟩].map Call.queries).sum := by
  have ran : (shelves.compile 0 "Shelf").result.toOption.any fun compiled =>
      questions (compiled.validator.validate (some unreachable) shelf).activities =
          [("thing", [7, 8])] ∧
        (Metrics.zero.addAll (compiled.validator.validate (some unreachable) shelf).activities).count
          .oracleQueries = 0 ∧
        ¬ (Metrics.zero.addCalls [⟨compiled.validator, some unreachable.always, shelf⟩]).count
            .oracleQueries = Metrics.zero.count .oracleQueries +
          .ofNat ([⟨compiled.validator, some unreachable.always, shelf⟩].map Call.queries).sum := by
    decide +kernel
  obtain ⟨compiled, given, tested⟩ := Compiler.exists_gives_of_any ran
  exact ⟨_, given, of_decide_eq_true tested⟩

end DocModel
