import DocModel.Proofs.Compile.Account
import DocModel.Proofs.Compile.Unwinds

open Relation (ReflTransGen)

namespace DocModel

theorem count_completed (activities : List Activity) (type : String) :
    (marks .trace activities).count (.completed type) =
      (ledger activities).compiled.count type := by
  rw [marks_trace]
  induction activities with
  | nil => rfl
  | cons activity activities ih =>
    dsimp only [ledger] at ih ⊢
    cases activity <;>
      simp [List.filterMap_cons, Activity.mark?, Activity.compiledName?, List.count_cons, ih]

namespace Compiler

section

variable {compiler : Compiler} {fuel : Nat} {name owner : String} {state : CompileState}
  {fields : List (String × Field)}

theorem FieldsRun.finished (regular : compiler.source.Regular)
    {run : Run (List (FieldRule × List Identity))}
    (h : FieldsRun compiler fuel owner fields state run) (consistent : state.Consistent)
    (settled : compiler.SettledFields fields) :
    ∀ rules next, run = .ok rules next → ∀ name field embedding declared,
      (name, field) ∈ fields → field.embeds? = some (embedding, declared) →
        ∃ compiled, next.finished.lookup (compiler.canonical declared) = some compiled := by
  induction fields generalizing state run with
  | nil => exact fun _ _ _ _ _ _ _ mem => absurd mem List.not_mem_nil
  | cons first fields ih =>
    intro rules next succeeds name field embedding declared mem embeds
    cases h with
    | plain plain rest =>
      obtain ⟨others, rfl, -⟩ := Run.cons_eq_ok.1 succeeds
      obtain same | mem := List.mem_cons.1 mem
      · cases same
        rw [plain] at embeds
        cases embeds
      · exact ih rest consistent settled.tail _ _ rfl _ _ _ _ mem embeds
    | embedded own target rest =>
      obtain ⟨others, rfl, -⟩ := Run.cons_eq_ok.1 succeeds
      have fixed := settled _ _ _ _ List.mem_cons_self own
      obtain ⟨between, -, entry⟩ := target.consistent regular consistent fixed
      obtain same | mem := List.mem_cons.1 mem
      · cases same
        rw [own] at embeds
        cases embeds
        have extended := (rest.consistent (fun _ _ _ => NamedRun.consistent regular) between
          settled.tail).2.1
        exact ⟨_, extended.keeps _ _ (entry _ _ rfl)⟩
      · exact ih rest between settled.tail _ _ rfl _ _ _ _ mem embeds
    | failed own target => cases succeeds

/-- What the marks tell of a state is kept by a call for a name. -/
def NamedLogged (compiler : Compiler) (name : String) (state : CompileState)
    (run : Run Compiled) : Prop :=
  state.Consistent → compiler.canonical name = name → state.Logged compiler.source →
    run.state.Logged compiler.source

theorem FieldsRun.logged (regular : compiler.source.Regular)
    (targets : ∀ name state run, NamedRun compiler fuel name state run →
      compiler.NamedLogged name state run)
    {run : Run (List (FieldRule × List Identity))}
    (h : FieldsRun compiler fuel owner fields state run) (consistent : state.Consistent)
    (settled : compiler.SettledFields fields) (logged : state.Logged compiler.source) :
    run.state.Logged compiler.source := by
  induction fields generalizing state run with
  | nil =>
    cases h
    exact logged
  | cons first fields ih =>
    cases h with
    | plain plain rest =>
      rw [Run.state_cons]
      exact ih rest consistent settled.tail logged
    | embedded embeds target rest =>
      have fixed := settled _ _ _ _ List.mem_cons_self embeds
      have between := (target.consistent regular consistent fixed).1
      rw [Run.state_cons]
      exact ih rest between settled.tail (targets _ _ _ target consistent fixed logged)
    | failed embeds target =>
      have fixed := settled _ _ _ _ List.mem_cons_self embeds
      exact targets _ _ _ target consistent fixed logged

theorem NamedRun.logged (regular : compiler.source.Regular) {run : Run Compiled}
    (h : NamedRun compiler fuel name state run) : compiler.NamedLogged name state run := by
  induction fuel generalizing name state run with
  | zero =>
    cases h
    exact fun _ _ logged => logged
  | succ fuel ih =>
    intro consistent fixed logged
    cases h with
    | shared finished => exact logged
    | cyclic fresh open_ => exact logged
    | unloadable fresh closed load => exact logged.noteAll load
    | @loaded _ _ _ definition activities run fresh closed load fields =>
      have holds := (load_eq_ok_iff_holds fixed).1 (congrArg Prod.fst load)
      obtain rfl := holds.name_eq
      have entered := consistent.enter fresh closed activities
      have settled := settledFields_of_holds regular holds
      have inner := fields.logged regular (fun _ _ _ => ih) entered settled
        ((logged.noteAll load).enter definition.name)
      have stack : run.state.stack = state.stack ++ [definition.name] :=
        fields.stack_eq fun _ _ _ => NamedRun.stack_eq
      cases run with
      | error error next => exact inner.abandon stack error
      | ok rules next =>
        refine inner.complete stack ?_ _ _
        rintro target ⟨other, holds', declared, mem, rfl⟩
        obtain rfl := holds.unique holds'
        obtain ⟨_, _, _, mem, embeds⟩ := Definition.mem_targets.1 mem
        exact fields.finished regular entered settled _ _ rfl _ _ _ _ mem embeds

end

variable {compiler : Compiler} {requested : String}

/-- In compiling a name, the error arises in the call. -/
def ArisesIn (compiler : Compiler) (requested : String) (built : Nat) (inner : Frame) : Prop :=
  ReflTransGen compiler.Nests ⟨compiler.depth, compiler.canonical requested, { built }⟩ inner ∧
    ∃ fault, compiler.Raises inner fault

section

variable (regular : compiler.source.Regular) (settled : compiler.source.Settled requested)
  (built : Nat)

theorem marks_compile : (compiler.compile built requested).marks =
    (Run.state ((compiler.compileNamed compiler.depth (compiler.canonical requested)).run
      { built })).marks := by
  rw [compile]
  cases (compiler.compileNamed compiler.depth (compiler.canonical requested)).run { built } <;> rfl

include regular settled

/-- All scopes are closed in the end, and no type is completed before what it embeds. -/
theorem closed_compile : Mark.opened? (compiler.compile built requested).marks = some [] ∧
    Mark.Ordered compiler.source (compiler.compile built requested).marks := by
  have run := NamedRun.of_compileNamed compiler compiler.depth (compiler.canonical requested)
    { built }
  have logged := run.logged regular (compiler.sound_nil built).consistent settled
    (CompileState.logged_nil _ built)
  have stack : (Run.state ((compiler.compileNamed compiler.depth
      (compiler.canonical requested)).run { built })).stack = [] := run.stack_eq
  rw [marks_compile]
  refine ⟨?_, logged.ordered⟩
  rw [logged.opened, stack]
  rfl

theorem count_compile {compiled : Compiled} {type : String}
    (succeeds : (compiler.compile built requested).result = .ok compiled)
    (reached : ReflTransGen compiler.source.Embeds (compiler.canonical requested) type) :
    (compiler.compile built requested).marks.count (.begun type) = 1 ∧
      (compiler.compile built requested).marks.count (.completed type) = 1 := by
  obtain ⟨state, leaves⟩ := exists_leaves regular settled built
  have quiet : Mark.failures (compiler.compile built requested).marks = [] := by
    rw [compile, Outcome.result_of] at succeeds
    obtain ⟨last, run⟩ := Run.result_eq_ok.1 succeeds
    rw [marks_compile, run]
    exact quiet_compileNamed compiler _ _ _ _ _ run
  have completed : (compiler.compile built requested).marks.count (.completed type) = 1 := by
    have books := leaves.accounted.balanced
    rw [← leaves.activities] at books
    rw [Outcome.marks, count_completed]
    have mem := (leaves.mem_fetched_iff succeeds regular settled).2 reached
    exact List.count_eq_one_of_mem books.once (leaves.fetched_subset succeeds mem)
  have begun := Mark.count_begun type (closed_compile regular settled built).1
  rw [Mark.count_closed type quiet, completed] at begun
  exact ⟨begun, completed⟩

theorem exists_arisesIn {error : Failure}
    (fails : (compiler.compile built requested).result = .error error) :
    ∃ inner, compiler.ArisesIn requested built inner := by
  have fits := fits_of_settled settled compiler.length_lt_depth built
  rw [compile, Outcome.result_of] at fails
  obtain ⟨last, run⟩ := Run.result_eq_error.1 fails
  obtain ⟨inner, fault, leads, raises⟩ :=
    exists_raises regular compiler.source.lists_names fits run
  exact ⟨inner, leads, fault, raises⟩

theorem failures_compile {error : Failure}
    (fails : (compiler.compile built requested).result = .error error) {inner : Frame}
    (arises : compiler.ArisesIn requested built inner) :
    (Mark.failures (compiler.compile built requested).marks).map (·.1) =
        inner.state.stack.reverse ∧
      (compiler.source.Candid → ∀ failure ∈ Mark.failures (compiler.compile built requested).marks,
        failure.2 = error.code.text) := by
  obtain ⟨leads, fault, raises⟩ := arises
  obtain ⟨opened, error', last, stack, unwinds⟩ :=
    exists_unwinds regular leads settled rfl raises
  have run := unwinds.run
  dsimp only at run
  rw [compile, run] at fails
  cases fails
  rw [marks_compile, run, stack]
  exact ⟨unwinds.names, unwinds.reasons⟩

end

/-- The scopes that are logged while a name is compiled. Each one is closed, last opened first, by
its completion or its failure, and none is dropped. In a call that succeeds all that is reached is
begun and completed once, what a definition embeds before the definition. In a call that fails the
definitions on the stack where the error arose have failed, the innermost first, for the reason that
is returned. -/
theorem compile_scopes_bracketed (regular : compiler.source.Regular)
    (settled : compiler.source.Settled requested) (built : Nat) :
    Mark.opened? (compiler.compile built requested).marks = some [] ∧
    (∀ record ∈ Log.atLeast .trace
        ((compiler.compile built requested).activities.flatMap Activity.records),
      record.event ≠ "COMPILE_INCOMPLETE") ∧
    (∀ compiled, (compiler.compile built requested).result = .ok compiled →
      (∀ type, ReflTransGen compiler.source.Embeds (compiler.canonical requested) type →
        (compiler.compile built requested).marks.count (.begun type) = 1 ∧
          (compiler.compile built requested).marks.count (.completed type) = 1) ∧
      Mark.Ordered compiler.source (compiler.compile built requested).marks) ∧
    ∀ error, (compiler.compile built requested).result = .error error →
      (∃ inner, compiler.ArisesIn requested built inner) ∧
      (∀ inner, compiler.ArisesIn requested built inner →
        (Mark.failures (compiler.compile built requested).marks).map (·.1) =
          inner.state.stack.reverse) ∧
      (compiler.source.Candid →
        ∀ failure ∈ Mark.failures (compiler.compile built requested).marks,
          failure.2 = error.code.text) := by
  obtain ⟨closed, ordered⟩ := closed_compile regular settled built
  refine ⟨closed, ?_, ?_, ?_⟩
  · intro record mem incomplete
    refine Mark.stray_notMem "COMPILE_INCOMPLETE" closed ?_
    exact List.mem_filterMap.2 ⟨record, mem, ofRecord?_of_incomplete incomplete⟩
  · intro compiled succeeds
    exact ⟨fun type reached => count_compile regular settled built succeeds reached, ordered⟩
  · intro error fails
    obtain ⟨inner, arises⟩ := exists_arisesIn regular settled built fails
    exact ⟨⟨inner, arises⟩,
      fun inner arises => (failures_compile regular settled built fails arises).1,
      (failures_compile regular settled built fails arises).2⟩

theorem compile_scopes_bracketed_broken :
    (∀ type ∈ ["Top", "Left", "Leaf", "Right"],
      (diamond.compile 0 "Top").marks.count (.begun type) = 1 ∧
        (diamond.compile 0 "Top").marks.count (.completed type) = 1) ∧
    (∃ inner, broken.ArisesIn "Top" 0 inner ∧ inner.state.stack = ["Top", "Middle", "Low"]) ∧
    ∀ failure ∈ Mark.failures (broken.compile 0 "Top").marks,
      failure.2 = ErrorCode.unknownFieldType.text := by
  have regular : diamond.source.Regular := Registry.regular_of_isRegular (by decide +kernel)
  have regular' : broken.source.Regular := Registry.regular_of_isRegular (by decide +kernel)
  have canonical : diamond.canonical "Top" = "Top" := by decide +kernel
  have canonical' : broken.canonical "Top" = "Top" := by decide +kernel
  have fetched : (ledger (diamond.compile 0 "Top").activities).fetched =
      ["Top", "Left", "Leaf", "Right"] := by decide +kernel
  have failed : (Mark.failures (broken.compile 0 "Top").marks).map (·.1) =
      ["Low", "Middle", "Top"] := by decide +kernel
  have settled : diamond.source.Settled "Top" := congrArg diamond.canonical canonical
  obtain ⟨compiled, result⟩ : ∃ compiled, (diamond.compile 0 "Top").result = .ok compiled :=
    isOk_iff.1 (by decide +kernel)
  have fails : (broken.compile 0 "Top").result =
      .error (.schema (.unknownFieldType "Low" "ghost" "Ghost.json")) :=
    errorOf?_eq_some.1 (by decide +kernel)
  obtain ⟨-, -, succeeds, -⟩ := compile_scopes_bracketed regular settled 0
  obtain ⟨-, -, -, refused⟩ :=
    compile_scopes_bracketed regular' (congrArg broken.canonical canonical') 0
  obtain ⟨⟨inner, arises⟩, names, reasons⟩ := refused _ fails
  obtain ⟨state, leaves⟩ := exists_leaves regular settled 0
  refine ⟨?_, ⟨inner, arises, ?_⟩, reasons (Registry.candid _)⟩
  · intro type mem
    rw [← fetched] at mem
    exact (succeeds compiled result).1 type ((leaves.mem_fetched_iff result regular settled).1 mem)
  · have stack := names inner arises
    rw [failed] at stack
    exact List.reverse_eq_iff.1 stack.symm

end Compiler

end DocModel
