import DocModel.Proofs.Compile.Blame
import DocModel.Proofs.Compile.Marks

open Relation (ReflTransGen)

namespace DocModel

namespace Compiler

variable {compiler : Compiler} {state next : CompileState}

section

variable {target : String → Compiling Compiled} {owner called : String}
  {fields : List (String × Field)}

/-- The calls for a target report no failure if they succeed. -/
def Quiet (target : String → Compiling Compiled) : Prop :=
  ∀ name state compiled next, (target name).run state = .ok compiled next →
    Mark.failures next.marks = Mark.failures state.marks

theorem Quiet.compileField {field : String × Field} {rule : FieldRule × List Identity}
    (quiet : Quiet target) (run : (compiler.compileField target owner field).run state =
      .ok rule next) :
    Mark.failures next.marks = Mark.failures state.marks := by
  obtain ⟨name, field⟩ := field
  cases embeds : field.embeds? with
  | none =>
    rw [run_compileField_plain _ _ embeds] at run
    cases run
    rfl
  | some embedded =>
    rw [run_compileField_embedded _ _ embeds] at run
    cases nested : (target (compiler.canonical embedded.2)).run state with
    | error error after =>
      rw [nested] at run
      cases run
    | ok compiled after =>
      rw [nested] at run
      cases run
      exact quiet _ _ _ _ nested

theorem Quiet.mapM {rules : List (FieldRule × List Identity)} (quiet : Quiet target)
    (run : (fields.mapM (compiler.compileField target owner)).run state = .ok rules next) :
    Mark.failures next.marks = Mark.failures state.marks := by
  induction fields generalizing state rules with
  | nil =>
    cases run
    rfl
  | cons first fields ih =>
    rw [run_mapM_cons] at run
    cases own : (compiler.compileField target owner first).run state with
    | error error after =>
      rw [own] at run
      cases run
    | ok rule after =>
      rw [own] at run
      obtain ⟨rest, run, -⟩ := Run.cons_eq_ok.1 run
      rw [ih run, quiet.compileField own]

theorem quiet_compileNamed (compiler : Compiler) (fuel : Nat) :
    Quiet (compiler.compileNamed fuel) := by
  induction fuel with
  | zero => exact fun _ _ _ _ run => by cases run
  | succ fuel ih =>
    intro name state compiled next run
    cases finished : state.finished.lookup name with
    | some compiled =>
      rw [run_compileNamed_shared finished] at run
      cases run
      rfl
    | none =>
      by_cases open_ : name ∈ state.stack
      · rw [run_compileNamed_cyclic finished open_] at run
        cases run
      rw [run_compileNamed_fresh finished open_] at run
      rcases load : compiler.load name with ⟨error | definition, activities⟩
      · rw [load] at run
        cases run
      simp only [load, run_build, compileFields_eq] at run
      cases fields : (definition.fields.mapM (compiler.compileField (compiler.compileNamed fuel)
          definition.name)).run ((state.noteAll activities).enter definition.name) with
      | error error after =>
        rw [fields] at run
        cases run
      | ok rules after =>
        rw [fields] at run
        cases run
        rw [CompileState.failures_complete, ih.mapM fields, CompileState.failures_enter,
          CompileState.marks_noteAll load]

theorem FieldsCall.failures_eq {last : CompileState} (quiet : Quiet target)
    (h : FieldsCall compiler target owner fields state called last) :
    Mark.failures last.marks = Mark.failures state.marks := by
  induction h with
  | here embeds => rfl
  | later run call ih => rw [ih, quiet.compileField run]

theorem exists_call_of_error {error : Failure}
    (h : (fields.mapM (compiler.compileField target owner)).run state = .error error next) :
    ∃ called last fault after, FieldsCall compiler target owner fields state called last ∧
      (target called).run last = .error fault after := by
  induction fields generalizing state with
  | nil => cases h
  | cons first fields ih =>
    rw [run_mapM_cons] at h
    cases own : (compiler.compileField target owner first).run state with
    | ok rule after =>
      rw [own] at h
      cases rest : (fields.mapM (compiler.compileField target owner)).run after with
      | ok rules last =>
        simp only [rest, Run.cons, reduceCtorEq] at h
      | error fault last =>
        simp only [rest, Run.cons, EStateM.Result.error.injEq] at h
        obtain ⟨rfl, rfl⟩ := h
        obtain ⟨called, last, fault, after, call, failed⟩ := ih rest
        exact ⟨called, last, fault, after, .later own call, failed⟩
    | error fault after =>
      obtain ⟨name, field⟩ := first
      cases embeds : field.embeds? with
      | none =>
        rw [run_compileField_plain _ _ embeds] at own
        cases own
      | some embedded =>
        rw [run_compileField_embedded _ _ embeds] at own
        cases nested : (target (compiler.canonical embedded.2)).run state with
        | ok compiled last =>
          rw [nested] at own
          cases own
        | error cause last => exact ⟨_, _, _, _, .here embeds, nested⟩

end

/-- The error arises in the call itself: the call fails and begins no definition. -/
inductive Raises (compiler : Compiler) : Frame → Failure → Prop
  | cyclic {fuel : Nat} {name : String} {state : CompileState}
    (fresh : state.finished.lookup name = none) (open_ : name ∈ state.stack) :
    Raises compiler ⟨fuel + 1, name, state⟩ (.schema (.cyclicDefinition state.stack name))
  | unloadable {fuel : Nat} {name : String} {state : CompileState} {error : SchemaError}
    {activities : List Activity} (fresh : state.finished.lookup name = none)
    (closed : name ∉ state.stack) (load : compiler.load name = (.error error, activities)) :
    Raises compiler ⟨fuel + 1, name, state⟩ (.schema error)

section

variable {known : List String} {frame inner : Frame} {error fault : Failure}

/-- A call that fails leads to one in which the error arises. -/
theorem exists_raises (regular : compiler.source.Regular) (lists : compiler.source.Lists known)
    (fits : compiler.Fits known frame) {last : CompileState}
    (failed : (compiler.compileNamed frame.fuel frame.name).run frame.state = .error error last) :
    ∃ inner fault, ReflTransGen compiler.Nests frame inner ∧ compiler.Raises inner fault := by
  obtain ⟨fuel, name, state⟩ := frame
  induction fuel generalizing name state error last with
  | zero => exact absurd fits.fuel_pos (Nat.lt_irrefl 0)
  | succ fuel ih =>
    dsimp only at failed
    cases finished : state.finished.lookup name with
    | some compiled =>
      rw [run_compileNamed_shared finished] at failed
      cases failed
    | none =>
      by_cases open_ : name ∈ state.stack
      · exact ⟨_, _, .refl, .cyclic finished open_⟩
      rcases load : compiler.load name with ⟨error | definition, activities⟩
      · exact ⟨_, _, .refl, .unloadable finished open_ load⟩
      rw [run_compileNamed_fresh finished open_] at failed
      simp only [load, run_build, compileFields_eq] at failed
      cases fields : (definition.fields.mapM (compiler.compileField (compiler.compileNamed fuel)
          definition.name)).run ((state.noteAll activities).enter definition.name) with
      | ok rules after =>
        rw [fields] at failed
        cases failed
      | error cause after =>
        obtain ⟨called, next, fault, last, call, failed⟩ := exists_call_of_error fields
        have nests : compiler.Nests ⟨fuel + 1, name, state⟩ ⟨fuel, called, next⟩ :=
          .intro finished open_ load call
        obtain ⟨inner, fault, leads, raises⟩ :=
          ih called next (fits.nests regular lists nests) failed
        exact ⟨inner, fault, .head nests leads, raises⟩

/-- A call fails with an error, and its definition and those that it opened have failed, last opened
first, for the reason that it fails for. -/
structure Unwinds (compiler : Compiler) (frame : Frame) (opened : List String)
    (error : Failure) (last : CompileState) : Prop where
  run : (compiler.compileNamed frame.fuel frame.name).run frame.state = .error error last
  names : (Mark.failures last.marks).map (·.1) = opened.reverse
  holds : opened ≠ [] → ∃ definition, compiler.source.Holds frame.name definition
  absent : compiler.source.Candid → ∀ missing, error = .schema (.definitionNotFound missing) →
    compiler.source.fetch missing = .ok none
  reasons : compiler.source.Candid → ∀ failure ∈ Mark.failures last.marks,
    failure.2 = error.code.text

theorem Raises.run_eq_error (h : compiler.Raises frame fault) :
    ∃ last, (compiler.compileNamed frame.fuel frame.name).run frame.state = .error fault last ∧
      last.marks = frame.state.marks := by
  cases h with
  | cyclic fresh open_ => exact ⟨_, run_compileNamed_cyclic fresh open_ _, rfl⟩
  | unloadable fresh closed load =>
    exact ⟨_, by rw [run_compileNamed_fresh fresh closed, load], CompileState.marks_noteAll load⟩

theorem Raises.absent {missing : String} (candid : compiler.source.Candid)
    (h : compiler.Raises frame (.schema (.definitionNotFound missing))) :
    compiler.source.fetch missing = .ok none := by
  cases h with
  | unloadable fresh closed load =>
    obtain ⟨same, absent⟩ := Source.load_eq_definitionNotFound candid
      (fst_load_eq_error_iff.1 (congrArg Prod.fst load))
    rwa [same]

theorem Raises.unwinds (h : compiler.Raises frame fault)
    (quiet : Mark.failures frame.state.marks = []) :
    ∃ last, compiler.Unwinds frame [] fault last := by
  obtain ⟨last, run, same⟩ := h.run_eq_error
  have none : Mark.failures last.marks = [] := by rw [same, quiet]
  refine ⟨last, run, ?_, fun filled => absurd rfl filled, ?_, ?_⟩
  · rw [none]
    rfl
  · rintro candid missing rfl
    exact h.absent candid
  · rw [none]
    exact fun _ _ mem => absurd mem List.not_mem_nil

/-- What a call that makes another one has done before. -/
structure Opens (compiler : Compiler) (frame inner : Frame) : Prop where
  holds : ∃ definition, compiler.source.Holds frame.name definition
  fixed : compiler.canonical inner.name = inner.name
  stack : inner.state.stack = frame.state.stack ++ [frame.name]
  quiet : Mark.failures inner.state.marks = Mark.failures frame.state.marks

theorem Nests.opens (regular : compiler.source.Regular)
    (fixed : compiler.canonical frame.name = frame.name) (h : compiler.Nests frame inner) :
    compiler.Opens frame inner := by
  cases h with
  | @intro fuel name called state next definition activities fresh closed load call =>
    have holds := (load_eq_ok_iff_holds fixed).1 (congrArg Prod.fst load)
    refine ⟨⟨definition, holds⟩, call.fixed (settledFields_of_holds regular holds), ?_, ?_⟩
    · rw [← holds.name_eq]
      exact call.pushes
    · rw [call.failures_eq (quiet_compileNamed compiler fuel), CompileState.failures_enter,
        CompileState.marks_noteAll load]

/-- A call fails with what the field that makes the failing call reports, and gives its definition
up. -/
theorem Nests.run_eq_error {last : CompileState}
    (fixed : compiler.canonical frame.name = frame.name) (h : compiler.Nests frame inner)
    (failed : (compiler.compileNamed inner.fuel inner.name).run inner.state = .error error last) :
    ∃ (field : String) (declaration : Field) (embedding : Embedding) (declared : String),
      declaration.embeds? = some (embedding, declared) ∧
      (compiler.compileNamed frame.fuel frame.name).run frame.state =
        .error (declaration.blame frame.name field inner.name error)
          (last.abandon frame.name (declaration.blame frame.name field inner.name error)) := by
  cases h with
  | @intro fuel name called state next definition activities fresh closed load call =>
    have named : definition.name = name :=
      ((load_eq_ok_iff_holds fixed).1 (congrArg Prod.fst load)).name_eq
    obtain ⟨field, declaration, embedding, declared, embeds, rfl, turn⟩ := call.exists_turn
    have own : (compiler.compileField (compiler.compileNamed fuel) definition.name
        (field, declaration)).run next =
          .error (declaration.blame definition.name field (compiler.canonical declared) error)
            last := by
      rw [run_compileField_embedded _ _ embeds]
      simp only [failed]
    have fields := turn.run_eq_error own
    refine ⟨field, declaration, embedding, declared, embeds, ?_⟩
    rw [run_compileNamed_fresh fresh closed]
    simp only [load, run_build, compileFields_eq, fields, conclude]
    rw [named]

theorem Nests.unwinds {opened : List String} {last : CompileState}
    (regular : compiler.source.Regular) (fixed : compiler.canonical frame.name = frame.name)
    (nests : compiler.Nests frame inner) (h : compiler.Unwinds inner opened error last) :
    ∃ error last, compiler.Unwinds frame (frame.name :: opened) error last := by
  obtain ⟨definition, holds⟩ := (nests.opens regular fixed).holds
  obtain ⟨field, declaration, embedding, declared, embeds, run⟩ :=
    nests.run_eq_error fixed h.run
  refine ⟨_, _, run, ?_, fun _ => ⟨definition, holds⟩, ?_, ?_⟩
  · rw [CompileState.failures_abandon, List.map_append, h.names, List.reverse_cons]
    rfl
  · intro candid missing blamed
    exact h.absent candid missing (Field.blame_eq_definitionNotFound embeds blamed).1
  · intro candid
    rw [CompileState.failures_abandon, List.forall_mem_append]
    refine ⟨?_, by simp⟩
    intro failure mem
    have some_opened : opened ≠ [] := by
      rintro rfl
      rw [List.map_eq_nil_iff.1 h.names] at mem
      cases mem
    -- The definition that failed below is there, so the error is not that it is missing.
    obtain ⟨_, document, fetch, -⟩ := h.holds some_opened
    have other : error ≠ .schema (.definitionNotFound inner.name) := by
      intro same
      rw [h.absent candid _ same] at fetch
      cases fetch
    rw [Field.blame_of_ne other]
    exact h.reasons candid failure mem

/-- Whatever call the error arises in, all definitions opened on the way to it fail. -/
theorem exists_unwinds (regular : compiler.source.Regular)
    (leads : ReflTransGen compiler.Nests frame inner)
    (fixed : compiler.canonical frame.name = frame.name)
    (quiet : Mark.failures frame.state.marks = []) (raises : compiler.Raises inner fault) :
    ∃ opened error last, inner.state.stack = frame.state.stack ++ opened ∧
      compiler.Unwinds frame opened error last := by
  induction leads using ReflTransGen.head_induction_on with
  | refl =>
    obtain ⟨last, unwinds⟩ := raises.unwinds quiet
    exact ⟨[], fault, last, (List.append_nil _).symm, unwinds⟩
  | @head frame between nests _ ih =>
    have opens := nests.opens regular fixed
    obtain ⟨opened, error, last, stack, unwinds⟩ := ih opens.fixed (opens.quiet.trans quiet)
    obtain ⟨error, last, unwinds⟩ := nests.unwinds regular fixed unwinds
    exact ⟨frame.name :: opened, error, last, by rw [stack, opens.stack]; simp, unwinds⟩

end

end Compiler

end DocModel
