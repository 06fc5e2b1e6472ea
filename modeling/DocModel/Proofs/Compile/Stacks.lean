import Mathlib.Logic.Relation
import DocModel.Proofs.Compile.Unshared

open Relation (ReflTransGen)

namespace DocModel

/-- Every name that has a document is in the list. -/
def Source.Lists (source : Source) (names : List String) : Prop :=
  ∀ name document, source.fetch name = .ok (some document) → name ∈ names

theorem Source.lists_names (source : Source) : source.Lists source.names :=
  fun _ _ => source.mem_names

theorem Source.Lists.cons {source : Source} {names : List String} (h : source.Lists names)
    (name : String) : source.Lists (name :: names) :=
  fun _ _ fetch => List.mem_cons_of_mem _ (h _ _ fetch)

theorem Source.Lists.mem_of_holds {source : Source} {names : List String} (h : source.Lists names)
    {name : String} {definition : Definition} (holds : source.Holds name definition) :
    name ∈ names := by
  obtain ⟨document, fetch, -⟩ := holds
  exact h name document fetch

/-- A call for a name in the course of a compilation: how many definitions may still be nested, the
name, and the state in which it is made. -/
structure Frame where
  fuel : Nat
  name : String
  state : CompileState

namespace Compiler

/-- While some fields are compiled from a state, a target is called for in a state. -/
inductive FieldsCall (compiler : Compiler) (target : String → Compiling Compiled)
    (owner : String) : List (String × Field) → CompileState → String → CompileState → Prop
  | here {name : String} {field : Field} {fields : List (String × Field)} {state : CompileState}
    {embedding : Embedding} {declared : String}
    (embeds : field.embeds? = some (embedding, declared)) :
    FieldsCall compiler target owner ((name, field) :: fields) state
      (compiler.canonical declared) state
  | later {field : String × Field} {fields : List (String × Field)} {called : String}
    {state next last : CompileState} {rule : FieldRule × List Identity}
    (run : (compiler.compileField target owner field).run state = .ok rule next)
    (call : FieldsCall compiler target owner fields next called last) :
    FieldsCall compiler target owner (field :: fields) state called last

/-- A call loads a definition, and makes a call for one of its fields. -/
inductive Nests (compiler : Compiler) : Frame → Frame → Prop
  | intro {fuel : Nat} {name called : String} {state next : CompileState}
    {definition : Definition} {activities : List Activity}
    (fresh : state.finished.lookup name = none) (closed : name ∉ state.stack)
    (load : compiler.load name = (.ok definition, activities))
    (call : FieldsCall compiler (compiler.compileNamed fuel) definition.name definition.fields
      ((state.noteAll activities).enter definition.name) called next) :
    Nests compiler ⟨fuel + 1, name, state⟩ ⟨fuel, called, next⟩

/-- The stacks of a call, apart from those of the calls that it makes: when it is made, when its
definition has been entered, and when it is over. -/
inductive Stands (compiler : Compiler) (frame : Frame) : List String → Prop
  | called : Stands compiler frame frame.state.stack
  | entered {definition : Definition} {activities : List Activity}
    (fresh : frame.state.finished.lookup frame.name = none)
    (closed : frame.name ∉ frame.state.stack)
    (load : compiler.load frame.name = (.ok definition, activities)) :
    Stands compiler frame ((frame.state.noteAll activities).enter definition.name).stack
  | left : Stands compiler frame
      (Run.state ((compiler.compileNamed frame.fuel frame.name).run frame.state)).stack

/-- None of the calls that a call leads to is out of fuel, and none of their stacks has a name twice
or more names than the limit. -/
structure Safe (compiler : Compiler) (limit : Nat) (frame : Frame) : Prop where
  fuel_pos : ∀ inner, ReflTransGen compiler.Nests frame inner → 0 < inner.fuel
  nodup : ∀ inner stack, ReflTransGen compiler.Nests frame inner → compiler.Stands inner stack →
    stack.Nodup
  length_le : ∀ inner stack, ReflTransGen compiler.Nests frame inner →
    compiler.Stands inner stack → stack.length ≤ limit

/-- The same of a definition that is compiled as such: its own stack, and the calls for its
fields. -/
structure SafeDefinition (compiler : Compiler) (limit fuel : Nat) (definition : Definition)
    (state : CompileState) : Prop where
  nodup : (state.enter definition.name).stack.Nodup
  length_le : (state.enter definition.name).stack.length ≤ limit
  left : (Run.state ((compiler.build (compiler.compileNamed fuel) definition).run state)).stack =
    state.stack
  calls : ∀ called next, FieldsCall compiler (compiler.compileNamed fuel) definition.name
    definition.fields (state.enter definition.name) called next →
      compiler.Safe limit ⟨fuel, called, next⟩

variable {compiler : Compiler} {fuel : Nat} {name owner : String} {state : CompileState}

section

variable {fields : List (String × Field)}

theorem stack_conclude {definition : Definition} {stack : List String}
    {run : Run (List (FieldRule × List Identity))}
    (entered : run.state.stack = stack ++ [definition.name]) :
    (compiler.conclude definition run).state.stack = stack := by
  have left : run.state.stack.dropLast = stack := by rw [entered, List.dropLast_concat]
  cases run with
  | ok rules next => exact left
  | error error next => exact left

theorem FieldsRun.stack_eq
    (targets : ∀ name state run, NamedRun compiler fuel name state run →
      run.state.stack = state.stack)
    {run : Run (List (FieldRule × List Identity))}
    (h : FieldsRun compiler fuel owner fields state run) : run.state.stack = state.stack := by
  induction fields generalizing state run with
  | nil =>
    cases h
    rfl
  | cons first fields ih =>
    cases h with
    | plain plain rest =>
      rw [Run.state_cons]
      exact ih rest
    | embedded embeds target rest =>
      rw [Run.state_cons, ih rest]
      exact targets _ _ _ target
    | failed embeds target => exact targets _ _ _ target

/-- A call leaves the stack as it finds it. -/
theorem NamedRun.stack_eq {run : Run Compiled} (h : NamedRun compiler fuel name state run) :
    run.state.stack = state.stack := by
  induction fuel generalizing name state run with
  | zero =>
    cases h
    rfl
  | succ fuel ih =>
    cases h with
    | shared finished => rfl
    | cyclic fresh open_ => rfl
    | unloadable fresh closed load => rfl
    | loaded fresh closed load fields => exact stack_conclude (fields.stack_eq fun _ _ _ => ih)

theorem stack_compileNamed (fuel : Nat) (name : String) (state : CompileState) :
    (Run.state ((compiler.compileNamed fuel name).run state)).stack = state.stack :=
  (NamedRun.of_compileNamed compiler fuel name state).stack_eq

theorem stack_build (fuel : Nat) (definition : Definition) (state : CompileState) :
    (Run.state ((compiler.build (compiler.compileNamed fuel) definition).run state)).stack =
      state.stack := by
  rw [run_build, compileFields_eq]
  apply stack_conclude
  have fields := FieldsRun.of_target (NamedRun.of_compileNamed compiler fuel) definition.name
    definition.fields (state.enter definition.name)
  exact fields.stack_eq fun _ _ _ => NamedRun.stack_eq

variable {target target' : String → Compiling Compiled} {called : String} {last : CompileState}

theorem stack_of_compileField {field : String × Field} {rule : FieldRule × List Identity}
    {next : CompileState}
    (keeps : ∀ name state, (Run.state ((target name).run state)).stack = state.stack)
    (run : (compiler.compileField target owner field).run state = .ok rule next) :
    next.stack = state.stack :=
  held_of_compileField compiler target (P := fun later => later.stack = state.stack)
    (fun _ declared _ later same => (keeps (compiler.canonical declared) later).trans same) run rfl

theorem FieldsCall.stack_eq
    (keeps : ∀ name state, (Run.state ((target name).run state)).stack = state.stack)
    (h : FieldsCall compiler target owner fields state called last) : last.stack = state.stack := by
  induction h with
  | here embeds => rfl
  | later run call ih => exact ih.trans (stack_of_compileField keeps run)

theorem FieldsCall.exists_embeds (h : FieldsCall compiler target owner fields state called last) :
    ∃ name field embedding declared, (name, field) ∈ fields ∧
      field.embeds? = some (embedding, declared) ∧ called = compiler.canonical declared := by
  induction h with
  | here embeds => exact ⟨_, _, _, _, List.mem_cons_self, embeds, rfl⟩
  | later run call ih =>
    obtain ⟨name, field, embedding, declared, mem, embedded⟩ := ih
    exact ⟨name, field, embedding, declared, List.mem_cons_of_mem _ mem, embedded⟩

theorem FieldsCall.fixed (h : FieldsCall compiler target owner fields state called last)
    (settled : compiler.SettledFields fields) : compiler.canonical called = called := by
  obtain ⟨name, field, embedding, declared, mem, embeds, rfl⟩ := h.exists_embeds
  exact settled _ _ _ _ mem embeds

/-- What some fields compile to depends on the targets only in the calls that are made. -/
theorem run_fields_congr
    (same : ∀ called last, FieldsCall compiler target owner fields state called last →
      (target called).run last = (target' called).run last) :
    (fields.mapM (compiler.compileField target owner)).run state =
      (fields.mapM (compiler.compileField target' owner)).run state := by
  induction fields generalizing state with
  | nil => rfl
  | cons first fields ih =>
    obtain ⟨name, field⟩ := first
    have first : (compiler.compileField target owner (name, field)).run state =
        (compiler.compileField target' owner (name, field)).run state := by
      cases embeds : field.embeds? with
      | none => rw [run_compileField_plain _ _ embeds, run_compileField_plain _ _ embeds]
      | some embedded =>
        rw [run_compileField_embedded _ _ embeds, run_compileField_embedded _ _ embeds,
          same _ _ (.here embeds)]
    rw [run_mapM_cons, run_mapM_cons, ← first]
    cases run : (compiler.compileField target owner (name, field)).run state with
    | error error next => rfl
    | ok rule next =>
      have rest := ih fun called last call => same called last (.later run call)
      simp only [rest]

end

/-- A call for a name, from a stack of known names, that has the fuel to go through all of them. -/
structure Fits (compiler : Compiler) (known : List String) (frame : Frame) : Prop where
  fixed : compiler.canonical frame.name = frame.name
  nodup : frame.state.stack.Nodup
  subset : frame.state.stack ⊆ known
  enough : known.length < frame.fuel + frame.state.stack.length

section

variable {known : List String} {frame inner : Frame} {stack : List String}

theorem Fits.fuel_pos (h : compiler.Fits known frame) : 0 < frame.fuel := by
  have bounded := (List.subperm_of_subset h.nodup h.subset).length_le
  have enough := h.enough
  omega

theorem nodup_push (nodup : stack.Nodup) (closed : name ∉ stack) : (stack ++ [name]).Nodup := by
  have pushed := nodup.concat closed
  rwa [List.concat_eq_append] at pushed

variable (regular : compiler.source.Regular) (lists : compiler.source.Lists known)

theorem FieldsCall.pushes {fields : List (String × Field)} {called : String}
    {next : CompileState}
    (call : FieldsCall compiler (compiler.compileNamed fuel) owner fields (state.enter name) called
      next) :
    next.stack = state.stack ++ [name] := by
  rw [call.stack_eq (stack_compileNamed fuel)]
  rfl

theorem Fits.push {fuel' : Nat} {called : String} {next : CompileState}
    (h : compiler.Fits known ⟨fuel' + 1, name, state⟩) (closed : name ∉ state.stack)
    (mem : name ∈ known) (fixed : compiler.canonical called = called)
    (pushed : next.stack = state.stack ++ [name]) : compiler.Fits known ⟨fuel', called, next⟩ where
  fixed := fixed
  nodup := by
    rw [pushed]
    exact nodup_push h.nodup closed
  subset := by
    rw [pushed]
    exact List.append_subset.2 ⟨h.subset, by simpa using mem⟩
  enough := by
    have enough : known.length < fuel' + 1 + state.stack.length := h.enough
    simp only [pushed, List.length_append, List.length_singleton]
    omega

include lists in
theorem Fits.mem_known (h : compiler.Fits known frame) {definition : Definition}
    (load : (compiler.load frame.name).1 = .ok definition) :
    definition.name = frame.name ∧ frame.name ∈ known := by
  have holds := (load_eq_ok_iff_holds h.fixed).1 load
  exact ⟨holds.name_eq, lists.mem_of_holds holds⟩

include regular lists in
/-- A call that fits makes calls that fit, with any fuel that is enough. -/
theorem Fits.nests {fuel' : Nat} {called : String} {next : CompileState}
    (h : compiler.Fits known ⟨fuel' + 1, name, state⟩)
    (nests : compiler.Nests ⟨fuel + 1, name, state⟩ ⟨fuel, called, next⟩) :
    compiler.Fits known ⟨fuel', called, next⟩ := by
  cases nests with
  | @intro _ _ _ _ _ definition activities fresh closed load call =>
    have loaded := congrArg Prod.fst load
    obtain ⟨named, mem⟩ := h.mem_known lists loaded
    have holds := (load_eq_ok_iff_holds h.fixed).1 loaded
    have pushed : next.stack = state.stack ++ [definition.name] := call.pushes
    rw [named] at pushed
    exact h.push closed mem (call.fixed (settledFields_of_holds regular holds)) pushed

include lists in
theorem Fits.stands (h : compiler.Fits known frame) (stands : compiler.Stands frame stack) :
    stack.Nodup ∧ stack ⊆ known := by
  cases stands with
  | called => exact ⟨h.nodup, h.subset⟩
  | entered fresh closed load =>
    obtain ⟨named, mem⟩ := h.mem_known lists (congrArg Prod.fst load)
    rw [named]
    exact ⟨nodup_push h.nodup closed, List.append_subset.2 ⟨h.subset, by simpa using mem⟩⟩
  | left =>
    rw [stack_compileNamed]
    exact ⟨h.nodup, h.subset⟩

include regular lists in
theorem Fits.leads (h : compiler.Fits known frame)
    (leads : ReflTransGen compiler.Nests frame inner) : compiler.Fits known inner := by
  induction leads with
  | refl => exact h
  | tail before nests ih =>
    cases nests with
    | intro fresh closed load call =>
      exact ih.nests regular lists (.intro fresh closed load call)

include regular lists in
theorem Fits.safe (h : compiler.Fits known frame) : compiler.Safe known.length frame where
  fuel_pos inner leads := (h.leads regular lists leads).fuel_pos
  nodup inner stack leads stands :=
    ((h.leads regular lists leads).stands lists stands).1
  length_le inner stack leads stands := by
    obtain ⟨nodup, subset⟩ := (h.leads regular lists leads).stands lists stands
    exact (List.subperm_of_subset nodup subset).length_le

end

end Compiler

end DocModel
