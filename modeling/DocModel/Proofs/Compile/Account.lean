import DocModel.Proofs.Compile.Described
import DocModel.Proofs.Compile.Ledger

open Relation (ReflTransGen TransGen)

namespace DocModel

namespace Compiler

variable {compiler : Compiler} {fuel : Nat} {stack : List String} {name owner root : String}
  {state : CompileState} {validator inner : Validator} {activities : List Activity}

/-- By itself the definition compiles, with all it embeds. -/
def Compilable (compiler : Compiler) (name : String) : Prop :=
  ∃ fuel stack validator, compiler.compileUnshared fuel stack name = .ok validator

/-- What a call may lose: nothing if it succeeds, and nothing that compiles if it fails. -/
def leftBy {α : Type} (compiler : Compiler) : Run α → String → Prop
  | .ok _ _, _ => False
  | .error _ _, name => ¬ compiler.Compilable name

theorem leftBy_cons {α : Type} (rule : α) (run : Run (List α)) :
    compiler.leftBy (run.cons rule) = compiler.leftBy run := by
  cases run <;> rfl

theorem ledger_load (fixed : compiler.canonical name = name) :
    ledger (compiler.load name).2 =
      ⟨[name], if (compiler.load name).1.isOk then [name] else [], []⟩ := by
  have fixed' : compiler.source.canonical name = name := fixed
  rw [load, canonical, Source.load, fixed', fixed']
  cases fetch : compiler.source.fetch name with
  | error error => rfl
  | ok found =>
    cases found with
    | none => rfl
    | some document =>
      cases read : Definition.ofJson name document with
      | error error =>
        simp only [read]
        rfl
      | ok definition =>
        simp only [read, Definition.name_of_ofJson read]
        rfl

theorem reached_of_occurs (regular : compiler.source.Regular)
    (fixed : compiler.canonical name = name)
    (h : compiler.compileUnshared fuel stack name = .ok validator)
    (occurs : inner.Occurs validator) :
    ReflTransGen compiler.source.Embeds name inner.typeName := by
  induction occurs generalizing fuel stack name with
  | refl =>
    rw [typeName_of_compileUnshared fixed h]
  | embedded rule occurs ih =>
    cases fuel with
    | zero => cases h
    | succ fuel =>
      obtain ⟨target, step, nested⟩ := compileUnshared_embedded fixed h rule
      exact .head step (ih (step.canonical_eq regular) nested)

/-- A definition that fails below those that lead to it does not compile by itself either. -/
theorem not_compilable_of_error {error : Failure} (regular : compiler.source.Regular)
    (fixed : compiler.canonical name = name) (roomy : compiler.Roomy fuel stack)
    (above : ∀ outer ∈ stack, TransGen compiler.source.Embeds outer name)
    (h : compiler.compileUnshared fuel stack name = .error error) : ¬ compiler.Compilable name := by
  intro compilable
  obtain ⟨fuel', stack', validator, alone⟩ := compilable
  have acyclic := not_reachesCycle_of_compileUnshared regular fixed alone
  have apart : ∀ inner : Validator, inner.Occurs validator → inner.typeName ∉ stack := by
    intro inner occurs mem
    -- The name leads to what occurs in its validator, and that, on the stack, back to the name.
    have reached := reached_of_occurs regular fixed alone occurs
    exact acyclic ⟨name, .refl, .trans_right reached (above _ mem)⟩
  rw [compileUnshared_of_stack regular fixed alone apart roomy] at h
  cases h

/-- A state in which a call with so much fuel gives what compiling without the table gives. -/
structure Sound (compiler : Compiler) (fuel : Nat) (state : CompileState) : Prop where
  consistent : state.Consistent
  reproducible : compiler.Reproducible state
  roomy : compiler.Roomy fuel state.stack

theorem NamedRun.sound (regular : compiler.source.Regular) {run : Run Compiled}
    (h : NamedRun compiler fuel name state run) (sound : compiler.Sound fuel state)
    (fixed : compiler.canonical name = name) : compiler.Sound fuel run.state := by
  obtain ⟨consistent, reproducible, roomy⟩ := sound
  obtain ⟨after, extended, -⟩ := h.consistent regular consistent fixed
  exact ⟨after, (h.unshared regular consistent fixed reproducible roomy).1,
    extended.stack.symm ▸ roomy⟩

theorem Sound.enter {definition : Definition} (h : compiler.Sound (fuel + 1) state)
    (fresh : state.finished.lookup name = none) (closed : name ∉ state.stack)
    (holds : compiler.source.Holds name definition) :
    compiler.Sound fuel ((state.noteAll activities).enter name) where
  consistent := h.consistent.enter fresh closed activities
  reproducible := h.reproducible
  roomy := h.roomy.push closed holds.mem_names

/-- A name that a call for a root comes to, below the definitions on the stack. -/
structure Called (compiler : Compiler) (root name : String) (stack : List String) : Prop where
  reached : ReflTransGen compiler.source.Embeds root name
  above : ∀ outer ∈ stack, TransGen compiler.source.Embeds outer name

theorem called_nil (compiler : Compiler) (root : String) : compiler.Called root root [] where
  reached := .refl
  above := nofun

theorem Called.embedded {target : String} (h : compiler.Called root name stack)
    (step : compiler.source.Embeds name target) :
    compiler.Called root target (stack ++ [name]) where
  reached := h.reached.tail step
  above := List.forall_mem_append.2
    ⟨fun outer mem => (h.above outer mem).tail step, List.forall_mem_singleton.2 (.single step)⟩

/-- The books that balance before a call for a name balance after it. -/
def NamedAccounted (compiler : Compiler) (fuel : Nat) (root name : String) (state : CompileState)
    (run : Run Compiled) : Prop :=
  compiler.Sound fuel state → compiler.Called root name state.stack →
    state.Accounted compiler.source root (fun _ => False) →
      run.state.Accounted compiler.source root (compiler.leftBy run)

section

variable (regular : compiler.source.Regular) (settled : compiler.canonical root = root)

include regular settled

theorem FieldsRun.accounted
    (targets : ∀ name state run, NamedRun compiler fuel name state run →
      compiler.NamedAccounted fuel root name state run)
    {fields : List (String × Field)} {run : Run (List (FieldRule × List Identity))}
    (h : FieldsRun compiler fuel owner fields state run) (sound : compiler.Sound fuel state)
    (called : ∀ name field embedding declared, (name, field) ∈ fields →
      field.embeds? = some (embedding, declared) →
        compiler.Called root (compiler.canonical declared) state.stack)
    (accounted : state.Accounted compiler.source root (fun _ => False)) :
    run.state.Accounted compiler.source root (compiler.leftBy run) := by
  induction fields generalizing state run with
  | nil =>
    cases h
    exact accounted
  | cons first fields ih =>
    have later := fun name field embedding declared mem =>
      called name field embedding declared (List.mem_cons_of_mem _ mem)
    cases h with
    | plain plain rest =>
      rw [Run.state_cons, leftBy_cons]
      exact ih rest sound later accounted
    | @embedded _ _ name field _ _ embedding declared nested middle run embeds target rest =>
      have own := called _ _ _ _ List.mem_cons_self embeds
      have between := targets _ _ _ target sound own accounted
      have fixed := Source.canonical_eq_of_reached regular settled own.reached
      have kept : middle.stack = state.stack := target.stack_eq
      rw [Run.state_cons, leftBy_cons]
      exact ih rest (target.sound regular sound fixed) (kept ▸ later) between
    | failed embeds target =>
      exact targets _ _ _ target sound (called _ _ _ _ List.mem_cons_self embeds) accounted

theorem NamedRun.accounted {run : Run Compiled} (h : NamedRun compiler fuel name state run) :
    compiler.NamedAccounted fuel root name state run := by
  induction fuel generalizing name state run with
  | zero => exact fun sound _ _ => absurd rfl sound.roomy.ne_zero
  | succ fuel ih =>
    intro sound called accounted
    have fixed := Source.canonical_eq_of_reached regular settled called.reached
    have alone := (h.unshared regular sound.consistent fixed sound.reproducible sound.roomy).2 _
      sound.roomy
    have entry := ledger_load fixed
    cases h with
    | shared finished => exact accounted
    | cyclic fresh open_ => exact accounted.mono fun _ => False.elim
    | unloadable fresh closed load =>
      rw [load] at entry
      have gone := not_compilable_of_error regular fixed sound.roomy called.above alone
      exact accounted.refuse fresh closed called.reached entry gone
    | @loaded _ _ _ definition activities run fresh closed load fields =>
      have holds := (load_eq_ok_iff_holds fixed).1 (congrArg Prod.fst load)
      obtain rfl := holds.name_eq
      rw [load] at entry
      have entered : compiler.Sound fuel ((state.noteAll activities).enter definition.name) :=
        sound.enter fresh closed holds
      have inner := fields.accounted regular settled (fun _ _ _ => ih) entered
        (fun _ _ _ _ mem embeds => called.embedded (holds.embeds mem embeds))
        (accounted.enter fresh closed called.reached entry)
      have kept : run.state.stack = state.stack ++ [definition.name] :=
        fields.stack_eq fun _ _ _ => NamedRun.stack_eq
      cases run with
      | ok rules next =>
        have after := (fields.consistent (fun _ _ _ => NamedRun.consistent regular)
          entered.consistent (settledFields_of_holds regular holds)).1
        have open_ : definition.name ∈ next.stack := by
          rw [show next.stack = _ from kept]
          exact List.mem_append_right _ List.mem_cons_self
        exact inner.complete kept (after.apart _ open_) _ _
      | error error next =>
        have gone := not_compilable_of_error regular fixed sound.roomy called.above alone
        exact inner.abandon kept gone error

end

theorem finished_of_embeds {compiled : Compiled} {target : String}
    (regular : compiler.source.Regular) (consistent : state.Consistent)
    (reproducible : compiler.Reproducible state) (fixed : compiler.canonical name = name)
    (finished : state.finished.lookup name = some compiled)
    (step : compiler.source.Embeds name target) :
    ∃ entry, state.finished.lookup target = some entry := by
  obtain ⟨fuel, stack, alone⟩ := reproducible _ _ finished
  obtain ⟨fuel', head, embedding, nested, rule, compiles⟩ :=
    compileUnshared_of_embeds fixed alone step
  obtain ⟨entry, found, -⟩ := consistent.closed _ _ finished nested (.embedded rule .refl)
  rw [typeName_of_compileUnshared (step.canonical_eq regular) compiles] at found
  exact ⟨entry, found⟩

theorem finished_of_reached {target : String} (regular : compiler.source.Regular)
    (consistent : state.Consistent) (reproducible : compiler.Reproducible state)
    (fixed : compiler.canonical name = name)
    (finished : ∃ entry, state.finished.lookup name = some entry)
    (reached : ReflTransGen compiler.source.Embeds name target) :
    ∃ entry, state.finished.lookup target = some entry := by
  induction reached with
  | refl => exact finished
  | tail before step ih =>
    obtain ⟨entry, found⟩ := ih
    have fixed' := Source.canonical_eq_of_reached regular fixed before
    exact finished_of_embeds regular consistent reproducible fixed' found step

theorem compilable_iff (regular : compiler.source.Regular) (fixed : compiler.canonical name = name)
    (built : Nat) :
    compiler.Compilable name ↔
      ∃ compiled, (compiler.compile built name).result = .ok compiled := by
  have settled : compiler.source.Settled name := congrArg compiler.canonical fixed
  have same := result_compile regular settled built compiler.length_lt_depth
  rw [fixed] at same
  constructor
  · intro compilable
    obtain ⟨fuel, stack, validator, alone⟩ := compilable
    have whole := compileUnshared_of_stack regular fixed alone (fun _ _ => List.not_mem_nil)
      (roomy_nil compiler.length_lt_depth)
    obtain ⟨compiled, result, -⟩ := map_eq_ok.1 (same.trans whole)
    exact ⟨compiled, result⟩
  · intro compiles
    obtain ⟨compiled, result⟩ := compiles
    rw [result] at same
    exact ⟨_, _, _, same.symm⟩

theorem sound_nil (compiler : Compiler) (built : Nat) :
    compiler.Sound compiler.depth { built } where
  consistent := by constructor <;> simp
  reproducible := nofun
  roomy := roomy_nil compiler.length_lt_depth

/-- The state that a call for a root leaves with its outcome. -/
structure Leaves (compiler : Compiler) (root : String) (outcome : Outcome Compiled)
    (state : CompileState) : Prop where
  activities : outcome.activities = state.activities
  sound : compiler.Sound compiler.depth state
  stack : state.stack = []
  accounted : state.Accounted compiler.source root fun name =>
    (∀ compiled, outcome.result ≠ .ok compiled) ∧ ¬ compiler.Compilable name
  finished : ∀ compiled, outcome.result = .ok compiled →
    state.finished.lookup root = some compiled

section

variable {outcome : Outcome Compiled}

theorem exists_leaves {requested : String} (regular : compiler.source.Regular)
    (settled : compiler.source.Settled requested) (built : Nat) :
    ∃ state, compiler.Leaves (compiler.canonical requested) (compiler.compile built requested)
      state := by
  have sound := compiler.sound_nil built
  have run := NamedRun.of_compileNamed compiler compiler.depth (compiler.canonical requested)
    { built }
  have after := run.sound regular sound settled
  have books := run.accounted regular settled sound (called_nil _ _)
    (CompileState.accounted_nil _ _ built)
  have kept := run.stack_eq
  have entry := (run.consistent regular sound.consistent settled).2.2
  rw [compile]
  cases result : (compiler.compileNamed compiler.depth (compiler.canonical requested)).run
      { built } with
  | ok compiled next =>
    rw [result] at after books kept entry
    refine ⟨next, rfl, after, kept, books.mono fun _ => False.elim, ?_⟩
    intro compiled same
    cases same
    exact entry _ _ rfl
  | error error next =>
    rw [result] at after books kept
    refine ⟨next, rfl, after, kept, books.mono fun _ lost => ⟨?_, lost⟩, ?_⟩
    · intro compiled same
      cases same
    · intro compiled same
      cases same

/-- What was compiled is what was fetched and compiles by itself. -/
theorem Leaves.mem_compiled_iff (h : compiler.Leaves root outcome state) :
    name ∈ (ledger outcome.activities).compiled ↔
      name ∈ (ledger outcome.activities).fetched ∧ compiler.Compilable name := by
  rw [h.activities]
  constructor
  · intro mem
    refine ⟨h.accounted.balanced.loaded.subset (h.accounted.balanced.compiled mem), ?_⟩
    obtain ⟨compiled, found⟩ := (h.accounted.finished name).1 mem
    obtain ⟨fuel, stack, alone⟩ := h.sound.reproducible _ _ found
    exact ⟨fuel, stack, _, alone⟩
  · intro good
    obtain ⟨mem, compilable⟩ := good
    obtain done | standing | lost := h.accounted.balanced.fate name mem
    · exact done
    · rw [h.stack] at standing
      cases standing
    · exact absurd compilable lost.2

theorem Leaves.mem_compiled_iff_closure (regular : compiler.source.Regular)
    (settled : compiler.canonical root = root) (h : compiler.Leaves root outcome state) :
    name ∈ (ledger outcome.activities).compiled ↔
      ∀ reached, ReflTransGen compiler.source.Embeds name reached →
        reached ∈ (ledger outcome.activities).compiled := by
  rw [h.activities]
  refine ⟨?_, fun closure => closure name .refl⟩
  intro mem reached path
  have led := h.accounted.balanced.reached name
    (h.accounted.balanced.loaded.subset (h.accounted.balanced.compiled mem))
  have fixed := Source.canonical_eq_of_reached regular settled led
  rw [h.accounted.finished] at mem ⊢
  exact finished_of_reached regular h.sound.consistent h.sound.reproducible fixed mem path

section

variable {compiled : Compiled} (h : compiler.Leaves root outcome state)
  (succeeds : outcome.result = .ok compiled)

include h succeeds

theorem Leaves.fetched_subset :
    (ledger outcome.activities).fetched ⊆ (ledger outcome.activities).compiled := by
  rw [h.activities]
  intro name mem
  obtain done | standing | lost := h.accounted.balanced.fate name mem
  · exact done
  · rw [h.stack] at standing
    cases standing
  · exact absurd succeeds (lost.1 compiled)

theorem Leaves.mem_fetched_iff (regular : compiler.source.Regular)
    (settled : compiler.canonical root = root) :
    name ∈ (ledger outcome.activities).fetched ↔
      ReflTransGen compiler.source.Embeds root name := by
  constructor
  · rw [h.activities]
    exact h.accounted.balanced.reached name
  · intro path
    have own : root ∈ (ledger outcome.activities).compiled := by
      rw [h.activities, h.accounted.finished]
      exact ⟨compiled, h.finished compiled succeeds⟩
    have mem := (h.mem_compiled_iff_closure regular settled).1 own name path
    exact (h.mem_compiled_iff.1 mem).1

theorem Leaves.length_eq :
    (ledger outcome.activities).loaded.length = (ledger outcome.activities).fetched.length ∧
      (ledger outcome.activities).compiled.length =
        (ledger outcome.activities).fetched.length := by
  have all := h.fetched_subset succeeds
  rw [h.activities] at all ⊢
  have books := h.accounted.balanced
  have first := books.loaded.length_le
  have second := (List.subperm_of_subset books.once books.compiled).length_le
  have third := (List.subperm_of_subset books.nodup all).length_le
  omega

end

end

/-- The account of a call. No document is fetched twice. A call that succeeds fetches the
definitions that are reached, and both counters grow by their number; describing a definition counts
what compiling its name counts. Whatever comes of the call, the validators that are counted are those
of the definitions that were compiled with all that is reached from them, and these are the fetched
ones that compile; so at least as many definitions are counted as loaded. -/
theorem compile_accounts {requested : String} (regular : compiler.source.Regular)
    (settled : compiler.source.Settled requested) (built : Nat) (metrics : Metrics) :
    (ledger (compiler.compile built requested).activities).fetched.Nodup ∧
    (∀ compiled, (compiler.compile built requested).result = .ok compiled →
      (∀ name, name ∈ (ledger (compiler.compile built requested).activities).fetched ↔
        ReflTransGen compiler.source.Embeds (compiler.canonical requested) name) ∧
      ∀ counter ∈ [Counter.definitionsLoaded, .validatorsCompiled],
        (metrics.addAll (compiler.compile built requested).activities).count counter =
          metrics.count counter +
            .ofNat (ledger (compiler.compile built requested).activities).fetched.length) ∧
    metrics.addAll (compiler.describe built requested).activities =
      metrics.addAll (compiler.compile built requested).activities ∧
    ∃ whole : List String, whole.Nodup ∧
      (∀ name, name ∈ whole ↔ ∀ reached, ReflTransGen compiler.source.Embeds name reached →
        reached ∈ (ledger (compiler.compile built requested).activities).compiled) ∧
      (∀ name, name ∈ whole ↔
        name ∈ (ledger (compiler.compile built requested).activities).fetched ∧
          ∃ compiled, (compiler.compile built name).result = .ok compiled) ∧
      (metrics.addAll (compiler.compile built requested).activities).count .validatorsCompiled =
        metrics.count .validatorsCompiled + .ofNat whole.length ∧
      amount .validatorsCompiled (compiler.compile built requested).activities = whole.length ∧
      whole.length ≤ amount .definitionsLoaded (compiler.compile built requested).activities := by
  obtain ⟨state, leaves⟩ := exists_leaves regular settled built
  have books := leaves.accounted.balanced
  rw [← leaves.activities] at books
  have described : (compiler.describe built requested).activities =
      (compiler.compile built requested).activities := by
    rw [describe_eq_compile regular settled]
  have counted := amount_validatorsCompiled (compiler.compile built requested).activities
  refine ⟨books.nodup, ?_, congrArg metrics.addAll described,
    (ledger (compiler.compile built requested).activities).compiled, books.once, ?_, ?_, ?_,
    counted, ?_⟩
  · intro compiled succeeds
    obtain ⟨loaded, compiled⟩ := leaves.length_eq succeeds
    refine ⟨fun name => leaves.mem_fetched_iff succeeds regular settled, ?_⟩
    simp only [List.forall_mem_cons, metrics.count_addAll, amount_definitionsLoaded, counted,
      loaded, compiled, List.not_mem_nil, false_implies, implies_true, and_self]
  · exact fun name => leaves.mem_compiled_iff_closure regular settled
  · intro name
    rw [leaves.mem_compiled_iff]
    refine and_congr_right fun mem => ?_
    have fixed := Source.canonical_eq_of_reached regular settled (books.reached name mem)
    exact compilable_iff regular fixed built
  · rw [metrics.count_addAll, counted]
  · rw [amount_definitionsLoaded]
    exact (List.subperm_of_subset books.once books.compiled).length_le

/-- A definition that embeds one that compiles, and then one that is not there. -/
def interrupted : Compiler where
  source := Registry.source ⟨[
    ("Top", .obj [("relations", .obj [
      ("leaf", .obj [("type", .str "embedsOne"), ("model", .str "Leaf")]),
      ("gone", .obj [("type", .str "embedsOne"), ("model", .str "Gone")])])]),
    ("Leaf", .obj [])]⟩

theorem compile_accounts_interrupted :
    (∀ name, name ∈ ["Top", "Left", "Leaf", "Right"] ↔
      ReflTransGen diamond.source.Embeds "Top" name) ∧
    (Metrics.zero.addAll (diamond.describe 0 "Top").activities).count .definitionsLoaded = 4 ∧
    (ledger (interrupted.compile 0 "Top").activities).fetched = ["Top", "Leaf", "Gone"] ∧
    (Metrics.zero.addAll (interrupted.compile 0 "Top").activities).count .validatorsCompiled = 1 ∧
    ∃ whole : List String, whole.length = 1 ∧
      ∀ name, name ∈ whole ↔ ∀ reached, ReflTransGen interrupted.source.Embeds name reached →
        reached ∈ (ledger (interrupted.compile 0 "Top").activities).compiled := by
  have regular : diamond.source.Regular := Registry.regular_of_isRegular (by decide +kernel)
  have regular' : interrupted.source.Regular := Registry.regular_of_isRegular (by decide +kernel)
  have canonical : diamond.canonical "Top" = "Top" := by decide +kernel
  have canonical' : interrupted.canonical "Top" = "Top" := by decide +kernel
  have fetched : (ledger (diamond.compile 0 "Top").activities).fetched =
      ["Top", "Left", "Leaf", "Right"] := by decide +kernel
  have fetched' : (ledger (interrupted.compile 0 "Top").activities).fetched =
      ["Top", "Leaf", "Gone"] := by decide +kernel
  have one : amount .validatorsCompiled (interrupted.compile 0 "Top").activities = 1 := by
    decide +kernel
  obtain ⟨compiled, result⟩ : ∃ compiled, (diamond.compile 0 "Top").result = .ok compiled :=
    isOk_iff.1 (by decide +kernel)
  obtain ⟨-, succeeds, described, -⟩ :=
    compile_accounts regular (congrArg diamond.canonical canonical) 0 Metrics.zero
  obtain ⟨-, -, -, whole, -, closure, -, counted, length, -⟩ :=
    compile_accounts regular' (congrArg interrupted.canonical canonical') 0 Metrics.zero
  obtain ⟨reached, grows⟩ := succeeds compiled result
  rw [fetched] at reached grows
  rw [canonical] at reached
  rw [one] at length
  rw [← length] at counted
  refine ⟨reached, ?_, fetched', counted, whole, length.symm, closure⟩
  rw [described]
  exact grows _ List.mem_cons_self

end Compiler

end DocModel
