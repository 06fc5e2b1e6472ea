import DocModel.Proofs.Compile.Blame
import DocModel.Proofs.Compile.Linked

namespace DocModel

namespace CompileState

variable {state next : CompileState} {name : String}

/-- What holds of the stack and of the table all through a compilation. -/
structure Tidy (state : CompileState) : Prop where
  consistent : state.Consistent
  linked : state.Linked

theorem tidy_nil (built : Nat) : ({ built } : CompileState).Tidy where
  consistent := by constructor <;> simp
  linked := nofun

theorem Tidy.congr (h : state.Tidy) (stack : next.stack = state.stack)
    (finished : next.finished = state.finished) : next.Tidy := by
  cases state
  cases next
  cases stack
  cases finished
  obtain ⟨⟨keyed, closed, apart, nodup⟩, linked⟩ := h
  exact ⟨⟨keyed, closed, apart, nodup⟩, linked⟩

theorem Tidy.enter (h : state.Tidy) (fresh : state.finished.lookup name = none)
    (closed : name ∉ state.stack) : (state.enter name).Tidy where
  consistent :=
    have entered := h.consistent.enter fresh closed []
    ⟨entered.keyed, entered.closed, entered.apart, entered.nodup⟩
  linked := h.linked

theorem Tidy.pop (h : state.Tidy) : state.pop.Tidy where
  consistent := h.consistent.pop
  linked := h.linked

theorem stack_pop {base : List String} (stack : state.stack = base ++ [name]) :
    state.pop.stack = base := by
  rw [CompileState.pop, stack, List.dropLast_concat]

end CompileState

namespace Compiler

/-- A call in the course of a compilation, for a name or for a definition that is at hand: how many
definitions may still be nested, and the state in which it is made. -/
inductive Call
  | named (fuel : Nat) (name : String) (state : CompileState)
  | defined (fuel : Nat) (definition : Definition) (state : CompileState)

namespace Call

def state : Call → CompileState
  | named _ _ state | defined _ _ state => state

/-- What the call comes to. -/
def run (compiler : Compiler) : Call → Run Compiled
  | named fuel name state => (compiler.compileNamed fuel name).run state
  | defined fuel definition state =>
    (compiler.build (compiler.compileNamed fuel) definition).run state

end Call

/-- What the fields of a definition come to, with the definition on the stack. -/
def walk (compiler : Compiler) (fuel : Nat) (definition : Definition) (state : CompileState) :
    Run (List (FieldRule × List Identity)) :=
  (compiler.compileFields (compiler.compileNamed fuel) definition).run
    (state.enter definition.name)

/-- When it is the turn of a field in a definition. -/
def Reaches (compiler : Compiler) (fuel : Nat) (definition : Definition) (state : CompileState)
    (field : String × Field) (next : CompileState) : Prop :=
  FieldTurn compiler (compiler.compileNamed fuel) definition.name definition.fields
    (state.enter definition.name) field next

/-- A call makes another one: for the definition that it has loaded, or for the target of a field
whose turn it is. -/
inductive Makes (compiler : Compiler) : Call → Call → Prop
  | load {fuel name state definition activities} (fresh : state.finished.lookup name = none)
    (closed : name ∉ state.stack) (load : compiler.load name = (.ok definition, activities)) :
    Makes compiler (.named (fuel + 1) name state)
      (.defined fuel definition (state.noteAll activities))
  | target {fuel definition state name next} {field : Field} {embedding declared}
    (turn : compiler.Reaches fuel definition state (name, field) next)
    (embeds : field.embeds? = some (embedding, declared)) :
    Makes compiler (.defined fuel definition state)
      (.named fuel (compiler.canonical declared) next)

/-- The states that a call goes through, apart from those of the calls that it makes: each change of
the state gives another one. -/
inductive Passes (compiler : Compiler) : Call → CompileState → Prop
  | made {call : Call} : Passes compiler call call.state
  | loaded {fuel name state} (fresh : state.finished.lookup name = none)
    (closed : name ∉ state.stack) :
    Passes compiler (.named (fuel + 1) name state) (state.noteAll (compiler.load name).2)
  | begun {fuel definition state} :
    Passes compiler (.defined fuel definition state) (state.note (.compiling definition.name))
  | entered {fuel definition state} :
    Passes compiler (.defined fuel definition state) (state.enter definition.name)
  | turn {fuel definition state field next}
    (turn : compiler.Reaches fuel definition state field next) :
    Passes compiler (.defined fuel definition state) next
  | walked {fuel definition state} :
    Passes compiler (.defined fuel definition state) (compiler.walk fuel definition state).state
  | popped {fuel definition state} :
    Passes compiler (.defined fuel definition state)
      (compiler.walk fuel definition state).state.pop
  | finished {fuel definition state rules next}
    (walk : compiler.walk fuel definition state = .ok rules next) :
    Passes compiler (.defined fuel definition state)
      (next.pop.finish definition.name (compiler.assemble definition rules next))
  | left {call : Call} : Passes compiler call (call.run compiler).state

/-- The calls of compilations in which all names are settled, and besides them those that could be
made for any settled name in any state on the way. -/
inductive Arises (compiler : Compiler) : Call → Prop
  | compile {requested} (settled : compiler.source.Settled requested) (built : Nat) :
    Arises compiler (.named compiler.depth (compiler.canonical requested) { built })
  | compileDefinition {definition} (settled : compiler.SettledDefinition definition)
    (built : Nat) : Arises compiler (.defined compiler.depth definition { built })
  | makes {call inner} (outer : Arises compiler call) (makes : compiler.Makes call inner) :
    Arises compiler inner
  | aside {call state requested} (outer : Arises compiler call)
    (passes : compiler.Passes call state) (settled : compiler.source.Settled requested) :
    Arises compiler (.named compiler.depth (compiler.canonical requested) state)

section

variable {compiler : Compiler} {fuel : Nat} {name owner : String} {state next : CompileState}
  {definition : Definition} {field : String × Field} {fields : List (String × Field)}

theorem walk_eq (compiler : Compiler) (fuel : Nat) (definition : Definition)
    (state : CompileState) :
    compiler.walk fuel definition state =
      (definition.fields.mapM (compiler.compileField (compiler.compileNamed fuel)
        definition.name)).run (state.enter definition.name) := by
  rw [walk, compileFields_eq]

theorem run_defined (compiler : Compiler) (fuel : Nat) (definition : Definition)
    (state : CompileState) :
    (Call.defined fuel definition state).run compiler =
      compiler.conclude definition (compiler.walk fuel definition state) :=
  run_build ..

theorem fieldsRun_walk (compiler : Compiler) (fuel : Nat) (definition : Definition)
    (state : CompileState) :
    FieldsRun compiler fuel definition.name definition.fields (state.enter definition.name)
      (compiler.walk fuel definition state) := by
  rw [walk_eq]
  exact .of_target (NamedRun.of_compileNamed compiler fuel) _ _ _

/-- From the turn of a field on, the fields that are left are compiled. -/
theorem FieldTurn.state_eq {target : String → Compiling Compiled}
    (h : FieldTurn compiler target owner fields state field next) :
    ∃ rest, rest <:+ fields ∧
      Run.state ((fields.mapM (compiler.compileField target owner)).run state) =
        Run.state ((rest.mapM (compiler.compileField target owner)).run next) := by
  induction h with
  | here => exact ⟨_, List.suffix_refl _, rfl⟩
  | later run turn ih =>
    obtain ⟨rest, suffix, same⟩ := ih
    refine ⟨rest, suffix.trans (List.suffix_cons _ _), ?_⟩
    rw [run_mapM_cons, run]
    exact (Run.state_cons _ _).trans same

theorem tidy_compileNamed (regular : compiler.source.Regular)
    (fixed : compiler.canonical name = name) (tidy : state.Tidy) (fuel : Nat) :
    (Run.state ((compiler.compileNamed fuel name).run state)).Tidy ∧
      state.Extends (Run.state ((compiler.compileNamed fuel name).run state)) := by
  have run := NamedRun.of_compileNamed compiler fuel name state
  obtain ⟨after, extended, -⟩ := run.consistent regular tidy.consistent fixed
  exact ⟨⟨after, run.linked regular tidy.consistent fixed tidy.linked⟩, extended⟩

end

/-- A definition that embeds settled names is new to the state: neither finished nor begun. -/
structure Admits (compiler : Compiler) (definition : Definition) (state : CompileState) : Prop where
  tidy : state.Tidy
  settled : compiler.SettledDefinition definition
  fresh : state.finished.lookup definition.name = none
  closed : definition.name ∉ state.stack

namespace Admits

variable {compiler : Compiler} {fuel : Nat} {state next : CompileState} {definition : Definition}
  {field : String × Field} {rules : List (FieldRule × List Identity)}
  (regular : compiler.source.Regular) (admits : compiler.Admits definition state)

include admits

theorem entered : (state.enter definition.name).Tidy :=
  admits.tidy.enter admits.fresh admits.closed

include regular

theorem turn (turn : compiler.Reaches fuel definition state field next) :
    next.Tidy ∧ (state.enter definition.name).Extends next := by
  refine FieldTurn.keeps
    (P := fun next => next.Tidy ∧ (state.enter definition.name).Extends next)
    ?_ turn ⟨admits.entered, .refl _⟩
  intro name field embedding declared mem embeds next held
  obtain ⟨tidy, extended⟩ := held
  have fixed := admits.settled.settledFields _ _ _ _ mem embeds
  obtain ⟨after, extended'⟩ := tidy_compileNamed regular fixed tidy fuel
  exact ⟨after, extended.trans extended'⟩

theorem walked (fuel : Nat) : (compiler.walk fuel definition state).state.Tidy ∧
    (state.enter definition.name).Extends (compiler.walk fuel definition state).state ∧
    ∀ rules next, compiler.walk fuel definition state = .ok rules next →
      next.Tabled rules ∧ ∀ field ∈ rules, CompileState.Supplies next.finished field := by
  have run := compiler.fieldsRun_walk fuel definition state
  have settled := admits.settled.settledFields
  obtain ⟨after, extended, tabled⟩ :=
    run.consistent (fun _ _ _ => NamedRun.consistent regular) admits.entered.consistent settled
  obtain ⟨linked, supplied⟩ := run.linked regular (fun _ _ _ => NamedRun.linked regular)
    admits.entered.consistent settled admits.entered.linked
  exact ⟨⟨after, linked⟩, extended,
    fun rules next walk => ⟨tabled rules next walk, supplied rules next walk⟩⟩

theorem within_walked (turn : compiler.Reaches fuel definition state field next) :
    next.Within (compiler.walk fuel definition state).state := by
  obtain ⟨rest, suffix, same⟩ := FieldTurn.state_eq turn
  rw [walk_eq, same]
  have run := FieldsRun.of_target (NamedRun.of_compileNamed compiler fuel) definition.name rest next
  have settled : compiler.SettledFields rest := fun _ _ _ _ mem =>
    admits.settled.settledFields _ _ _ _ (suffix.subset mem)
  have extended := (run.consistent (fun _ _ _ => NamedRun.consistent regular)
    (admits.turn regular turn).1.consistent settled).2.1
  exact extended.keeps

theorem stack_walked (fuel : Nat) :
    (compiler.walk fuel definition state).state.stack = state.stack ++ [definition.name] :=
  (admits.walked regular fuel).2.1.stack

theorem stack_popped (fuel : Nat) :
    (compiler.walk fuel definition state).state.pop.stack = state.stack :=
  CompileState.stack_pop (admits.stack_walked regular fuel)

theorem fresh_walked (fuel : Nat) :
    (compiler.walk fuel definition state).state.finished.lookup definition.name = none := by
  refine (admits.walked regular fuel).1.consistent.apart _ ?_
  rw [admits.stack_walked regular]
  exact List.mem_append_right _ List.mem_cons_self

theorem concluded (fuel : Nat) :
    (compiler.conclude definition (compiler.walk fuel definition state)).state.Tidy ∧
    (compiler.walk fuel definition state).state.Within
      (compiler.conclude definition (compiler.walk fuel definition state)).state := by
  obtain ⟨tidy, extended, embeds⟩ := admits.walked regular fuel
  have fresh := admits.fresh_walked regular fuel
  have linked : (compiler.conclude definition (compiler.walk fuel definition state)).state.Linked :=
    linked_conclude tidy.linked fresh fun rules next walk => (embeds rules next walk).2
  cases walk : compiler.walk fuel definition state with
  | error error next =>
    rw [walk] at tidy
    exact ⟨tidy.pop.congr rfl rfl, fun _ _ found => found⟩
  | ok rules next =>
    rw [walk] at tidy extended fresh linked
    have made : (compiler.assemble definition rules next).validator =
        .mk definition.name compiler.rejectsUnknown (rules.map (·.1)) := rfl
    have tabled : next.Tabled rules := (embeds rules next walk).1
    exact ⟨⟨tidy.consistent.complete extended.stack tabled made rules.length, linked⟩,
      CompileState.within_complete fresh _ _⟩

end Admits

/-- A call finds a state in order, and has the fuel for all definitions with one of the known names
that do not stand on the stack. -/
inductive Ready (compiler : Compiler) (known : List String) : Call → Prop
  | named {fuel name state} (tidy : state.Tidy) (fits : compiler.Fits known ⟨fuel, name, state⟩) :
    Ready compiler known (.named fuel name state)
  | defined {fuel definition state} (admits : compiler.Admits definition state)
    (subset : state.stack ++ [definition.name] ⊆ known)
    (fits : ∀ called next, FieldsCall compiler (compiler.compileNamed fuel) definition.name
      definition.fields (state.enter definition.name) called next →
        compiler.Fits known ⟨fuel, called, next⟩) :
    Ready compiler known (.defined fuel definition state)

/-- A state on the way of a call: what was in the table is in it, and what is in it will be. -/
structure Between (compiler : Compiler) (known : List String) (call : Call) (state : CompileState) :
    Prop where
  tidy : state.Tidy
  since : call.state.Within state
  later : state.Within (call.run compiler).state
  stack : state.stack ⊆ known

section

variable {compiler : Compiler} {call inner : Call} {known : List String} {fuel : Nat}
  {name : String} {definition : Definition} {state : CompileState}
  (regular : compiler.source.Regular)

theorem run_defined_eq_ok {compiled : Compiled} {last : CompileState}
    (run : (Call.defined fuel definition state).run compiler = .ok compiled last) :
    last.finished.lookup compiled.validator.typeName = some compiled := by
  rw [run_defined] at run
  cases walk : compiler.walk fuel definition state with
  | error error next =>
    rw [walk] at run
    cases run
  | ok rules next =>
    rw [walk] at run
    cases run
    rw [CompileState.lookup_complete]
    exact if_pos rfl

theorem stack_run (compiler : Compiler) (call : Call) :
    (call.run compiler).state.stack = call.state.stack := by
  cases call with
  | named fuel name state => exact stack_compileNamed fuel name state
  | defined fuel definition state => exact stack_build fuel definition state

include regular

theorem Ready.run_eq_ok {compiled : Compiled} {last : CompileState}
    (ready : compiler.Ready known call) (run : call.run compiler = .ok compiled last) :
    last.finished.lookup compiled.validator.typeName = some compiled := by
  cases ready with
  | @named fuel name state tidy fits =>
    have named := NamedRun.of_compileNamed compiler fuel name state
    obtain ⟨after, -, entry⟩ := named.consistent regular tidy.consistent fits.fixed
    have run' : (compiler.compileNamed fuel name).run state = .ok compiled last := run
    have found := entry compiled last run'
    rw [run'] at after
    rwa [after.keyed _ _ found]
  | defined admits subset fits => exact run_defined_eq_ok run

theorem Ready.passes (ready : compiler.Ready known call) (passes : compiler.Passes call state) :
    compiler.Between known call state := by
  cases ready with
  | @named fuel name state tidy fits =>
    obtain ⟨after, extended⟩ := tidy_compileNamed regular fits.fixed tidy fuel
    cases passes with
    | made => exact ⟨tidy, fun _ _ found => found, extended.keeps, fits.subset⟩
    | loaded fresh closed =>
      exact ⟨tidy.congr rfl rfl, fun _ _ found => found, extended.keeps, fits.subset⟩
    | left =>
      refine ⟨after, extended.keeps, fun _ _ found => found, ?_⟩
      rw [stack_run]
      exact fits.subset
  | @defined fuel definition state admits subset fits =>
    obtain ⟨walked, extended, embeds⟩ := admits.walked regular fuel
    obtain ⟨after, concluded⟩ := admits.concluded regular fuel
    rw [← run_defined] at after concluded
    have whole : state.Within ((Call.defined fuel definition state).run compiler).state :=
      fun _ _ found => concluded _ _ (extended.keeps _ _ found)
    have below : state.stack ⊆ known := (List.append_subset.1 subset).1
    cases passes with
    | made => exact ⟨admits.tidy, fun _ _ found => found, whole, below⟩
    | begun => exact ⟨admits.tidy.congr rfl rfl, fun _ _ found => found, whole, below⟩
    | entered => exact ⟨admits.entered, fun _ _ found => found, whole, subset⟩
    | turn turn =>
      obtain ⟨tidy, before⟩ := admits.turn regular turn
      refine ⟨tidy, before.keeps, ?_, ?_⟩
      · exact fun _ _ found => concluded _ _ (admits.within_walked regular turn _ _ found)
      · rw [before.stack]
        exact subset
    | walked =>
      refine ⟨walked, extended.keeps, concluded, ?_⟩
      rw [admits.stack_walked regular]
      exact subset
    | popped =>
      refine ⟨walked.pop, extended.keeps, concluded, ?_⟩
      rw [admits.stack_popped regular]
      exact below
    | @finished _ _ _ rules next walk =>
      have last : ((Call.defined fuel definition state).run compiler).state =
          next.complete definition.name (compiler.assemble definition rules next) rules.length := by
        rw [run_defined, walk, state_conclude_ok]
      have stack := admits.stack_popped regular fuel
      rw [last] at after whole
      rw [walk] at stack
      refine ⟨after.congr rfl rfl, whole, ?_, ?_⟩
      · rw [last]
        exact fun _ _ found => found
      · change next.pop.stack ⊆ known
        exact stack ▸ below
    | left =>
      refine ⟨after, whole, fun _ _ found => found, ?_⟩
      rw [stack_run]
      exact below

theorem Ready.makes (lists : compiler.source.Lists known) (ready : compiler.Ready known call)
    (makes : compiler.Makes call inner) : compiler.Ready known inner := by
  cases makes with
  | @load fuel name state definition activities fresh closed load =>
    cases ready with
    | named tidy fits =>
      have loaded := congrArg Prod.fst load
      have holds := (load_eq_ok_iff_holds fits.fixed).1 loaded
      obtain ⟨named, mem⟩ := fits.mem_known lists loaded
      have admits : compiler.Admits definition (state.noteAll activities) := by
        refine ⟨tidy.congr rfl rfl, regular _ _ holds, ?_, ?_⟩
        · rw [named]
          exact fresh
        · rw [named]
          exact closed
      refine .defined admits ?_ ?_
      · rw [named]
        exact List.append_subset.2 ⟨fits.subset, by simpa using mem⟩
      · exact fun called next call => fits.nests regular lists (.intro fresh closed load call)
  | target turn embeds =>
    cases ready with
    | defined admits subset fits =>
      exact .named (admits.turn regular turn).1 (fits _ _ (turn.call embeds))

/-- Every call that arises finds a state in order, with fuel to spare for all names. -/
theorem Arises.ready (arises : compiler.Arises call) :
    ∃ known, compiler.source.Lists known ∧ known.length < compiler.depth ∧
      compiler.Ready known call := by
  have named := compiler.source.lists_names
  induction arises with
  | compile settled built =>
    have fits := fits_of_settled settled compiler.length_lt_depth built
    exact ⟨_, named, compiler.length_lt_depth, .named (CompileState.tidy_nil built) fits⟩
  | @compileDefinition definition settled built =>
    -- The name of a definition that is given need not be one that has a document.
    have enough : (definition.name :: compiler.source.names).length < compiler.depth := by
      rw [depth, List.length_cons]
      exact Nat.lt_of_lt_of_le (Nat.lt_succ_self _) (Nat.le_mul_of_pos_right _ (Nat.succ_pos _))
    refine ⟨_, named.cons definition.name, enough, .defined ?_ ?_ ?_⟩
    · exact ⟨CompileState.tidy_nil built, settled, rfl, List.not_mem_nil⟩
    · exact List.cons_subset_cons definition.name (List.nil_subset _)
    · intro called next call
      exact fits_of_fieldsCall settled List.mem_cons_self (Nat.le_of_lt enough) rfl call
  | makes outer makes ih =>
    obtain ⟨known, lists, enough, ready⟩ := ih
    exact ⟨known, lists, enough, ready.makes regular lists makes⟩
  | aside outer passes settled ih =>
    obtain ⟨known, lists, enough, ready⟩ := ih
    have between := ready.passes regular passes
    refine ⟨known, lists, enough, .named between.tidy ?_⟩
    exact ⟨settled, between.tidy.consistent.nodup, between.stack, Nat.lt_add_right _ enough⟩

/-- What every call keeps that is made while something is compiled, or that could be made then for
a settled name, whether it succeeds or fails. It leaves the stack as it found it. In all states on
its way, from the one in which it is made to the one that it leaves, the table keeps the entries
that it had; each entry stands under its own type name, none under a name that stands on the stack,
and whatever an entry embeds is itself the entry of its name. The call is not out of fuel, and if it
succeeds, its validator is an entry. -/
theorem compilation_kept_in_order (arises : compiler.Arises call) :
    (call.run compiler).state.stack = call.state.stack ∧
    (∀ state, compiler.Passes call state →
      state.Tidy ∧ call.state.Within state ∧ state.Within (call.run compiler).state) ∧
    (∀ name state, call ≠ .named 0 name state) ∧
    ∀ compiled last, call.run compiler = .ok compiled last →
      last.finished.lookup compiled.validator.typeName = some compiled := by
  obtain ⟨known, lists, enough, ready⟩ := arises.ready regular
  refine ⟨stack_run compiler call, ?_, ?_, fun compiled last => ready.run_eq_ok regular⟩
  · intro state passes
    have between := ready.passes regular passes
    exact ⟨between.tidy, between.since, between.later⟩
  · rintro name state rfl
    cases ready with
    | named tidy fits => exact absurd fits.fuel_pos (Nat.lt_irrefl 0)

end

/-- A definition with a branch that compiles and another one that leads back to it. -/
def halfway : Compiler where
  source := Registry.source ⟨[
    ("Top", .obj [("relations", .obj [
      ("left", .obj [("type", .str "embedsOne"), ("model", .str "Left.json")]),
      ("right", .obj [("type", .str "embedsMany"), ("model", .str "Right")])])]),
    ("Left", .obj [("properties", .obj [("leaf", .obj [("type", .str "Leaf")])])]),
    ("Right", .obj [
      ("properties", .obj [("leaf", .obj [("type", .str "Leaf.json")])]),
      ("relations", .obj [("top", .obj [("type", .str "embedsOne"), ("model", .str "Top")])])]),
    ("Leaf", .obj [("properties", .obj [("text", .obj [("type", .str "string")])])])]⟩

theorem compilation_kept_in_order_halfway :
    ∃ error last, (Call.named halfway.depth "Top" {}).run halfway = .error error last ∧
      last.finished.map (·.1) = ["Left", "Leaf"] ∧ last.stack = [] ∧ last.Tidy := by
  have regular : halfway.source.Regular := Registry.regular_of_isRegular (by decide +kernel)
  have canonical : halfway.canonical "Top" = "Top" := by decide +kernel
  have arises : halfway.Arises (.named halfway.depth "Top" {}) := by
    have settled : halfway.source.Settled "Top" := congrArg halfway.canonical canonical
    have called := Arises.compile settled 0
    rwa [canonical] at called
  obtain ⟨stack, kept, -, -⟩ := compilation_kept_in_order regular arises
  obtain ⟨tidy, -, -⟩ := kept _ .left
  have failed : ((Call.named halfway.depth "Top" {}).run halfway).result.isOk = false := by
    decide +kernel
  have names : ((Call.named halfway.depth "Top" {}).run halfway).state.finished.map (·.1) =
      ["Left", "Leaf"] := by
    decide +kernel
  cases run : (Call.named halfway.depth "Top" {}).run halfway with
  | ok compiled last =>
    rw [run] at failed
    cases failed
  | error error last =>
    rw [run] at stack tidy names
    exact ⟨error, last, rfl, names, stack, tidy⟩

end Compiler

end DocModel
