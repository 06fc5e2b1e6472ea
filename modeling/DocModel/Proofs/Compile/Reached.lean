import DocModel.Proofs.Compile.Terminates

open Relation (ReflTransGen)

namespace DocModel

open Classical in
/-- A source without the documents of any other names than these. -/
noncomputable def Source.cut (source : Source) (reached : Set String) : Source where
  extension := source.extension
  fetch name := if name ∈ reached then source.fetch name else .ok none
  names := source.names
  mem_names {name document} fetch := by
    split at fetch
    · exact source.mem_names fetch
    · cases fetch

namespace Source

variable {source : Source} {reached : Set String} {name : String}

theorem fetch_cut (mem : name ∈ reached) : (source.cut reached).fetch name = source.fetch name :=
  if_pos mem

theorem eq_some_of_fetch_cut {document : Json}
    (h : (source.cut reached).fetch name = .ok (some document)) :
    name ∈ reached ∧ source.fetch name = .ok (some document) := by
  by_cases mem : name ∈ reached
  · exact ⟨mem, (fetch_cut mem).symm.trans h⟩
  · have absent : (source.cut reached).fetch name = .ok none := if_neg mem
    rw [absent] at h
    cases h

theorem Regular.cut (regular : source.Regular) (reached : Set String) :
    (source.cut reached).Regular := by
  rintro name definition ⟨document, fetch, read⟩
  exact regular name definition ⟨document, (eq_some_of_fetch_cut fetch).2, read⟩

/-- The names that the definitions of a source lead to from the targets of some declarations. -/
def reachedFrom (source : Source) (declared : List String) : Set String :=
  { name | ∃ target ∈ declared, ReflTransGen source.Embeds (source.canonical target) name }

end Source

namespace Compiler

/-- Two compilers make the same of names and of unknown keys, and load the same for some names,
whose definitions call for no others. -/
structure LoadsAlike (compiler other : Compiler) (reached : Set String) : Prop where
  canonical : other.canonical = compiler.canonical
  strict : other.rejectsUnknown = compiler.rejectsUnknown
  load : ∀ name ∈ reached, other.load name = compiler.load name
  closed : ∀ name ∈ reached, ∀ definition, (compiler.load name).1 = .ok definition →
    ∀ declared ∈ definition.targets, compiler.canonical declared ∈ reached

variable {compiler other : Compiler} {reached : Set String} {name : String}
  {definition : Definition}

namespace LoadsAlike

variable (alike : compiler.LoadsAlike other reached)

include alike

theorem compileField_eq : other.compileField = compiler.compileField := by
  funext target owner field
  obtain ⟨name, property | relation⟩ := field
  · rw [compileField, compileField, compileProperty, compileProperty, alike.canonical]
  · rw [compileField, compileField, compileRelation, compileRelation, alike.canonical]

theorem conclude_eq : other.conclude = compiler.conclude := by
  funext definition run
  cases run with
  | ok fields state => rw [conclude, conclude, assemble, assemble, alike.strict]
  | error failure state => rfl

theorem run_build {target target' : String → Compiling Compiled} {state : CompileState}
    (targets : ∀ declared ∈ definition.targets, compiler.canonical declared ∈ reached)
    (same : ∀ name ∈ reached, ∀ state, (target' name).run state = (target name).run state) :
    (other.build target' definition).run state = (compiler.build target definition).run state := by
  rw [Compiler.run_build, Compiler.run_build, compileFields_eq, compileFields_eq,
    alike.compileField_eq, alike.conclude_eq]
  congr 1
  symm
  apply run_fields_congr
  intro called next call
  obtain ⟨field, declaration, embedding, declared, mem, embeds, rfl⟩ := call.exists_embeds
  have listed : declared ∈ definition.targets :=
    Definition.mem_targets.2 ⟨field, declaration, embedding, mem, embeds⟩
  exact (same _ (targets declared listed) next).symm

theorem run_compileNamed (fuel : Nat) (mem : name ∈ reached) (state : CompileState) :
    (other.compileNamed fuel name).run state = (compiler.compileNamed fuel name).run state := by
  induction fuel generalizing name state with
  | zero => rfl
  | succ fuel ih =>
    cases fresh : state.finished.lookup name with
    | some compiled => rw [run_compileNamed_shared fresh, run_compileNamed_shared fresh]
    | none =>
      by_cases open_ : name ∈ state.stack
      · rw [run_compileNamed_cyclic fresh open_, run_compileNamed_cyclic fresh open_]
      · rw [run_compileNamed_fresh fresh open_, run_compileNamed_fresh fresh open_,
          alike.load name mem]
        cases load : compiler.load name with
        | mk result activities =>
          cases result with
          | error error => rfl
          | ok definition =>
            have targets := alike.closed name mem definition (congrArg Prod.fst load)
            exact alike.run_build targets fun _ => ih

end LoadsAlike

/-- Two compilers make the same of names and of unknown keys, and their sources give the same
documents for all names that are reached from some declarations. -/
structure AgreesFrom (compiler other : Compiler) (declared : List String) : Prop where
  extension : other.source.extension = compiler.source.extension
  strict : other.rejectsUnknown = compiler.rejectsUnknown
  fetch : ∀ name ∈ compiler.source.reachedFrom declared,
    other.source.fetch name = compiler.source.fetch name

/-- A compiler that knows no other definitions than those reached from some declarations. -/
noncomputable def cut (compiler : Compiler) (declared : List String) : Compiler where
  source := compiler.source.cut (compiler.source.reachedFrom declared)
  rejectsUnknown := compiler.rejectsUnknown

variable {declared : List String} {requested : String} (regular : compiler.source.Regular)

theorem agreesFrom_cut (compiler : Compiler) (declared : List String) :
    compiler.AgreesFrom (compiler.cut declared) declared :=
  ⟨rfl, rfl, fun _ => Source.fetch_cut⟩

namespace AgreesFrom

section

variable (agrees : compiler.AgreesFrom other declared)

include agrees

theorem canonical : other.canonical = compiler.canonical := by
  funext name
  rw [Compiler.canonical, Compiler.canonical, Source.canonical, Source.canonical, agrees.extension]

theorem lists_cut : (compiler.cut declared).source.Lists other.source.names := by
  intro name document fetch
  obtain ⟨mem, fetched⟩ := Source.eq_some_of_fetch_cut fetch
  exact other.source.mem_names ((agrees.fetch name mem).trans fetched)

include regular

theorem loadsAlike (settled : ∀ name ∈ declared, compiler.source.Settled name) :
    compiler.LoadsAlike other (compiler.source.reachedFrom declared) := by
  have fixed : ∀ name ∈ compiler.source.reachedFrom declared, compiler.canonical name = name := by
    rintro name ⟨target, mem, reached⟩
    exact Source.canonical_eq_of_reached regular (settled target mem) reached
  refine ⟨agrees.canonical, agrees.strict, ?_, ?_⟩
  · intro name mem
    have own : compiler.source.canonical name = name := fixed name mem
    have same : other.source.canonical name = name :=
      (congrFun agrees.canonical name).trans (fixed name mem)
    simp only [Compiler.load, Compiler.canonical, Source.load, own, same, agrees.fetch name mem]
  · intro name mem definition load inner listed
    have holds := (load_eq_ok_iff_holds (fixed name mem)).1 load
    obtain ⟨target, mem, reached⟩ := mem
    exact ⟨target, mem, reached.tail ⟨definition, holds, inner, listed, rfl⟩⟩

end

end AgreesFrom

include regular

/-- What a name compiles to depends on nothing but the documents of the names that it reaches. -/
theorem compile_eq_of_reached (settled : compiler.source.Settled requested)
    (agrees : compiler.AgreesFrom other [requested]) (built : Nat) :
    other.compile built requested = compiler.compile built requested := by
  have all : ∀ name ∈ [requested], compiler.source.Settled name := by simpa using settled
  have alike := agrees.loadsAlike regular all
  have own := compiler.agreesFrom_cut [requested]
  have pruned := own.loadsAlike regular all
  have mem : compiler.canonical requested ∈ compiler.source.reachedFrom [requested] :=
    ⟨requested, List.mem_cons_self, .refl⟩
  have settled_cut : (compiler.cut [requested]).source.Settled requested := settled
  -- The bounds on the depth differ, but either is enough for the source that is cut to what is
  -- reached.
  have own_fits := fits_of_settled settled_cut compiler.length_lt_depth built
  have fits := fits_of_settled settled_cut other.length_lt_depth built
  have bounds := fits.run_eq (regular.cut _) agrees.lists_cut own.lists_cut own_fits
  rw [compile, compile, agrees.canonical, alike.run_compileNamed _ mem,
    ← pruned.run_compileNamed _ mem, ← pruned.run_compileNamed _ mem]
  exact congrArg Outcome.of bounds

/-- The same of a definition that is given as such, and of the names that it reaches. -/
theorem compileDefinition_eq_of_reached (settled : compiler.SettledDefinition definition)
    (agrees : compiler.AgreesFrom other definition.targets) (built : Nat) :
    other.compileDefinition built definition = compiler.compileDefinition built definition := by
  have alike := agrees.loadsAlike regular settled
  have pruned := (compiler.agreesFrom_cut definition.targets).loadsAlike regular settled
  have targets : ∀ declared ∈ definition.targets,
      compiler.canonical declared ∈ compiler.source.reachedFrom definition.targets :=
    fun declared mem => ⟨declared, mem, .refl⟩
  have settled_cut : (compiler.cut definition.targets).SettledDefinition definition := settled
  have empty : ({ built } : CompileState).stack = [] := rfl
  have bounds := settled_cut.run_eq (regular.cut _) agrees.lists_cut other.length_lt_depth empty
  rw [compileDefinition, compileDefinition,
    alike.run_build targets fun _ => alike.run_compileNamed other.depth,
    ← pruned.run_build targets fun _ => pruned.run_compileNamed other.depth,
    ← pruned.run_build targets fun _ => pruned.run_compileNamed compiler.depth]
  exact congrArg Outcome.of bounds.symm

end Compiler

end DocModel
