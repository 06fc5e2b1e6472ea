import DocModel.Proofs.Compile.Cycle
import DocModel.Proofs.Compile.History
import DocModel.Proofs.Compile.Resolved
import DocModel.Proofs.Compile.Terminates
import DocModel.Proofs.Source.Faults

open Relation (ReflTransGen)

namespace DocModel

namespace Source

/-- Some definition that is reached from the name has an embedded relation to the model. -/
def RelatesTo (source : Source) (name model : String) : Prop :=
  ∃ owner definition, ReflTransGen source.Embeds name owner ∧ source.Holds owner definition ∧
    ∃ field relation, (field, relation) ∈ definition.embeddedRelations ∧
      model = source.canonical relation.model

theorem RelatesTo.step {source : Source} {name target model : String}
    (embeds : source.Embeds name target) (h : source.RelatesTo target model) :
    source.RelatesTo name model := by
  obtain ⟨owner, definition, reached, holds, related⟩ := h
  exact ⟨owner, definition, .head embeds reached, holds, related⟩

end Source

theorem Definition.mem_embeddedRelations {definition : Definition} {name : String}
    {relation : Relation} {shape : Shape} (mem : (name, .relation relation) ∈ definition.fields)
    (kind : relation.kind = .embeds shape) : (name, relation) ∈ definition.embeddedRelations := by
  simp only [fields, List.mem_append, List.mem_map, Prod.mk.injEq, reduceCtorEq, and_false,
    exists_false, false_or] at mem
  obtain ⟨⟨other, relation'⟩, mem, rfl, same⟩ := mem
  cases same
  exact List.mem_filter.2 ⟨mem, by rw [kind]; rfl⟩

namespace Compiler

variable {compiler : Compiler} {fuel : Nat} {stack : List String}
  {name owner called missing declared requested : String} {definition : Definition}
  {state next last : CompileState} {error : Failure}

theorem fst_load_eq_error_iff {error : SchemaError} :
    (compiler.load name).1 = .error error ↔
      (compiler.source.load (compiler.canonical name)).1 = .error error := by
  unfold load
  rcases compiler.source.load (compiler.canonical name) with ⟨_ | _, _⟩ <;> simp

/-- A definition that is reported missing is that of the name itself or of an embedded relation. -/
theorem absent_of_compileUnshared (regular : compiler.source.Regular)
    (candid : compiler.source.Candid) (fixed : compiler.canonical name = name)
    (h : compiler.compileUnshared fuel stack name =
      .error (.schema (.definitionNotFound missing))) :
    compiler.source.fetch missing = .ok none ∧
      (missing = name ∨ compiler.source.RelatesTo name missing) := by
  induction fuel generalizing stack name with
  | zero => cases h
  | succ fuel ih =>
    by_cases closed : name ∈ stack
    · simp [compileUnshared, closed] at h
    cases load : (compiler.load name).1 with
    | error error =>
      simp only [compileUnshared, closed, if_false, load, Except.mapError, bind, Except.bind,
        Except.error.injEq] at h
      obtain rfl := Failure.schema.inj h
      obtain ⟨same, absent⟩ := Source.load_eq_definitionNotFound candid
        (fst_load_eq_error_iff.1 load)
      have settled : compiler.source.canonical (compiler.canonical name) = name :=
        (congrArg compiler.canonical fixed).trans fixed
      rw [settled] at same absent
      exact ⟨same ▸ absent, .inl same⟩
    | ok definition =>
      have holds := (load_eq_ok_iff_holds fixed).1 load
      rw [compileUnshared_of_load closed load, map_eq_error] at h
      obtain ⟨⟨field, declaration⟩, mem, failed⟩ :
          ∃ field ∈ definition.fields, compiler.unsharedRule
            (compiler.compileUnshared fuel (stack ++ [definition.name])) definition.name field =
              .error (.schema (.definitionNotFound missing)) := exists_of_mapM_eq_error h
      obtain ⟨embedding, declared, fault, embeds, nested, blamed⟩ := unsharedRule_eq_error failed
      obtain ⟨rfl, own⟩ := Field.blame_eq_definitionNotFound embeds blamed.symm
      have step : compiler.source.Embeds name (compiler.canonical declared) :=
        holds.embeds mem embeds
      obtain ⟨absent, same | related⟩ := ih (step.canonical_eq regular) nested
      · obtain ⟨r, shape, rfl, kind, rfl⟩ := own same
        exact ⟨absent, .inr ⟨name, definition, .refl, holds, field, r,
          Definition.mem_embeddedRelations mem kind, same⟩⟩
      · exact ⟨absent, .inr (related.step step)⟩

/-- While some fields are compiled from a state, it is the turn of a field in a state: all fields
before it are compiled. -/
inductive FieldTurn (compiler : Compiler) (target : String → Compiling Compiled) (owner : String) :
    List (String × Field) → CompileState → String × Field → CompileState → Prop
  | here {field : String × Field} {fields : List (String × Field)} {state : CompileState} :
    FieldTurn compiler target owner (field :: fields) state field state
  | later {first field : String × Field} {fields : List (String × Field)}
    {state next last : CompileState} {rule : FieldRule × List Identity}
    (run : (compiler.compileField target owner first).run state = .ok rule next)
    (turn : FieldTurn compiler target owner fields next field last) :
    FieldTurn compiler target owner (first :: fields) state field last

/-- In a call, a definition has been loaded, and it is the turn of one of its fields. -/
inductive Turn (compiler : Compiler) :
    Frame → Definition → String × Field → CompileState → Prop
  | intro {fuel : Nat} {name : String} {state next : CompileState} {definition : Definition}
    {activities : List Activity} {field : String × Field}
    (fresh : state.finished.lookup name = none) (closed : name ∉ state.stack)
    (load : compiler.load name = (.ok definition, activities))
    (turn : FieldTurn compiler (compiler.compileNamed fuel) definition.name definition.fields
      ((state.noteAll activities).enter definition.name) field next) :
    Turn compiler ⟨fuel + 1, name, state⟩ definition field next

/-- What a call comes to. -/
def outcome (compiler : Compiler) (frame : Frame) : Except Failure Compiled :=
  Run.result ((compiler.compileNamed frame.fuel frame.name).run frame.state)

section

variable {target : String → Compiling Compiled} {fields : List (String × Field)}
  {field : String × Field}

theorem FieldTurn.call {declaration : Field} {embedding : Embedding}
    (h : FieldTurn compiler target owner fields state (name, declaration) last)
    (embeds : declaration.embeds? = some (embedding, declared)) :
    FieldsCall compiler target owner fields state (compiler.canonical declared) last := by
  generalize same : (name, declaration) = field at h
  induction h with
  | here =>
    subst same
    exact .here embeds
  | later run turn ih => exact .later run (ih same)

theorem FieldsCall.exists_turn (h : FieldsCall compiler target owner fields state called last) :
    ∃ name declaration embedding declared, declaration.embeds? = some (embedding, declared) ∧
      called = compiler.canonical declared ∧
      FieldTurn compiler target owner fields state (name, declaration) last := by
  induction h with
  | here embeds => exact ⟨_, _, _, _, embeds, rfl, .here⟩
  | later run call ih =>
    obtain ⟨name, declaration, embedding, declared, embeds, same, turn⟩ := ih
    exact ⟨name, declaration, embedding, declared, embeds, same, .later run turn⟩

theorem FieldTurn.mem (h : FieldTurn compiler target owner fields state field last) :
    field ∈ fields := by
  induction h with
  | here => exact List.mem_cons_self
  | later run turn ih => exact List.mem_cons_of_mem _ ih

theorem FieldTurn.run_eq_error (h : FieldTurn compiler target owner fields state field last)
    (failed : (compiler.compileField target owner field).run last = .error error next) :
    (fields.mapM (compiler.compileField target owner)).run state = .error error next := by
  induction h with
  | here => rw [run_mapM_cons, failed]
  | later run turn ih =>
    rw [run_mapM_cons, run]
    simp only [ih failed, Run.cons]

theorem FieldTurn.keeps {P : CompileState → Prop}
    (keeps : ∀ name field embedding declared, (name, field) ∈ fields →
      field.embeds? = some (embedding, declared) →
        ∀ state, P state → P (Run.state ((target (compiler.canonical declared)).run state)))
    (h : FieldTurn compiler target owner fields state field last) (held : P state) : P last := by
  induction h with
  | here => exact held
  | later run turn ih =>
    have others := fun name field embedding declared mem =>
      keeps name field embedding declared (List.mem_cons_of_mem _ mem)
    refine ih others (held_of_compileField compiler target ?_ run held)
    exact fun _ _ embeds => keeps _ _ _ _ List.mem_cons_self embeds

end

section

variable {frame inner : Frame} {field : String × Field}

theorem Turn.holds (h : compiler.Turn frame definition field next) :
    compiler.source.Holds definition.name definition := by
  cases h with
  | intro fresh closed load turn =>
    have holds := load_eq_ok_iff.1 (congrArg Prod.fst load)
    rwa [← holds.name_eq] at holds

theorem Turn.mem_properties {name : String} {property : Property}
    (h : compiler.Turn frame definition (name, .property property) next) :
    (name, property) ∈ definition.properties := by
  cases h with
  | intro fresh closed load turn => simpa [Definition.fields] using turn.mem

/-- A call ends with the error of the field whose turn it is. -/
theorem Turn.outcome_eq (h : compiler.Turn frame definition field next)
    (failed : (compiler.compileField (compiler.compileNamed (frame.fuel - 1)) definition.name
      field).run next = .error error last) :
    compiler.outcome frame = .error error := by
  cases h with
  | intro fresh closed load turn =>
    have fields := turn.run_eq_error failed
    simp only [outcome, run_compileNamed_fresh fresh closed, load, run_build, compileFields_eq,
      fields]
    rfl

/-- An error that is not about a missing definition passes through all calls around. -/
theorem Nests.outcome_eq (h : compiler.Nests frame inner)
    (other : error.code ≠ .definitionNotFound) (failed : compiler.outcome inner = .error error) :
    compiler.outcome frame = .error error := by
  cases h with
  | @intro fuel name called state next definition activities fresh closed load call =>
    obtain ⟨field, declaration, embedding, declared, embeds, rfl, turn⟩ := call.exists_turn
    have run := run_compileField_embedded compiler (compiler.compileNamed fuel) embeds
      definition.name field next
    rw [outcome] at failed
    cases nested : (compiler.compileNamed fuel (compiler.canonical declared)).run next with
    | ok compiled last =>
      rw [nested] at failed
      cases failed
    | error fault last =>
      rw [nested] at failed run
      cases failed
      simp only [Field.blame_of_code_ne other] at run
      exact Turn.outcome_eq (.intro fresh closed load turn) run

theorem outcome_eq_of_leads (leads : ReflTransGen compiler.Nests frame inner)
    (other : error.code ≠ .definitionNotFound) (failed : compiler.outcome inner = .error error) :
    compiler.outcome frame = .error error := by
  induction leads using ReflTransGen.head_induction_on with
  | refl => exact failed
  | head nests _ ih => exact nests.outcome_eq other ih

end

/-- Whatever is finished or stands on the stack is a definition of the source. -/
structure Grounded (compiler : Compiler) (state : CompileState) : Prop where
  resolved : compiler.Resolved state
  stack : ∀ name ∈ state.stack, ∃ definition, compiler.source.Holds name definition

namespace Grounded

theorem compileNamed (fuel : Nat) (name : String) (h : compiler.Grounded state) :
    compiler.Grounded (Run.state ((compiler.compileNamed fuel name).run state)) where
  resolved := ((NamedRun.of_compileNamed compiler fuel name state).resolved h.resolved).1
  stack := by
    rw [stack_compileNamed]
    exact h.stack

theorem enter {activities : List Activity} (h : compiler.Grounded state)
    (load : compiler.load name = (.ok definition, activities)) :
    compiler.Grounded ((state.noteAll activities).enter definition.name) where
  resolved := h.resolved
  stack := by
    have holds := load_eq_ok_iff.1 (congrArg Prod.fst load)
    intro other mem
    obtain mem | mem := List.mem_append.1 mem
    · exact h.stack other mem
    · rw [List.mem_singleton.1 mem, holds.name_eq]
      exact ⟨definition, holds⟩

theorem turn {frame : Frame} {field : String × Field}
    (turn : compiler.Turn frame definition field next) (h : compiler.Grounded frame.state) :
    compiler.Grounded next := by
  cases turn with
  | intro fresh closed load turn =>
    exact turn.keeps (fun _ _ _ _ _ _ _ held => held.compileNamed _ _) (h.enter load)

theorem leads {frame inner : Frame} (leads : ReflTransGen compiler.Nests frame inner)
    (h : compiler.Grounded frame.state) : compiler.Grounded inner.state := by
  induction leads with
  | refl => exact h
  | tail before nests ih =>
    cases nests with
    | intro fresh closed load call =>
      obtain ⟨field, declaration, embedding, declared, -, -, turn⟩ := call.exists_turn
      exact Grounded.turn (.intro fresh closed load turn) ih

theorem run_eq_error (h : compiler.Grounded state) (fixed : compiler.canonical name = name)
    (absent : compiler.source.fetch name = .ok none) (fuel : Nat) :
    ∃ last, (compiler.compileNamed (fuel + 1) name).run state =
      .error (.schema (.definitionNotFound name)) last := by
  have no_document : ∀ definition, ¬ compiler.source.Holds name definition := by
    intro definition holds
    obtain ⟨document, fetch, -⟩ := holds
    rw [absent] at fetch
    cases fetch
  have fresh : state.finished.lookup name = none := by
    cases found : state.finished.lookup name with
    | none => rfl
    | some compiled =>
      obtain ⟨schema, holds, -⟩ := h.resolved _ _ found
      exact absurd holds (no_document _)
  have closed : name ∉ state.stack := by
    intro mem
    obtain ⟨definition, holds⟩ := h.stack _ mem
    exact no_document _ holds
  have gone : compiler.source.fetch (compiler.canonical (compiler.canonical name)) = .ok none := by
    rwa [fixed, fixed]
  have load := load_of_absent gone
  rw [fixed, fixed] at load
  exact ⟨_, by rw [run_compileNamed_fresh fresh closed, load]⟩

end Grounded

theorem result_compile_eq_outcome (compiler : Compiler) (built : Nat) (requested : String) :
    (compiler.compile built requested).result =
      compiler.outcome ⟨compiler.depth, compiler.canonical requested, { built }⟩ := by
  rw [compile, outcome, Outcome.result_of]

theorem Turn.outcome_eq_unknownFieldType {frame : Frame} {field : String} {property : Property}
    (regular : compiler.source.Regular) (fits : compiler.Fits compiler.source.names frame)
    (grounded : compiler.Grounded frame.state)
    (turn : compiler.Turn frame definition (field, .property property) next)
    (type : property.type = .reference declared)
    (absent : compiler.source.fetch (compiler.canonical declared) = .ok none) :
    compiler.outcome frame =
      .error (.schema (.unknownFieldType definition.name field declared)) := by
  have held := Grounded.turn turn grounded
  have embeds : (Field.property property).embeds? = some (.one, declared) :=
    Field.embeds?_property.2 ⟨rfl, type⟩
  have whole := turn
  cases turn with
  | @intro fuel _ _ _ _ _ _ fresh closed load turn =>
    have nests : compiler.Nests _ ⟨fuel, compiler.canonical declared, next⟩ :=
      .intro fresh closed load (turn.call embeds)
    have below := fits.nests regular compiler.source.lists_names nests
    obtain ⟨fuel, rfl⟩ := Nat.exists_eq_succ_of_ne_zero (Nat.ne_of_gt below.fuel_pos)
    obtain ⟨last, missing⟩ := held.run_eq_error below.fixed absent fuel
    have failed : (compiler.compileField (compiler.compileNamed (fuel + 1)) definition.name
        (field, .property property)).run next =
          .error (.schema (.unknownFieldType definition.name field declared)) last := by
      rw [run_compileField_embedded _ _ embeds]
      simp only [missing, Field.blame, type, Failure.ofReference, SchemaError.ofReference, if_true]
    exact whole.outcome_eq failed

/-- A definition is reported missing only where the name itself or an embedded relation asks for it.
Where the type of a property asks for it, the property is reported with the definition that declares
it, from whatever depth. -/
theorem missing_blamed_where_declared (regular : compiler.source.Regular)
    (settled : compiler.source.Settled requested) (built : Nat) :
    (compiler.source.Candid → ∀ missing,
      (compiler.compile built requested).result = .error (.schema (.definitionNotFound missing)) →
        compiler.source.fetch missing = .ok none ∧
          (missing = compiler.canonical requested ∨
            compiler.source.RelatesTo (compiler.canonical requested) missing)) ∧
    ∀ inner definition field property declared next,
      ReflTransGen compiler.Nests ⟨compiler.depth, compiler.canonical requested, { built }⟩ inner →
      compiler.Turn inner definition (field, .property property) next →
      property.type = .reference declared →
      compiler.source.fetch (compiler.canonical declared) = .ok none →
        compiler.source.Holds definition.name definition ∧
          (field, property) ∈ definition.properties ∧
          (compiler.compile built requested).result =
            .error (.schema (.unknownFieldType definition.name field declared)) := by
  constructor
  · intro candid missing result
    have unshared := result_compile regular settled built (Nat.lt_succ_self _)
    rw [result] at unshared
    exact absent_of_compileUnshared regular candid settled unshared.symm
  · intro inner definition field property declared next leads turn type absent
    have outer := fits_of_settled settled compiler.length_lt_depth built
    have fits := outer.leads regular compiler.source.lists_names leads
    have grounded : compiler.Grounded inner.state :=
      Grounded.leads leads ⟨compiler.resolved_nil built, by simp⟩
    refine ⟨turn.holds, turn.mem_properties, ?_⟩
    rw [result_compile_eq_outcome]
    have other : (Failure.schema (.unknownFieldType definition.name field declared)).code ≠
        .definitionNotFound := (SchemaError.FaultOf.unknownFieldType _ _ _).code_ne
    exact outcome_eq_of_leads leads other
      (turn.outcome_eq_unknownFieldType regular fits grounded type absent)

/-- A definition that embeds, through a relation, one that embeds, through a property, one with a
property of a missing type; and a definition with a relation to a missing model. -/
def broken : Compiler where
  source := Registry.source ⟨[
    ("Top", .obj [("relations", .obj [
      ("middle", .obj [("type", .str "embedsOne"), ("model", .str "Middle.json")])])]),
    ("Middle", .obj [("properties", .obj [("low", .obj [("type", .str "Low")])])]),
    ("Low", .obj [("properties", .obj [
      ("text", .obj [("type", .str "string")]),
      ("ghost", .obj [("type", .str "Ghost.json")])])]),
    ("Side", .obj [("properties", .obj [("middle", .obj [("type", .str "Other")])])]),
    ("Other", .obj [("relations", .obj [
      ("nobody", .obj [("type", .str "embedsMany"), ("model", .str "Nobody.json")])])])]⟩

def brokenTop : Definition where
  name := "Top"
  relations := [("middle", { kind := .embeds .one, model := "Middle.json" })]

def brokenMiddle : Definition where
  name := "Middle"
  properties := [("low", { type := .reference "Low" })]

def brokenLow : Definition where
  name := "Low"
  properties := [("text", { type := .primitive .string }),
    ("ghost", { type := .reference "Ghost.json" })]

theorem missing_blamed_where_declared_broken :
    (broken.compile 0 "Top").result =
        .error (.schema (.unknownFieldType "Low" "ghost" "Ghost.json")) ∧
      (broken.compile 0 "Side").result = .error (.schema (.definitionNotFound "Nobody")) ∧
      broken.source.RelatesTo "Side" "Nobody" := by
  have regular : broken.source.Regular := Registry.regular_of_isRegular (by decide +kernel)
  have side : broken.canonical "Side" = "Side" := by decide +kernel
  have settled : broken.source.Settled "Top" ∧ broken.source.Settled "Side" := by
    constructor <;> rw [Source.Settled] <;> decide +kernel
  have loads : ∀ name definition, (broken.load name).1.toOption = some definition →
      broken.load name = (.ok definition, (broken.load name).2) := by
    intro name definition loaded
    generalize broken.load name = run at loaded ⊢
    obtain ⟨error | read, activities⟩ := run
    · cases loaded
    · cases loaded
      rfl
  have top := loads (broken.canonical "Top") brokenTop (by decide +kernel)
  have middle := loads (broken.canonical "Middle.json") brokenMiddle (by decide +kernel)
  have low := loads (broken.canonical "Low") brokenLow (by decide +kernel)
  have toMiddle : broken.Nests ⟨broken.depth, broken.canonical "Top", { built := 0 }⟩
      ⟨48, broken.canonical "Middle.json", _⟩ := .intro rfl List.not_mem_nil top (.here rfl)
  have absent : broken.source.fetch (broken.canonical "Ghost.json") = .ok none :=
    congrArg Except.ok (by decide +kernel)
  obtain ⟨-, properties⟩ := missing_blamed_where_declared regular settled.1 0
  have blamed : (broken.compile 0 "Top").result =
      .error (.schema (.unknownFieldType "Low" "ghost" "Ghost.json")) := by
    refine (properties ⟨47, _, _⟩ brokenLow "ghost" { type := .reference "Ghost.json" } _ _
      (.tail (.single toMiddle) (.intro rfl ?below middle (.here rfl)))
      (.intro rfl ?lowest low (.later (run_compileField_plain _ _ rfl _ _ _) .here))
      rfl absent).2.2
    case below => decide +kernel
    case lowest => decide +kernel
  have failed : (broken.compile 0 "Side").result =
      .error (.schema (.definitionNotFound "Nobody")) :=
    errorOf?_eq_some.1 (by decide +kernel)
  obtain ⟨relations, -⟩ := missing_blamed_where_declared regular settled.2 0
  obtain ⟨-, own | related⟩ := relations (Registry.candid _) _ failed
  · rw [side] at own
    exact absurd own (by decide)
  · exact ⟨blamed, failed, side ▸ related⟩

end Compiler

end DocModel
