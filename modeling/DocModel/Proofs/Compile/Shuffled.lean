import DocModel.Proofs.Compile.Cycle
import DocModel.Proofs.Compile.Resolved
import DocModel.Proofs.Source.Shuffled
import DocModel.Proofs.Validator.Shuffled

namespace DocModel

/-- Definitions that agree except for the order of their fields have validators that accept the same
documents. -/
theorem Schema.Resolves.carries {strict : Bool} {oracle : Option Oracle} {source other : Source}
    {schema schema' : Schema} (shuffled : source.Shuffled other) (regular : source.Regular)
    (settled : ∀ declared ∈ schema.definition.targets, source.Settled declared)
    (h : schema.Resolves source) (h' : schema'.Resolves other)
    (same : schema.definition.Shuffled schema'.definition) :
    Carries ((schema.validator strict).Returns oracle)
      ((schema'.validator strict).Returns oracle) := by
  induction h generalizing schema' with
  | @intro definition fields declared plain embedded nested ih =>
    have whole : (Schema.mk definition fields).Resolves source :=
      .intro declared plain embedded nested
    obtain ⟨definition', fields'⟩ := schema'
    have orderly : ((Schema.mk definition fields).validator strict).Orderly := whole.orderly
    have orderly' : ((Schema.mk definition' fields').validator strict).Orderly := h'.orderly
    have resolved' : ∀ field' ∈ fields', field'.Resolved other := fun _ => h'.resolved
    cases h' with
    | intro declared' plain' embedded' nested' =>
      obtain ⟨middle, perm, matched⟩ : ∃ middle, fields.Perm middle ∧
          List.Forall₂ (fun field field' => field.declared = field'.declared) middle fields' := by
        apply exists_perm_of_map_perm
        rw [declared, declared']
        exact same.perm_fields
      rw [Schema.validator] at orderly orderly' ⊢
      rw [Schema.validator]
      refine orderly.carries_of_perm orderly' (perm.map _) ?_
      rw [List.forall₂_map_left_iff, List.forall₂_map_right_iff]
      refine forall₂_imp_of_mem matched fun field mem field' mem' alike => ?_
      rw [← perm.mem_iff] at mem
      obtain ⟨name, declaration, rfl, rfl⟩ |
        ⟨name, declaration, embedding, target, target', model, rfl, rfl, embeds, answers,
          answers'⟩ :=
          (whole.resolved mem).alike (resolved' field' mem') alike
      · rw [SchemaField.rule]
        exact FieldRule.follows_value _ _
      · have listed : model ∈ definition.targets := by
          rw [Definition.mem_targets, ← declared]
          exact ⟨_, _, _, List.mem_map_of_mem mem, embeds⟩
        have holds := answers.holds (settled model listed)
        have holds' := answers'.holds (shuffled.settled (settled model listed))
        rw [shuffled.canonical_eq] at holds'
        obtain ⟨definition'', holds'', same'⟩ := shuffled.exists_holds holds
        obtain rfl := holds'.unique holds''
        rw [SchemaField.rule, SchemaField.rule]
        exact FieldRule.follows_embedded _ _
          (ih _ _ _ _ mem (regular _ _ holds) (nested' _ _ _ _ mem') same')

namespace Compiler

variable {compiler : Compiler} {requested : String}

/-- What compiles is what is there with all that is reached from it, and reaches no cycle. -/
theorem compiles_iff (regular : compiler.source.Regular)
    (settled : compiler.source.Settled requested) (built : Nat) :
    (∃ compiled, (compiler.compile built requested).result = .ok compiled) ↔
      compiler.source.Complete (compiler.canonical requested) ∧
        ¬ compiler.source.ReachesCycle (compiler.canonical requested) := by
  have unshared := result_compile regular settled built (Nat.lt_succ_self _)
  constructor
  · intro compiles
    obtain ⟨compiled, result⟩ := compiles
    rw [result] at unshared
    exact ⟨complete_of_compileUnshared regular settled unshared.symm,
      not_reachesCycle_of_compileUnshared regular settled unshared.symm⟩
  · intro sound
    obtain ⟨complete, acyclic⟩ := sound
    cases result : (compiler.compile built requested).result with
    | ok compiled => exact ⟨compiled, rfl⟩
    | error error =>
      -- An error would tell a walk that closes.
      rw [result] at unshared
      obtain ⟨chain, repeated, -, mem, walk, leads⟩ := closes_of_compileUnshared_eq_error regular
        settled complete (roomy_nil (Nat.lt_succ_self _)) (.singleton _) unshared.symm
      cases chain with
      | nil => cases mem
      | cons first rest =>
        have head := congrArg some (List.cons_prefix_cons.1 leads).1.symm
        have closes : compiler.source.Closes (compiler.canonical requested) (first :: rest)
          repeated := ⟨head, walk, mem⟩
        exact absurd closes.reachesCycle acyclic

theorem holds_of_compile (settled : compiler.source.Settled requested) {built : Nat}
    {compiled : Compiled} (h : (compiler.compile built requested).result = .ok compiled) :
    ∃ schema : Schema,
      compiler.source.Holds (compiler.canonical requested) schema.definition ∧
      compiler.Compiles schema compiled.validator := by
  obtain ⟨schema, load, compiles⟩ := compiles_of_compile h
  exact ⟨schema, (load_eq_ok_iff_holds settled).1 load, compiles⟩

section

variable {other : Compiler} {built built' : Nat} {compiled compiled' : Compiled}

theorem compiles_of_shuffled (shuffled : compiler.source.Shuffled other.source)
    (regular : compiler.source.Regular) (settled : compiler.source.Settled requested)
    (h : (compiler.compile built requested).result = .ok compiled) (built' : Nat) :
    ∃ compiled', (other.compile built' requested).result = .ok compiled' := by
  obtain ⟨complete, acyclic⟩ := (compiles_iff regular settled built).1 ⟨compiled, h⟩
  refine (compiles_iff (shuffled.regular regular) (shuffled.settled settled) built').2 ?_
  rw [canonical, shuffled.canonical_eq]
  exact ⟨shuffled.complete complete, mt shuffled.reachesCycle_iff.1 acyclic⟩

theorem carries_of_shuffled (shuffled : compiler.source.Shuffled other.source)
    (strict : compiler.rejectsUnknown = other.rejectsUnknown)
    (regular : compiler.source.Regular) (settled : compiler.source.Settled requested)
    (h : (compiler.compile built requested).result = .ok compiled)
    (h' : (other.compile built' requested).result = .ok compiled') (oracle : Option Oracle) :
    Carries (compiled.validator.Returns oracle) (compiled'.validator.Returns oracle) := by
  obtain ⟨schema, holds, compiles⟩ := holds_of_compile settled h
  obtain ⟨schema', holds', compiles'⟩ := holds_of_compile (shuffled.settled settled) h'
  rw [canonical, shuffled.canonical_eq] at holds'
  obtain ⟨definition, found, same⟩ := shuffled.exists_holds holds
  obtain rfl := holds'.unique found
  rw [compiles.validator_eq, compiles'.validator_eq, strict]
  exact compiles.resolves.carries shuffled regular (regular _ _ holds) compiles'.resolves same

end

/-- The order in which fields are declared is of no account: whatever the definitions, a name
compiles with one order if and only if it compiles with another, and the validators accept the same
documents and leave the same of them, up to the order of members. -/
theorem accepts_shuffled {other : Compiler} (shuffled : compiler.source.Shuffled other.source)
    (strict : compiler.rejectsUnknown = other.rejectsUnknown)
    (regular : compiler.source.Regular) (settled : compiler.source.Settled requested)
    (built built' : Nat) :
    ((∃ compiled, (compiler.compile built requested).result = .ok compiled) ↔
      ∃ compiled', (other.compile built' requested).result = .ok compiled') ∧
    ∀ compiled compiled', (compiler.compile built requested).result = .ok compiled →
      (other.compile built' requested).result = .ok compiled' →
      ∀ (oracle : Option Oracle) (document : Json),
        ((compiled.validator.validate oracle document).result.isOk ↔
          (compiled'.validator.validate oracle document).result.isOk) ∧
        ∀ out out', (compiled.validator.validate oracle document).result = .ok out →
          (compiled'.validator.validate oracle document).result = .ok out' →
          out.Reordered out' := by
  have regular' := shuffled.regular regular
  have settled' := shuffled.settled settled
  refine ⟨⟨?_, ?_⟩, ?_⟩
  · intro compiles
    obtain ⟨compiled, h⟩ := compiles
    exact compiles_of_shuffled shuffled regular settled h built'
  · intro compiles
    obtain ⟨compiled, h⟩ := compiles
    exact compiles_of_shuffled shuffled.symm regular' settled' h built
  · intro compiled compiled' h h' oracle document
    have carries := carries_of_shuffled shuffled strict regular settled h h' oracle
    have carries' := carries_of_shuffled shuffled.symm strict.symm regular' settled' h' h oracle
    refine ⟨⟨carries.isOk_of_isOk (.refl document), carries'.isOk_of_isOk (.refl document)⟩, ?_⟩
    intro out out' returns returns'
    exact carries.reordered (.refl document) returns returns'

/-- Letters with a sender and with copies for others. -/
def letters : Compiler where
  source := Registry.source ⟨[
    ("Letter", .obj [
      ("properties", .obj [
        ("stamps", .obj [("type", .str "int"), ("default", .num (.int 2))]),
        ("sender", .obj [("type", .str "Person.json"), ("required", .bool true)])]),
      ("relations", .obj [
        ("copies", .obj [("type", .str "embedsMany"), ("model", .str "Person")]),
        ("answer", .obj [("type", .str "hasOne"), ("model", .str "Letter")])])]),
    ("Person", .obj [("properties", .obj [
      ("name", .obj [("type", .str "string")]),
      ("country", .obj [("type", .str "string"), ("default", .str "home")]),
      ("city", .obj [("type", .str "string"), ("default", .str "here")])])])]⟩

/-- The same definitions with their fields in another order. -/
def letters' : Compiler where
  source := Registry.source ⟨[
    ("Letter", .obj [
      ("properties", .obj [
        ("sender", .obj [("type", .str "Person.json"), ("required", .bool true)]),
        ("stamps", .obj [("type", .str "int"), ("default", .num (.int 2))])]),
      ("relations", .obj [
        ("answer", .obj [("type", .str "hasOne"), ("model", .str "Letter")]),
        ("copies", .obj [("type", .str "embedsMany"), ("model", .str "Person")])])]),
    ("Person", .obj [("properties", .obj [
      ("name", .obj [("type", .str "string")]),
      ("city", .obj [("type", .str "string"), ("default", .str "here")]),
      ("country", .obj [("type", .str "string"), ("default", .str "home")])])])]⟩

/-- A letter whose sender tells neither city nor country. -/
def letter : Json := .obj [("sender", .obj [("name", .str "Ann")]), ("copies", .arr [])]

theorem letters_shuffled : letters.source.Shuffled letters'.source := by
  apply Registry.shuffled_source
  refine .cons ⟨rfl, .obj ?_⟩ (.cons ⟨rfl, .obj ?_⟩ .nil)
  · exact .cons ⟨rfl, .entries (.inl rfl) (.swap _ _ _)⟩
      (.cons ⟨rfl, .entries (.inr rfl) (.swap _ _ _)⟩ .nil)
  · exact .cons ⟨rfl, .entries (.inl rfl) ((List.Perm.swap _ _ _).cons _)⟩ .nil

/-- The defaults stand in the order of their declarations. -/
theorem accepts_shuffled_letters :
    letters.source.Shuffled letters'.source ∧ ∃ compiled compiled' out out',
      (letters.compile 0 "Letter").result = .ok compiled ∧
      (letters'.compile 0 "Letter").result = .ok compiled' ∧
      (compiled.validator.validate none letter).result = .ok out ∧
      (compiled'.validator.validate none letter).result = .ok out' ∧
      out ≠ out' ∧ out.Reordered out' := by
  have regular : letters.source.Regular := Registry.regular_of_isRegular (by decide +kernel)
  have settled : letters.source.Settled "Letter" := by
    rw [Source.Settled]
    decide +kernel
  have ran : (letters.compile 0 "Letter").result.toOption.any
      fun compiled => (letters'.compile 0 "Letter").result.toOption.any
        fun compiled' => (compiled.validator.validate none letter).result.toOption.any
          fun out => (compiled'.validator.validate none letter).result.toOption.any
            fun out' => out ≠ out' := by
    decide +kernel
  obtain ⟨compiled, result, tested⟩ := exists_of_any_toOption ran
  obtain ⟨compiled', result', tested⟩ := exists_of_any_toOption tested
  obtain ⟨out, returns, tested⟩ := exists_of_any_toOption tested
  obtain ⟨out', returns', different⟩ := exists_of_any_toOption tested
  obtain ⟨-, alike⟩ := accepts_shuffled letters_shuffled rfl regular settled 0 0
  obtain ⟨-, outcome⟩ := alike compiled compiled' result result' none letter
  exact ⟨letters_shuffled, compiled, compiled', out, out', result, result', returns, returns',
    of_decide_eq_true different, outcome out out' returns returns'⟩

end Compiler

end DocModel
