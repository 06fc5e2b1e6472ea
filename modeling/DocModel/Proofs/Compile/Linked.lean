import DocModel.Proofs.Compile.Consistent

namespace DocModel

namespace CompileState

variable {state next : CompileState} {name : String}

/-- The entries of the table are entries of the other one. -/
def Within (state next : CompileState) : Prop :=
  ∀ name compiled, state.finished.lookup name = some compiled →
    next.finished.lookup name = some compiled

/-- A rule embeds nothing, or what it embeds is an entry of the table: that very one, and not one
that equals it. -/
inductive Links (table : List (String × Compiled)) : FieldRule × Option Compiled → Prop
  | value {head checks} : Links table (.value head checks, none)
  | embedded {head embedding} {entry : Compiled}
    (listed : table.lookup entry.validator.typeName = some entry) :
    Links table (.embedded head embedding entry.validator, some entry)

/-- The same of a compiled field and the identity that it adds to those of its definition. -/
inductive Supplies (table : List (String × Compiled)) : FieldRule × List Identity → Prop
  | value {head checks} : Supplies table (.value head checks, [])
  | embedded {head embedding} {entry : Compiled}
    (listed : table.lookup entry.validator.typeName = some entry) :
    Supplies table (.embedded head embedding entry.validator, [entry.identity])

/-- What the entries of the table embed are entries of the table. -/
def Linked (state : CompileState) : Prop :=
  ∀ name compiled, state.finished.lookup name = some compiled →
    ∀ rule ∈ compiled.rules, Links state.finished rule

theorem Links.mono {rule : FieldRule × Option Compiled} (h : Links state.finished rule)
    (within : state.Within next) : Links next.finished rule := by
  cases h with
  | value => exact .value
  | embedded listed => exact .embedded (within _ _ listed)

theorem links_of_supplies {table : List (String × Compiled)}
    {fields : List (FieldRule × List Identity)} (h : ∀ field ∈ fields, Supplies table field) :
    ∀ rule ∈ Compiled.pairRules (fields.map (·.1)) (fields.flatMap (·.2)), Links table rule := by
  induction fields with
  | nil => exact fun _ mem => absurd mem List.not_mem_nil
  | cons field fields ih =>
    obtain ⟨first, rest⟩ := List.forall_mem_cons.1 h
    cases first with
    | value => exact List.forall_mem_cons.2 ⟨.value, ih rest⟩
    | embedded listed => exact List.forall_mem_cons.2 ⟨.embedded listed, ih rest⟩

theorem within_complete (fresh : state.finished.lookup name = none) (compiled : Compiled)
    (fields : Nat) : state.Within (state.complete name compiled fields) := by
  intro other entry found
  rw [lookup_complete, if_neg]
  · exact found
  · rintro rfl
    rw [fresh] at found
    cases found

theorem Linked.complete {compiled : Compiled} (linked : state.Linked)
    (fresh : state.finished.lookup name = none)
    (links : ∀ rule ∈ compiled.rules, Links state.finished rule) (fields : Nat) :
    (state.complete name compiled fields).Linked := by
  have within := within_complete fresh compiled fields
  intro other entry found rule mem
  rw [lookup_complete] at found
  split at found
  · cases found
    exact (links rule mem).mono within
  · exact (linked _ _ found rule mem).mono within

end CompileState

namespace Compiler

variable {compiler : Compiler} {fuel : Nat} {name owner : String} {state : CompileState}

theorem linked_conclude {definition : Definition} {run : Run (List (FieldRule × List Identity))}
    (linked : run.state.Linked) (fresh : run.state.finished.lookup definition.name = none)
    (supplied : ∀ rules next, run = .ok rules next →
      ∀ field ∈ rules, CompileState.Supplies next.finished field) :
    (compiler.conclude definition run).state.Linked := by
  cases run with
  | error error next => exact linked
  | ok rules next =>
    have own : ∀ rule ∈ (compiler.assemble definition rules next).rules,
        CompileState.Links next.finished rule :=
      CompileState.links_of_supplies (supplied _ _ rfl)
    have before : next.Linked := linked
    exact before.complete fresh own rules.length

/-- A call for a name keeps the table linked. -/
def NamedLinked (compiler : Compiler) (name : String) (state : CompileState)
    (run : Run Compiled) : Prop :=
  state.Consistent → compiler.canonical name = name → state.Linked → run.state.Linked

theorem FieldsRun.linked (regular : compiler.source.Regular)
    (targets : ∀ name state run, NamedRun compiler fuel name state run →
      compiler.NamedLinked name state run)
    {fields : List (String × Field)} {run : Run (List (FieldRule × List Identity))}
    (h : FieldsRun compiler fuel owner fields state run) (consistent : state.Consistent)
    (settled : compiler.SettledFields fields) (linked : state.Linked) :
    run.state.Linked ∧
      ∀ rules next, run = .ok rules next →
        ∀ field ∈ rules, CompileState.Supplies next.finished field := by
  induction fields generalizing state run with
  | nil =>
    cases h
    refine ⟨linked, ?_⟩
    intro rules next h
    cases h
    exact fun _ mem => absurd mem List.not_mem_nil
  | cons first fields ih =>
    cases h with
    | plain plain rest =>
      obtain ⟨after, supplied⟩ := ih rest consistent settled.tail linked
      rw [Run.state_cons]
      refine ⟨after, ?_⟩
      intro rules next h
      obtain ⟨others, rfl, rfl⟩ := Run.cons_eq_ok.1 h
      exact List.forall_mem_cons.2 ⟨.value, supplied _ _ rfl⟩
    | embedded embeds target rest =>
      have fixed := settled _ _ _ _ List.mem_cons_self embeds
      obtain ⟨between, -, entry⟩ := target.consistent regular consistent fixed
      have linked' := targets _ _ _ target consistent fixed linked
      obtain ⟨after, supplied⟩ := ih rest between settled.tail linked'
      rw [Run.state_cons]
      refine ⟨after, ?_⟩
      intro rules next h
      obtain ⟨others, rfl, rfl⟩ := Run.cons_eq_ok.1 h
      have extended := (rest.consistent (fun _ _ _ => NamedRun.consistent regular) between
        settled.tail).2.1
      have found := entry _ _ rfl
      rw [← between.keyed _ _ found] at found
      exact List.forall_mem_cons.2 ⟨.embedded (extended.keeps _ _ found), supplied _ _ rfl⟩
    | failed embeds target =>
      have fixed := settled _ _ _ _ List.mem_cons_self embeds
      exact ⟨targets _ _ _ target consistent fixed linked, by simp⟩

theorem NamedRun.linked (regular : compiler.source.Regular) {run : Run Compiled}
    (h : NamedRun compiler fuel name state run) : compiler.NamedLinked name state run := by
  induction fuel generalizing name state run with
  | zero =>
    cases h
    exact fun _ _ linked => linked
  | succ fuel ih =>
    intro consistent fixed linked
    cases h with
    | shared finished => exact linked
    | cyclic fresh open_ => exact linked
    | unloadable fresh closed load => exact linked
    | @loaded _ _ _ definition activities run fresh closed load fields =>
      have holds := (load_eq_ok_iff_holds fixed).1 (congrArg Prod.fst load)
      have entered : ((state.noteAll activities).enter definition.name).Consistent :=
        holds.name_eq ▸ consistent.enter fresh closed activities
      have settled := settledFields_of_holds regular holds
      obtain ⟨after, extended, -⟩ :=
        fields.consistent (fun _ _ _ => NamedRun.consistent regular) entered settled
      obtain ⟨inner, supplied⟩ := fields.linked regular (fun _ _ _ => ih) entered settled linked
      refine linked_conclude inner (after.apart _ ?_) supplied
      rw [extended.stack]
      exact List.mem_append_right _ List.mem_cons_self

end Compiler

end DocModel
