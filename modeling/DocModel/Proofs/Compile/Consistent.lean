import Mathlib.Data.List.Nodup
import DocModel.Proofs.Compile.Run
import DocModel.Proofs.Source
import DocModel.Proofs.Validator.Occurs

namespace DocModel

namespace CompileState

variable {state next : CompileState} {name other : String} {compiled : Compiled}

/-- What holds of the table of finished validators and of the stack all through a call: an entry
stands under its own name, and so do the validators in it; a definition that stands on the stack
is not finished, and stands there once. -/
structure Consistent (state : CompileState) : Prop where
  keyed : ∀ name compiled, state.finished.lookup name = some compiled →
    compiled.validator.typeName = name
  closed : ∀ name compiled, state.finished.lookup name = some compiled →
    ∀ inner, inner.Occurs compiled.validator →
      ∃ entry, state.finished.lookup inner.typeName = some entry ∧ entry.validator = inner
  apart : ∀ name ∈ state.stack, state.finished.lookup name = none
  nodup : state.stack.Nodup

/-- The table may have grown; the stack is as it was. -/
structure Extends (state next : CompileState) : Prop where
  stack : next.stack = state.stack
  keeps : ∀ name compiled, state.finished.lookup name = some compiled →
    next.finished.lookup name = some compiled

theorem Extends.refl (state : CompileState) : state.Extends state := ⟨rfl, fun _ _ h => h⟩

theorem Extends.trans {last : CompileState} (h : state.Extends next) (h' : next.Extends last) :
    state.Extends last :=
  ⟨h'.stack.trans h.stack, fun _ _ found => h'.keeps _ _ (h.keeps _ _ found)⟩

/-- The validators that some compiled rules embed are those of the table. -/
def Tabled (state : CompileState) (rules : List (FieldRule × List Identity)) : Prop :=
  ∀ head embedding nested, .embedded head embedding nested ∈ rules.map (·.1) →
    ∃ entry, state.finished.lookup nested.typeName = some entry ∧ entry.validator = nested

theorem Consistent.enter (consistent : state.Consistent) (fresh : state.finished.lookup name = none)
    (closed : name ∉ state.stack) (activities : List Activity) :
    ((state.noteAll activities).enter name).Consistent where
  keyed := consistent.keyed
  closed := consistent.closed
  apart := by
    intro other mem
    obtain mem | mem := List.mem_append.1 mem
    · exact consistent.apart other mem
    · rw [List.mem_singleton.1 mem]
      exact fresh
  nodup := by
    have nodup := consistent.nodup.concat closed
    rwa [List.concat_eq_append] at nodup

theorem Consistent.pop (consistent : state.Consistent) : state.pop.Consistent where
  keyed := consistent.keyed
  closed := consistent.closed
  apart _ mem := consistent.apart _ (List.dropLast_subset _ mem)
  nodup := consistent.nodup.sublist (List.dropLast_sublist _)

theorem Consistent.abandon (consistent : state.Consistent) (name : String) (error : Failure) :
    (state.abandon name error).Consistent where
  keyed := consistent.keyed
  closed := consistent.closed
  apart := consistent.pop.apart
  nodup := consistent.pop.nodup

theorem Consistent.complete {base : List String} {rules : List (FieldRule × List Identity)}
    {rejectsUnknown : Bool} (consistent : state.Consistent) (stack : state.stack = base ++ [name])
    (tabled : state.Tabled rules)
    (made : compiled.validator = .mk name rejectsUnknown (rules.map (·.1))) (fields : Nat) :
    (state.complete name compiled fields).Consistent := by
  have fresh : state.finished.lookup name = none := consistent.apart name (by simp [stack])
  have table : ∀ other, (state.complete name compiled fields).finished.lookup other =
      if other = name then some compiled else state.finished.lookup other :=
    fun other => state.lookup_complete name other compiled fields
  have keep : ∀ other entry, state.finished.lookup other = some entry →
      (state.complete name compiled fields).finished.lookup other = some entry := by
    intro other entry found
    rw [table, if_neg, found]
    intro same
    rw [same, fresh] at found
    cases found
  refine ⟨?_, ?_, ?_, ?_⟩
  · intro other entry found
    rw [table] at found
    split at found
    · cases found
      rw [made]
      exact Eq.symm ‹other = name›
    · exact consistent.keyed _ _ found
  · intro other entry found inner occurs
    rw [table] at found
    split at found
    · -- The new entry: what it embeds is in the table, and so is all that occurs in that.
      cases found
      cases occurs with
      | refl => exact ⟨compiled, by simp [table, made, Validator.typeName], rfl⟩
      | embedded rule occurs =>
        rw [made] at rule
        obtain ⟨entry, found, rfl⟩ := tabled _ _ _ rule
        obtain ⟨entry', found', rfl⟩ := consistent.closed _ _ found _ occurs
        exact ⟨entry', keep _ _ found', rfl⟩
    · obtain ⟨entry', found', rfl⟩ := consistent.closed _ _ found _ occurs
      exact ⟨entry', keep _ _ found', rfl⟩
  · intro other mem
    have below : other ∈ base := by
      simpa [CompileState.complete, note, finish, CompileState.pop, stack] using mem
    rw [table, if_neg]
    · exact consistent.apart _ (by simp [stack, below])
    · intro same
      have nodup := consistent.nodup
      rw [stack, List.nodup_append] at nodup
      exact nodup.2.2 _ below _ (List.mem_singleton_self _) same
  · exact consistent.nodup.sublist (List.dropLast_sublist _)

end CompileState

namespace Compiler

variable {compiler : Compiler}

/-- Every embedded name of the fields is the same after one stripping as after two. -/
def SettledFields (compiler : Compiler) (fields : List (String × Field)) : Prop :=
  ∀ name field embedding declared, (name, field) ∈ fields →
    field.embeds? = some (embedding, declared) → compiler.source.Settled declared

theorem SettledFields.tail {first : String × Field} {fields : List (String × Field)}
    (h : compiler.SettledFields (first :: fields)) : compiler.SettledFields fields :=
  fun _ _ _ _ mem => h _ _ _ _ (List.mem_cons_of_mem _ mem)

theorem load_eq_ok_iff_holds {name : String} {definition : Definition}
    (fixed : compiler.canonical name = name) :
    (compiler.load name).1 = .ok definition ↔ compiler.source.Holds name definition := by
  rw [load_eq_ok_iff, fixed, fixed]

theorem settledFields_of_holds (regular : compiler.source.Regular) {name : String}
    {definition : Definition} (holds : compiler.source.Holds name definition) :
    compiler.SettledFields definition.fields :=
  fun _ _ _ _ mem embeds =>
    regular _ _ holds _ (Definition.mem_targets.2 ⟨_, _, _, mem, embeds⟩)

/-- A call for a name keeps the state consistent and what is finished, and finishes the name. -/
def NamedConsistent (compiler : Compiler) (name : String) (state : CompileState)
    (run : Run Compiled) : Prop :=
  state.Consistent → compiler.canonical name = name →
    run.state.Consistent ∧ state.Extends run.state ∧
      ∀ compiled next, run = .ok compiled next → next.finished.lookup name = some compiled

variable {fuel : Nat} {name owner : String} {state : CompileState}

theorem FieldsRun.consistent
    (targets : ∀ name state run, NamedRun compiler fuel name state run →
      compiler.NamedConsistent name state run)
    {fields : List (String × Field)} {run : Run (List (FieldRule × List Identity))}
    (h : FieldsRun compiler fuel owner fields state run) (consistent : state.Consistent)
    (settled : compiler.SettledFields fields) :
    run.state.Consistent ∧ state.Extends run.state ∧
      ∀ rules next, run = .ok rules next → next.Tabled rules := by
  induction fields generalizing state run with
  | nil =>
    cases h
    refine ⟨consistent, .refl _, ?_⟩
    intro rules next h
    cases h
    simp [CompileState.Tabled]
  | cons first fields ih =>
    cases h with
    | plain plain rest =>
      obtain ⟨after, extended, tabled⟩ := ih rest consistent settled.tail
      rw [Run.state_cons]
      refine ⟨after, extended, ?_⟩
      intro rules next h
      obtain ⟨others, rfl, rfl⟩ := Run.cons_eq_ok.1 h
      intro head embedding nested mem
      simp only [List.map_cons, List.mem_cons, reduceCtorEq, false_or] at mem
      exact tabled _ _ rfl _ _ _ mem
    | @embedded _ _ name field _ _ embedding declared nested middle run embeds target rest =>
      have fixed := settled _ _ _ _ List.mem_cons_self embeds
      obtain ⟨between, extended, entry⟩ := targets _ _ _ target consistent fixed
      obtain ⟨after, extended', tabled⟩ := ih rest between settled.tail
      rw [Run.state_cons]
      refine ⟨after, extended.trans extended', ?_⟩
      intro rules next h
      obtain ⟨others, rfl, rfl⟩ := Run.cons_eq_ok.1 h
      intro head embedding nested' mem
      simp only [List.map_cons, List.mem_cons, FieldRule.embedded.injEq] at mem
      obtain ⟨-, -, rfl⟩ | mem := mem
      · have found := extended'.keeps _ _ (entry _ _ rfl)
        rw [← after.keyed _ _ found] at found
        exact ⟨nested, found, rfl⟩
      · exact tabled _ _ rfl _ _ _ mem
    | failed embeds target =>
      have fixed := settled _ _ _ _ List.mem_cons_self embeds
      obtain ⟨after, extended, -⟩ := targets _ _ _ target consistent fixed
      exact ⟨after, extended, by simp⟩

theorem NamedRun.consistent (regular : compiler.source.Regular) {run : Run Compiled}
    (h : NamedRun compiler fuel name state run) : compiler.NamedConsistent name state run := by
  induction fuel generalizing name state run with
  | zero =>
    cases h
    exact fun consistent _ => ⟨consistent, .refl _, by simp⟩
  | succ fuel ih =>
    intro consistent fixed
    cases h with
    | shared finished =>
      refine ⟨consistent, .refl _, ?_⟩
      intro compiled next h
      cases h
      exact finished
    | cyclic fresh open_ => exact ⟨consistent, .refl _, by simp⟩
    | unloadable fresh closed load =>
      exact ⟨⟨consistent.keyed, consistent.closed, consistent.apart, consistent.nodup⟩,
        ⟨rfl, fun _ _ h => h⟩, by simp⟩
    | @loaded _ _ _ definition activities run fresh closed load fields =>
      have holds := (load_eq_ok_iff_holds fixed).1 (congrArg Prod.fst load)
      have entered : ((state.noteAll activities).enter definition.name).Consistent :=
        holds.name_eq ▸ consistent.enter fresh closed activities
      obtain ⟨after, extended, tabled⟩ :=
        fields.consistent (fun _ _ _ => ih) entered (settledFields_of_holds regular holds)
      have stack : run.state.stack = state.stack ++ [definition.name] := extended.stack
      have left : run.state.stack.dropLast = state.stack := by
        rw [stack, List.dropLast_concat]
      cases run with
      | error error next =>
        exact ⟨after.abandon _ error, ⟨left, extended.keeps⟩, by simp [conclude]⟩
      | ok rules next =>
        have made : (compiler.assemble definition rules next).validator =
            .mk definition.name compiler.rejectsUnknown (rules.map (·.1)) := rfl
        refine ⟨after.complete stack (tabled _ _ rfl) made rules.length, ⟨left, ?_⟩, ?_⟩
        · intro other compiled found
          have ne : other ≠ definition.name := by
            intro same
            rw [same, holds.name_eq, fresh] at found
            cases found
          rw [state_conclude_ok, CompileState.lookup_complete, if_neg ne]
          exact extended.keeps _ _ found
        · intro compiled next h
          cases h
          exact (CompileState.lookup_complete ..).trans (if_pos holds.name_eq.symm)

end Compiler

end DocModel
