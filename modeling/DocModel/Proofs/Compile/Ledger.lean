import DocModel.Proofs.Clean.Counters
import DocModel.Proofs.Compile.Stacks
import DocModel.Proofs.Source.Embeds

open Relation (ReflTransGen)

namespace DocModel

/-- The names whose documents were fetched, and those of the definitions that were loaded and
compiled, one after the other. -/
structure Ledger where
  fetched : List String
  loaded : List String
  compiled : List String

namespace Activity

def loadedName? : Activity → Option String
  | loaded name => some name
  | _ => none

def compiledName? : Activity → Option String
  | compiled name _ => some name
  | _ => none

end Activity

def ledger (activities : List Activity) : Ledger :=
  ⟨activities.filterMap Activity.fetchedName?, activities.filterMap Activity.loadedName?,
    activities.filterMap Activity.compiledName?⟩

namespace Ledger

def append (first last : Ledger) : Ledger :=
  ⟨first.fetched ++ last.fetched, first.loaded ++ last.loaded, first.compiled ++ last.compiled⟩

theorem ledger_append (activities others : List Activity) :
    ledger (activities ++ others) = (ledger activities).append (ledger others) := by
  simp [ledger, append]

/-- The books of a call for a root, from the definitions that stand on the stack: each document is
fetched once, if the root leads to it, and each validator is compiled once, after its definition was
loaded. A fetched name is compiled, still on the stack, or lost. -/
structure Balanced (source : Source) (root : String) (lost : String → Prop) (ledger : Ledger)
    (stack : List String) : Prop where
  nodup : ledger.fetched.Nodup
  reached : ∀ name ∈ ledger.fetched, ReflTransGen source.Embeds root name
  loaded : ledger.loaded.Sublist ledger.fetched
  opened : stack ⊆ ledger.loaded
  once : ledger.compiled.Nodup
  compiled : ledger.compiled ⊆ ledger.loaded
  fate : ∀ name ∈ ledger.fetched, name ∈ ledger.compiled ∨ name ∈ stack ∨ lost name

variable {source : Source} {root name : String} {lost lost' : String → Prop} {ledger : Ledger}
  {stack base : List String}

theorem balanced_nil (source : Source) (root : String) :
    Balanced source root (fun _ => False) ⟨[], [], []⟩ [] where
  nodup := .nil
  reached := nofun
  loaded := .slnil
  opened := List.nil_subset _
  once := .nil
  compiled := List.nil_subset _
  fate := nofun

theorem Balanced.mono (h : ledger.Balanced source root lost stack)
    (weaker : ∀ name, lost name → lost' name) : ledger.Balanced source root lost' stack :=
  { h with fate := fun name mem => (h.fate name mem).imp_right (Or.imp_right (weaker name)) }

/-- While nothing is lost, a name that is neither compiled nor on the stack was not fetched. -/
theorem Balanced.notMem_fetched (h : ledger.Balanced source root (fun _ => False) stack)
    (fresh : name ∉ ledger.compiled) (closed : name ∉ stack) : name ∉ ledger.fetched := by
  intro mem
  obtain done | standing | none := h.fate name mem
  · exact fresh done
  · exact closed standing
  · exact none

theorem Balanced.enter (h : ledger.Balanced source root (fun _ => False) stack)
    (fresh : name ∉ ledger.compiled) (closed : name ∉ stack)
    (reached : ReflTransGen source.Embeds root name) :
    (ledger.append ⟨[name], [name], []⟩).Balanced source root (fun _ => False)
      (stack ++ [name]) where
  nodup := Compiler.nodup_push h.nodup (h.notMem_fetched fresh closed)
  reached := List.forall_mem_append.2 ⟨h.reached, List.forall_mem_singleton.2 reached⟩
  loaded := h.loaded.append (.refl [name])
  opened := List.append_subset.2
    ⟨List.subset_append_of_subset_left _ h.opened, List.subset_append_right _ _⟩
  once := by simpa [append] using h.once
  compiled := by simpa [append] using List.subset_append_of_subset_left [name] h.compiled
  fate := by
    refine List.forall_mem_append.2 ⟨?_, by simp⟩
    intro other mem
    simpa [append] using (h.fate other mem).imp_right (Or.imp_left (List.mem_append_left [name]))

theorem Balanced.refuse (h : ledger.Balanced source root (fun _ => False) stack)
    (fresh : name ∉ ledger.compiled) (closed : name ∉ stack)
    (reached : ReflTransGen source.Embeds root name) (gone : lost name) :
    (ledger.append ⟨[name], [], []⟩).Balanced source root lost stack where
  nodup := Compiler.nodup_push h.nodup (h.notMem_fetched fresh closed)
  reached := List.forall_mem_append.2 ⟨h.reached, List.forall_mem_singleton.2 reached⟩
  loaded := h.loaded.append (List.nil_sublist _)
  opened := List.subset_append_of_subset_left _ h.opened
  once := by simpa [append] using h.once
  compiled := by simpa [append] using h.compiled
  fate := by
    refine List.forall_mem_append.2 ⟨?_, by simp [gone]⟩
    intro other mem
    simpa [append] using (h.fate other mem).imp_right (Or.imp_right False.elim)

theorem Balanced.complete (h : ledger.Balanced source root lost (base ++ [name]))
    (fresh : name ∉ ledger.compiled) :
    (ledger.append ⟨[], [], [name]⟩).Balanced source root lost base where
  nodup := by simpa [append] using h.nodup
  reached := by simpa [append] using h.reached
  loaded := by simpa [append] using h.loaded
  opened := by simpa [append] using (List.append_subset.1 h.opened).1
  once := Compiler.nodup_push h.once fresh
  compiled := by simpa [append] using And.intro h.compiled (List.append_subset.1 h.opened).2
  fate := by
    intro other mem
    rw [append, List.append_nil] at mem
    obtain done | standing | gone := h.fate other mem
    · exact .inl (List.mem_append_left _ done)
    · obtain below | own := List.mem_append.1 standing
      · exact .inr (.inl below)
      · exact .inl (List.mem_append_right _ own)
    · exact .inr (.inr gone)

theorem Balanced.abandon (h : ledger.Balanced source root lost (base ++ [name]))
    (gone : lost name) : ledger.Balanced source root lost base :=
  { h with
    opened := (List.append_subset.1 h.opened).1
    fate := by
      intro other mem
      obtain done | standing | gone' := h.fate other mem
      · exact .inl done
      · obtain below | own := List.mem_append.1 standing
        · exact .inr (.inl below)
        · exact .inr (.inr (List.mem_singleton.1 own ▸ gone))
      · exact .inr (.inr gone') }

end Ledger

section

variable {counter : Counter} {name? : Activity → Option String}

theorem amount_eq_length
    (each : ∀ activity, amount counter [activity] = (name? activity).toList.length)
    (activities : List Activity) :
    amount counter activities = (activities.filterMap name?).length := by
  induction activities with
  | nil => rfl
  | cons activity activities ih =>
    have split : amount counter (activity :: activities) =
        amount counter [activity] + amount counter activities := by
      simp [amount]
    rw [split, each, ih, List.filterMap_cons]
    cases name? activity <;> simp [Nat.add_comm]

end

theorem amount_definitionsLoaded (activities : List Activity) :
    amount .definitionsLoaded activities = (ledger activities).loaded.length := by
  apply amount_eq_length
  intro activity
  cases activity <;> rfl

theorem amount_validatorsCompiled (activities : List Activity) :
    amount .validatorsCompiled activities = (ledger activities).compiled.length := by
  apply amount_eq_length
  intro activity
  cases activity <;> rfl

namespace CompileState

/-- The books of a call balance, and what is compiled is what the table holds. -/
structure Accounted (source : Source) (root : String) (lost : String → Prop)
    (state : CompileState) : Prop where
  balanced : (ledger state.activities).Balanced source root lost state.stack
  finished : ∀ name, name ∈ (ledger state.activities).compiled ↔
    ∃ compiled, state.finished.lookup name = some compiled

variable {source : Source} {root name : String} {lost lost' : String → Prop}
  {state : CompileState} {base : List String} {activities : List Activity}

theorem accounted_nil (source : Source) (root : String) (built : Nat) :
    ({ built } : CompileState).Accounted source root fun _ => False where
  balanced := Ledger.balanced_nil source root
  finished := by simp [ledger]

theorem Accounted.mono (h : state.Accounted source root lost)
    (weaker : ∀ name, lost name → lost' name) : state.Accounted source root lost' :=
  { h with balanced := h.balanced.mono weaker }

theorem Accounted.notMem_compiled (h : state.Accounted source root lost)
    (fresh : state.finished.lookup name = none) : name ∉ (ledger state.activities).compiled := by
  rw [h.finished, fresh]
  simp

theorem Accounted.enter (h : state.Accounted source root fun _ => False)
    (fresh : state.finished.lookup name = none) (closed : name ∉ state.stack)
    (reached : ReflTransGen source.Embeds root name)
    (loading : ledger activities = ⟨[name], [name], []⟩) :
    ((state.noteAll activities).enter name).Accounted source root fun _ => False := by
  have books : ledger ((state.noteAll activities).enter name).activities =
      (ledger state.activities).append ⟨[name], [name], []⟩ := by
    have quiet : ledger [.compiling name] = ⟨[], [], []⟩ := rfl
    rw [CompileState.enter, push, note, noteAll, Ledger.ledger_append, Ledger.ledger_append,
      loading, quiet]
    simp [Ledger.append]
  constructor
  · rw [books]
    exact h.balanced.enter (h.notMem_compiled fresh) closed reached
  · simp only [books, Ledger.append, List.append_nil]
    exact h.finished

theorem Accounted.refuse (h : state.Accounted source root fun _ => False)
    (fresh : state.finished.lookup name = none) (closed : name ∉ state.stack)
    (reached : ReflTransGen source.Embeds root name)
    (loading : ledger activities = ⟨[name], [], []⟩) (gone : lost name) :
    (state.noteAll activities).Accounted source root lost := by
  have books : ledger (state.noteAll activities).activities =
      (ledger state.activities).append ⟨[name], [], []⟩ := by
    rw [noteAll, Ledger.ledger_append, loading]
  constructor
  · rw [books]
    exact h.balanced.refuse (h.notMem_compiled fresh) closed reached gone
  · simp only [books, Ledger.append, List.append_nil]
    exact h.finished

theorem Accounted.complete (h : state.Accounted source root lost)
    (stack : state.stack = base ++ [name]) (fresh : state.finished.lookup name = none)
    (made : Compiled) (fields : Nat) :
    (state.complete name made fields).Accounted source root lost := by
  have books : ledger (state.complete name made fields).activities =
      (ledger state.activities).append ⟨[], [], [name]⟩ := Ledger.ledger_append _ _
  have left : (state.complete name made fields).stack = base := by
    simp [CompileState.complete, note, finish, pop, stack]
  constructor
  · rw [books, left]
    exact (stack ▸ h.balanced).complete (h.notMem_compiled fresh)
  · intro other
    rw [books, lookup_complete]
    by_cases same : other = name
    · simp [Ledger.append, same]
    · simpa [Ledger.append, same] using h.finished other

theorem Accounted.abandon (h : state.Accounted source root lost)
    (stack : state.stack = base ++ [name]) (gone : lost name) (error : Failure) :
    (state.abandon name error).Accounted source root lost := by
  have books : ledger (state.abandon name error).activities = ledger state.activities := by
    have quiet : ledger [.abandoned name error.code] = ⟨[], [], []⟩ := rfl
    rw [CompileState.abandon, note, pop, Ledger.ledger_append, quiet]
    simp [Ledger.append]
  have left : (state.abandon name error).stack = base := by
    simp [CompileState.abandon, note, pop, stack]
  constructor
  · rw [books, left]
    exact (stack ▸ h.balanced).abandon gone
  · rw [books]
    exact h.finished

end CompileState

end DocModel
