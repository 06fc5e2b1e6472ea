import DocModel.Proofs.Compile.Run
import DocModel.Proofs.Log.Line
import DocModel.Proofs.Source.Embeds

namespace DocModel

/-- What a log record tells of the compilation of a type. -/
inductive Mark
  | begun (type : String)
  | completed (type : String)
  | failed (type reason : String)
  | stray (event : String)
deriving DecidableEq

namespace Mark

/-- The event is one of a compilation. -/
def isCompile (event : String) : Bool := "COMPILE_".toList.isPrefixOf event.toList

/-- What the fields of a record tell, by its event. -/
def told? (record : Log.Record) : Option Mark :=
  let type? := record.fields.lookup "type"
  if record.event = "COMPILE_BEGIN" then type?.map begun
  else if record.event = "COMPILE_COMPLETE" then type?.map completed
  else if record.event = "COMPILE_FAILED" then
    type?.bind fun type => (record.fields.lookup "reason").map (failed type)
  else none

/-- Reads a record of a compilation; the others are passed over. -/
def ofRecord? (record : Log.Record) : Option Mark :=
  if isCompile record.event then some ((told? record).getD (stray record.event)) else none

def closed? : Mark → Option String
  | completed type | failed type _ => some type
  | _ => none

def failure? : Mark → Option (String × String)
  | failed type reason => some (type, reason)
  | _ => none

/-- One more type is open, last opened first, or the one that was opened last is closed. -/
def step (opened : List String) : Mark → Option (List String)
  | begun type => some (type :: opened)
  | completed type | failed type _ =>
    match opened with
    | last :: opened => if type = last then some opened else none
    | [] => none
  | stray _ => none

/-- The types that are open after some marks, if each type that is closed is the one that was opened
last. -/
def opened? (marks : List Mark) : Option (List String) := marks.foldlM step []

/-- The types that failed, each with the reason that is given. -/
def failures (marks : List Mark) : List (String × String) := marks.filterMap failure?

/-- Each type is completed after all that it embeds. -/
def Ordered (source : Source) (marks : List Mark) : Prop :=
  ∀ before type, before ++ [completed type] <+: marks →
    ∀ target, source.Embeds type target → completed target ∈ before

section

variable {marks : List Mark} {opened left : List String}

theorem step_of_closed? {mark : Mark} {type : String} (closes : mark.closed? = some type) :
    step opened mark = some left ↔ opened = type :: left := by
  cases mark with
  | begun | stray => cases closes
  | completed | failed =>
    cases closes
    cases opened with
    | nil => simp [step]
    | cons last opened => simp [step, eq_comm]

theorem opened?_concat (mark : Mark) (h : opened? marks = some opened) :
    opened? (marks ++ [mark]) = step opened mark := by
  rw [opened?] at h ⊢
  simp [h]

theorem failures_concat (marks : List Mark) (mark : Mark) :
    failures (marks ++ [mark]) = failures marks ++ mark.failure?.toList := by
  cases h : mark.failure? <;> simp [failures, h]

/-- A type is begun as often as it is closed or left open. -/
theorem count_begun (type : String) (h : marks.foldlM step opened = some left) :
    marks.count (begun type) + opened.count type =
      (marks.filterMap closed?).count type + left.count type := by
  induction marks generalizing opened with
  | nil =>
    cases h
    simp
  | cons mark marks ih =>
    obtain ⟨next, now, rest⟩ := Option.bind_eq_some_iff.1 h
    have later := ih rest
    cases closes : mark.closed? with
    | some other =>
      obtain rfl := (step_of_closed? closes).1 now
      have apart : mark ≠ begun type := by
        rintro rfl
        cases closes
      rw [List.filterMap_cons_some closes, List.count_cons_of_ne apart, List.count_cons,
        List.count_cons]
      omega
    | none =>
      cases mark with
      | begun other =>
        cases now
        rw [List.filterMap_cons_none closes, List.count_cons]
        simp only [List.count_cons, beq_iff_eq, begun.injEq] at later ⊢
        omega
      | completed | failed => cases closes
      | stray event => cases now

theorem stray_notMem (event : String) (h : marks.foldlM step opened = some left) :
    stray event ∉ marks := by
  induction marks generalizing opened with
  | nil => exact List.not_mem_nil
  | cons mark marks ih =>
    obtain ⟨next, now, rest⟩ := Option.bind_eq_some_iff.1 h
    rw [List.mem_cons, not_or]
    refine ⟨?_, ih rest⟩
    rintro rfl
    cases now

theorem count_closed (type : String) (h : failures marks = []) :
    (marks.filterMap closed?).count type = marks.count (completed type) := by
  induction marks with
  | nil => rfl
  | cons mark marks ih =>
    cases mark with
    | failed => cases h
    | _ => simp [closed?, List.filterMap_cons, List.count_cons, ih h]

theorem Ordered.concat {source : Source} {mark : Mark} (h : Ordered source marks)
    (ready : ∀ type, mark = completed type → ∀ target, source.Embeds type target →
      completed target ∈ marks) :
    Ordered source (marks ++ [mark]) := by
  intro before type initial
  obtain whole | initial := List.prefix_concat_iff.1 initial
  · obtain ⟨rfl, last⟩ := List.append_inj' whole rfl
    exact ready type (List.cons.inj last).1.symm
  · exact h before type initial

end

end Mark

namespace Activity

/-- What an activity tells of the compilation of a type. -/
def mark? : Activity → Option Mark
  | compiling name => some (.begun name)
  | compiled name _ => some (.completed name)
  | abandoned name reason => some (.failed name reason.text)
  | _ => none

theorem filterMap_records (activity : Activity) :
    activity.records.filterMap Mark.ofRecord? = activity.mark?.toList := by
  have other : ∀ (event : Log.Event) fields, Mark.ofRecord? (event.record fields) = none := by
    intro event fields
    have apart : Mark.isCompile event.text = false := by cases event <;> decide +kernel
    simp [Mark.ofRecord?, Log.Event.record, apart]
  have compile : Mark.isCompile "COMPILE_BEGIN" ∧ Mark.isCompile "COMPILE_COMPLETE" ∧
      Mark.isCompile "COMPILE_FAILED" := by decide +kernel
  cases activity with
  | compiling name =>
    simp [records, mark?, compileScope, Log.Scope.beginRecord, Mark.ofRecord?, Mark.told?, compile]
  | compiled name fields =>
    rw [records, List.filterMap_cons_none (other _ _)]
    simp [mark?, compileScope, Log.Scope.endRecord, Mark.ofRecord?, Mark.told?, compile]
  | abandoned name reason =>
    simp [records, mark?, compileScope, Log.Scope.endRecord, Mark.ofRecord?, Mark.told?, compile,
      lookup_cons_eq_ite]
  | cleaned name stats =>
    cases changed : stats.changed <;> simp [records, mark?, changed, other]
  | _ => simp [records, mark?, other]

end Activity

/-- The marks of the records that are logged at the given level and above. -/
def marks (minimum : Log.Severity) (activities : List Activity) : List Mark :=
  (Log.atLeast minimum (activities.flatMap Activity.records)).filterMap Mark.ofRecord?

theorem marks_trace (activities : List Activity) :
    marks .trace activities = activities.filterMap Activity.mark? := by
  rw [marks, Log.atLeast_trace]
  induction activities with
  | nil => rfl
  | cons activity activities ih =>
    rw [List.flatMap_cons, List.filterMap_append, ih, Activity.filterMap_records,
      List.filterMap_cons]
    cases activity.mark? <;> rfl

/-- A record of a compilation that ended without a word is none that was expected. -/
theorem ofRecord?_of_incomplete {record : Log.Record} (h : record.event = "COMPILE_INCOMPLETE") :
    Mark.ofRecord? record = some (.stray "COMPILE_INCOMPLETE") := by
  have compile : Mark.isCompile "COMPILE_INCOMPLETE" := by decide +kernel
  simp [Mark.ofRecord?, Mark.told?, h, compile]

/-- The marks of all that is logged in a call. -/
def Outcome.marks {α : Type} (outcome : Outcome α) : List Mark :=
  DocModel.marks .trace outcome.activities

theorem Compiler.marks_load (compiler : Compiler) (name : String) :
    (compiler.load name).2.filterMap Activity.mark? = [] := by
  unfold load Source.load canonical
  generalize compiler.source.canonical (compiler.source.canonical name) = stripped
  cases fetch : compiler.source.fetch stripped with
  | error error => simp [fetch, Activity.mark?]
  | ok found =>
    cases found with
    | none => simp [fetch, Activity.mark?]
    | some document =>
      cases read : Definition.ofJson stripped document with
      | error error => simp [fetch, read, Activity.mark?]
      | ok definition => simp [fetch, read, Activity.mark?]

namespace CompileState

/-- The marks that have been made so far. -/
def marks (state : CompileState) : List Mark := DocModel.marks .trace state.activities

variable {state : CompileState} {name : String}

theorem marks_nil (built : Nat) : ({ built } : CompileState).marks = [] := rfl

theorem marks_noteAll {compiler : Compiler} {result : Except SchemaError Definition}
    {activities : List Activity} (load : compiler.load name = (result, activities)) :
    (state.noteAll activities).marks = state.marks := by
  have quiet := compiler.marks_load name
  rw [load] at quiet
  simp [marks, marks_trace, noteAll, quiet]

theorem marks_enter (state : CompileState) (name : String) :
    (state.enter name).marks = state.marks ++ [.begun name] := by
  simp [marks, marks_trace, enter, note, push, Activity.mark?]

theorem marks_complete (state : CompileState) (name : String) (compiled : Compiled) (fields : Nat) :
    (state.complete name compiled fields).marks = state.marks ++ [.completed name] := by
  simp [marks, marks_trace, complete, note, pop, finish, Activity.mark?]

theorem marks_abandon (state : CompileState) (name : String) (error : Failure) :
    (state.abandon name error).marks = state.marks ++ [.failed name error.code.text] := by
  simp [marks, marks_trace, abandon, note, pop, Activity.mark?]

theorem failures_enter (state : CompileState) (name : String) :
    Mark.failures (state.enter name).marks = Mark.failures state.marks := by
  simp [marks_enter, Mark.failures_concat, Mark.failure?]

theorem failures_complete (state : CompileState) (name : String) (compiled : Compiled)
    (fields : Nat) :
    Mark.failures (state.complete name compiled fields).marks = Mark.failures state.marks := by
  simp [marks_complete, Mark.failures_concat, Mark.failure?]

theorem failures_abandon (state : CompileState) (name : String) (error : Failure) :
    Mark.failures (state.abandon name error).marks =
      Mark.failures state.marks ++ [(name, error.code.text)] := by
  simp [marks_abandon, Mark.failures_concat, Mark.failure?]

/-- What the marks tell of a state: the types that are open are those on the stack, and each
finished type is completed, after all that it embeds. -/
structure Logged (source : Source) (state : CompileState) : Prop where
  opened : Mark.opened? state.marks = some state.stack.reverse
  finished : ∀ name compiled, state.finished.lookup name = some compiled →
    .completed name ∈ state.marks
  ordered : Mark.Ordered source state.marks

variable {source : Source} {base : List String} {next : CompileState}

theorem logged_nil (source : Source) (built : Nat) :
    ({ built } : CompileState).Logged source where
  opened := rfl
  finished := nofun
  ordered := by simp [marks_nil, Mark.Ordered]

theorem Logged.noteAll {compiler : Compiler} {result : Except SchemaError Definition}
    {activities : List Activity} (h : state.Logged source)
    (load : compiler.load name = (result, activities)) :
    (state.noteAll activities).Logged source := by
  constructor
  · rw [marks_noteAll load]
    exact h.opened
  · rw [marks_noteAll load]
    exact h.finished
  · rw [marks_noteAll load]
    exact h.ordered

theorem Logged.enter (h : state.Logged source) (name : String) :
    (state.enter name).Logged source := by
  constructor
  · rw [marks_enter, Mark.opened?_concat _ h.opened]
    simp [Mark.step, CompileState.enter, push, note]
  · intro other compiled found
    rw [marks_enter]
    exact List.mem_append_left _ (h.finished other compiled found)
  · rw [marks_enter]
    exact h.ordered.concat fun type same => by cases same

/-- The type that leaves the stack is the one that was opened last. -/
theorem Logged.close {mark : Mark} (h : state.Logged source) (stack : state.stack = base ++ [name])
    (left : next.stack = base) (marks : next.marks = state.marks ++ [mark])
    (closes : mark.closed? = some name) :
    Mark.opened? next.marks = some next.stack.reverse := by
  rw [marks, Mark.opened?_concat _ h.opened, Mark.step_of_closed? closes, stack, left,
    List.reverse_concat]

theorem Logged.abandon (h : state.Logged source) (stack : state.stack = base ++ [name])
    (error : Failure) : (state.abandon name error).Logged source := by
  constructor
  · refine h.close stack ?_ (marks_abandon ..) rfl
    simp [CompileState.abandon, note, pop, stack]
  · intro other compiled found
    rw [marks_abandon]
    exact List.mem_append_left _ (h.finished other compiled found)
  · rw [marks_abandon]
    exact h.ordered.concat fun type same => by cases same

theorem Logged.complete (h : state.Logged source) (stack : state.stack = base ++ [name])
    (targets : ∀ target, source.Embeds name target →
      ∃ compiled, state.finished.lookup target = some compiled)
    (made : Compiled) (fields : Nat) : (state.complete name made fields).Logged source := by
  constructor
  · refine h.close stack ?_ (marks_complete ..) rfl
    simp [CompileState.complete, note, pop, finish, stack]
  · intro other compiled found
    rw [marks_complete]
    rw [lookup_complete] at found
    split at found
    · rename_i same
      exact List.mem_append_right _ (same ▸ List.mem_cons_self)
    · exact List.mem_append_left _ (h.finished other compiled found)
  · rw [marks_complete]
    refine h.ordered.concat fun type same target embeds => ?_
    cases same
    obtain ⟨compiled, found⟩ := targets target embeds
    exact h.finished target compiled found

end CompileState

end DocModel
