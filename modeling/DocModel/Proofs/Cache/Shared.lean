import Mathlib.Data.List.DropRight
import DocModel.Proofs.Cache.Insert
import DocModel.Proofs.Compile.Registered

namespace DocModel

/-- A cache that callers share, and what each caller has missed there and is compiling. -/
structure Shared where
  cache : Cache
  compiling : Nat → Option (Compiler × String)

namespace Shared

/-- The steps that callers make, each while nobody else touches the cache. Getting a validator by
`Cache.getOrCompile` takes two of them, and anything may happen between. -/
inductive Action
  | get (key : String)
  | insert (key : String) (offer : Compiled)
  | clear
  | lookup (caller : Nat) (compiler : Compiler) (requested : String)
  | finish (caller : Nat) (built : Nat)

/-- What a step answers, and the key that it is about. -/
inductive Event
  | found (key : String) (answer : Option Compiled)
  | stored (key : String) (offer answer : Compiled)
  | failed (key : String) (error : Failure)
  | cleared

/-- Nothing is stored, and nobody is compiling. -/
def fresh : Shared := ⟨.empty, fun _ => none⟩

def await (shared : Shared) (caller : Nat) (missed : Option (Compiler × String)) : Shared :=
  { shared with compiling := Function.update shared.compiling caller missed }

def store (shared : Shared) (key : String) (offer : Compiled) : Event × Shared :=
  let (answer, cache) := shared.cache.insert key offer
  (.stored key offer answer, { shared with cache })

/-- What a step answers and leaves. A caller looks up only when it is not compiling, and finishes
only what it missed. -/
def step (shared : Shared) : Action → Option (Event × Shared)
  | .get key => some (.found key (shared.cache.get? key), shared)
  | .insert key offer => some (shared.store key offer)
  | .clear => some (.cleared, { shared with cache := .empty })
  | .lookup caller compiler requested =>
    match shared.compiling caller with
    | some _ => none
    | none =>
      let key := compiler.canonical requested
      match shared.cache.get? key with
      | some hit => some (.found key (some hit), shared)
      | none => some (.found key none, shared.await caller (some (compiler, key)))
  | .finish caller built =>
    match shared.compiling caller with
    | none => none
    | some (compiler, key) =>
      let idle := shared.await caller none
      match (compiler.compile built key).result with
      | .error error => some (.failed key error, idle)
      | .ok offer => some (idle.store key offer)

/-- The steps that lead from a fresh cache to a state, each with what it answered. -/
inductive Run : Shared → List (Action × Event) → Prop
  | nil : Run fresh []
  | step {shared next action event past} (run : Run shared past)
    (made : shared.step action = some (event, next)) : Run next (past ++ [(action, event)])

namespace Action

def caller? : Action → Option Nat
  | lookup caller _ _ | finish caller _ => some caller
  | get _ | insert _ _ | clear => none

end Action

namespace Event

def key? : Event → Option String
  | found key _ | stored key _ _ | failed key _ => some key
  | cleared => none

/-- The validator that is stored under a key if none is stored there. -/
def offer? (key : String) : Event → Option Compiled
  | stored other offer _ => if key = other then some offer else none
  | found _ _ | failed _ _ | cleared => none

def isCleared : Event → Bool
  | cleared => true
  | found _ _ | stored _ _ _ | failed _ _ => false

/-- What a caller is given. -/
def result? : Event → Option (Except Failure Compiled)
  | found _ answer => answer.map .ok
  | stored _ _ answer => some (.ok answer)
  | failed _ error => some (.error error)
  | cleared => none

/-- What an event does to the cache. -/
def Effect (before after : Cache) : Event → Prop
  | found key answer => answer = before.get? key ∧ after = before
  | stored key offer answer => (answer, after) = before.insert key offer
  | failed _ _ => after = before
  | cleared => after = .empty

/-- The answer is the validator that was stored first under the key, if any; one that is inserted
may be the first itself. -/
def Answers (first : String → Option Compiled) : Event → Prop
  | found key answer => answer = first key
  | stored key offer answer => answer = (first key).getD offer
  | failed _ _ | cleared => True

end Event

/-- The validators that were offered for a key after the last clearing, of which the first one is
stored. -/
def firstOffer (past : List (Action × Event)) (key : String) : Option Compiled :=
  (past.rtakeWhile fun step => !step.2.isCleared).findSome? fun step => step.2.offer? key

variable {shared next last : Shared} {action : Action} {event : Event} {compiler : Compiler}
  {past rest stretch : List (Action × Event)} {requested key other : String} {caller built : Nat}

theorem step_lookup (h : shared.step (.lookup caller compiler requested) = some (event, next)) :
    shared.compiling caller = none ∧
      event = .found (compiler.canonical requested)
        (shared.cache.get? (compiler.canonical requested)) ∧
      (next = shared ∨
        shared.cache.get? (compiler.canonical requested) = none ∧
          next = shared.await caller (some (compiler, compiler.canonical requested))) := by
  simp only [step] at h
  split at h
  · cases h
  · rename_i idle
    split at h
    · rename_i hit found
      cases h
      exact ⟨idle, by rw [found], .inl rfl⟩
    · rename_i absent
      cases h
      exact ⟨idle, by rw [absent], .inr ⟨absent, rfl⟩⟩

theorem step_finish (h : shared.step (.finish caller built) = some (event, next)) :
    ∃ compiler key, shared.compiling caller = some (compiler, key) ∧
      ((∃ error, (compiler.compile built key).result = .error error ∧
          event = .failed key error ∧ next = shared.await caller none) ∨
        ∃ offer, (compiler.compile built key).result = .ok offer ∧
          (event, next) = (shared.await caller none).store key offer) := by
  simp only [step] at h
  split at h
  · cases h
  · rename_i compiler key waits
    refine ⟨compiler, key, waits, ?_⟩
    split at h
    · rename_i error failed
      cases h
      exact .inl ⟨error, failed, rfl, rfl⟩
    · rename_i offer compiled
      cases h
      exact .inr ⟨offer, compiled, rfl⟩

theorem step_lookup_of_absent (caller : Nat) (compiler : Compiler) (requested : String)
    (idle : shared.compiling caller = none)
    (absent : shared.cache.get? (compiler.canonical requested) = none) :
    shared.step (.lookup caller compiler requested) =
      some (.found (compiler.canonical requested) none,
        shared.await caller (some (compiler, compiler.canonical requested))) := by
  simp only [step, idle, absent]

theorem step_finish_of_compiled {offer : Compiled} (caller : Nat)
    (waits : shared.compiling caller = some (compiler, key))
    (compiled : (compiler.compile built key).result = .ok offer) :
    shared.step (.finish caller built) = some ((shared.await caller none).store key offer) := by
  simp only [step, waits, compiled]

/-- Everything a step can do to the cache. -/
theorem effect_of_step (h : shared.step action = some (event, next)) :
    event.Effect shared.cache next.cache := by
  cases action with
  | get key =>
    cases h
    exact ⟨rfl, rfl⟩
  | insert key offer =>
    cases h
    rfl
  | clear =>
    cases h
    rfl
  | lookup caller compiler requested =>
    obtain ⟨-, rfl, rfl | ⟨-, rfl⟩⟩ := step_lookup h
    · exact ⟨rfl, rfl⟩
    · exact ⟨rfl, rfl⟩
  | finish caller built =>
    obtain ⟨compiler, key, -, ⟨error, -, rfl, rfl⟩ | ⟨offer, -, same⟩⟩ := step_finish h
    · rfl
    · cases same
      rfl

namespace Event.Effect

variable {before after : Cache} (effect : event.Effect before after)

include effect

theorem get?_eq (kept : event.isCleared = false) (key : String) :
    after.get? key = (before.get? key).or (event.offer? key) := by
  cases event with
  | found name answer =>
    rw [effect.2, offer?, Option.or_none]
  | stored name offer answer =>
    have inserted : after = (before.insert name offer).2 := congrArg Prod.snd effect
    rw [inserted, Cache.get?_insert, offer?]
  | failed name error =>
    have same : after = before := effect
    rw [same, offer?, Option.or_none]
  | cleared => cases kept

theorem le_entries (kept : event.isCleared = false) : before.entries <+: after.entries := by
  cases event with
  | found name answer => exact effect.2 ▸ List.prefix_rfl
  | stored name offer answer =>
    have inserted : after = (before.insert name offer).2 := congrArg Prod.snd effect
    rw [inserted]
    exact before.prefix_insert name offer
  | failed name error =>
    have same : after = before := effect
    exact same ▸ List.prefix_rfl
  | cleared => cases kept

theorem get?_of_ne (about : event.key? = some key) (apart : other ≠ key) :
    after.get? other = before.get? other := by
  cases event with
  | found name answer => rw [effect.2]
  | stored name offer answer =>
    have inserted : after = (before.insert name offer).2 := congrArg Prod.snd effect
    obtain rfl : name = key := Option.some.inj about
    rw [inserted, Cache.get?_insert_ne apart]
  | failed name error =>
    have same : after = before := effect
    rw [same]
  | cleared => cases about

theorem answers : event.Answers before.get? := by
  cases event with
  | found key answer => exact effect.1
  | stored key offer answer =>
    have given : answer = (before.insert key offer).1 := congrArg Prod.fst effect
    rw [Answers, given, Cache.fst_insert]
  | failed key error => trivial
  | cleared => trivial

end Event.Effect

theorem firstOffer_concat (past : List (Action × Event)) (action : Action) (event : Event)
    (key : String) :
    firstOffer (past ++ [(action, event)]) key =
      if event.isCleared then none else (firstOffer past key).or (event.offer? key) := by
  unfold firstOffer
  rw [List.rtakeWhile_concat]
  cases event.isCleared with
  | true => rfl
  | false => simp [List.findSome?_append]

theorem compiling_await (shared : Shared) (caller other : Nat)
    (missed : Option (Compiler × String)) :
    (shared.await caller missed).compiling other =
      if other = caller then missed else shared.compiling other :=
  Function.update_apply _ _ _ _

/-- The latest step of a caller was a lookup of a name with the key, which was not stored. -/
def Missed (past : List (Action × Event)) (caller : Nat) (compiler : Compiler) (key : String) :
    Prop :=
  ∃ before requested after, key = compiler.canonical requested ∧
    past = before ++ (.lookup caller compiler requested, .found key none) :: after ∧
    ∀ step ∈ after, step.1.caller? ≠ some caller

theorem Missed.concat (h : Missed past caller compiler key) (other : action.caller? ≠ some caller) :
    Missed (past ++ [(action, event)]) caller compiler key := by
  obtain ⟨before, requested, after, canonical, rfl, others⟩ := h
  refine ⟨before, requested, after ++ [(action, event)], canonical, by simp, ?_⟩
  intro step mem
  obtain mem | mem := List.mem_append.1 mem
  · exact others step mem
  · rw [List.mem_singleton.1 mem]
    exact other

namespace Run

/-- What is stored under a key is what was offered first since the last clearing. -/
theorem get?_eq (run : Run shared past) (key : String) :
    shared.cache.get? key = firstOffer past key := by
  induction run with
  | nil => rfl
  | @step shared next action event past run made ih =>
    have effect := effect_of_step made
    rw [firstOffer_concat]
    cases kept : event.isCleared with
    | false => rw [effect.get?_eq kept, ih, if_neg Bool.false_ne_true]
    | true =>
      cases event with
      | cleared =>
        have emptied : next.cache = .empty := effect
        rw [emptied, if_pos rfl]
        rfl
      | found | stored | failed => cases kept

theorem exists_between (run : Run last (past ++ stretch)) :
    ∃ shared, Run shared past ∧
      ((∀ step ∈ stretch, step.2.isCleared = false) →
        shared.cache.entries <+: last.cache.entries) := by
  induction stretch using List.reverseRecOn generalizing last with
  | nil =>
    rw [List.append_nil] at run
    exact ⟨last, run, fun _ => List.prefix_rfl⟩
  | append_singleton stretch step ih =>
    rw [← List.append_assoc] at run
    generalize whole : past ++ stretch ++ [step] = steps at run
    cases run with
    | nil => simp at whole
    | @step shared _ action event before run made =>
      obtain ⟨rfl, latest⟩ := List.append_inj' whole rfl
      obtain rfl := List.singleton_inj.1 latest
      obtain ⟨opening, opened, grown⟩ := ih run
      refine ⟨opening, opened, fun kept => ?_⟩
      have latest := kept (action, event) (List.mem_append_right _ List.mem_cons_self)
      refine (grown fun step mem => kept step (List.mem_append_left _ mem)).trans ?_
      exact (effect_of_step made).le_entries latest

theorem exists_made (run : Run last (past ++ (action, event) :: rest)) :
    ∃ shared next, Run shared past ∧ shared.step action = some (event, next) := by
  have whole : past ++ (action, event) :: rest = past ++ [(action, event)] ++ rest := by simp
  rw [whole] at run
  obtain ⟨next, led, -⟩ := run.exists_between
  generalize same : past ++ [(action, event)] = steps at led
  cases led with
  | nil => simp at same
  | @step shared _ _ _ before run made =>
    obtain ⟨rfl, latest⟩ := List.append_inj' same rfl
    cases List.singleton_inj.1 latest
    exact ⟨shared, next, run, made⟩

theorem missed (run : Run shared past) (waits : shared.compiling caller = some (compiler, key)) :
    Missed past caller compiler key := by
  induction run with
  | nil => cases waits
  | @step shared next action event past run made ih =>
    cases action with
    | get name =>
      cases made
      exact (ih waits).concat (by simp [Action.caller?])
    | insert name offer =>
      cases made
      exact (ih waits).concat (by simp [Action.caller?])
    | clear =>
      cases made
      exact (ih waits).concat (by simp [Action.caller?])
    | lookup other looked requested =>
      obtain ⟨idle, rfl, rfl | ⟨absent, rfl⟩⟩ := step_lookup made
      · refine (ih waits).concat fun same => ?_
        rw [Option.some.inj same, waits] at idle
        cases idle
      · by_cases same : caller = other
        · rw [compiling_await, if_pos same] at waits
          cases waits
          exact ⟨past, requested, [], rfl, by rw [absent, same], by simp⟩
        · rw [compiling_await, if_neg same] at waits
          exact (ih waits).concat fun own => same (Option.some.inj own).symm
    | finish other built =>
      have idle : next.compiling = (shared.await other none).compiling := by
        obtain ⟨_, _, -, ⟨_, -, -, rfl⟩ | ⟨_, -, stored⟩⟩ := step_finish made
        · rfl
        · cases stored
          rfl
      by_cases same : caller = other
      · rw [idle, compiling_await, if_pos same] at waits
        cases waits
      · rw [idle, compiling_await, if_neg same] at waits
        exact (ih waits).concat fun own => same (Option.some.inj own).symm

end Run

/-- A caller that nobody interrupts gets what `Cache.getOrCompile` gives, and leaves that cache. -/
theorem getOrCompile_eq_steps (idle : shared.compiling caller = none) (compiler : Compiler)
    (requested : String) (built : Nat) :
    let made := shared.cache.getOrCompile compiler built requested
    let done : Shared := { shared with cache := made.2 }
    (∃ event, shared.step (.lookup caller compiler requested) = some (event, done) ∧
      event.result? = some made.1.result) ∨
      ∃ event missed answer, shared.step (.lookup caller compiler requested) =
          some (event, missed) ∧ event.result? = none ∧
        missed.step (.finish caller built) = some (answer, done) ∧
          answer.result? = some made.1.result := by
  intro made done
  have unchanged (key : String) :
      (shared.await caller (some (compiler, key))).await caller none = shared := by
    simp only [await, Function.update_idem]
    rw [← idle, Function.update_eq_self]
  have waits (key : String) :
      (shared.await caller (some (compiler, key))).compiling caller = some (compiler, key) := by
    rw [compiling_await, if_pos rfl]
  cases found : shared.cache.get? (compiler.canonical requested) with
  | some hit =>
    have same : made = _ := Cache.getOrCompile_of_stored found built
    refine .inl ⟨.found (compiler.canonical requested) (some hit), ?_, ?_⟩
    · simp only [step, idle, found, done, same]
    · rw [same, Event.result?, Option.map_some]
  | none =>
    refine .inr ⟨.found (compiler.canonical requested) none,
      shared.await caller (some (compiler, compiler.canonical requested)), ?_⟩
    cases compiled : (compiler.compile built (compiler.canonical requested)).result with
    | error error =>
      have same : made = _ := Cache.getOrCompile_of_failed found compiled
      refine ⟨.failed (compiler.canonical requested) error,
        step_lookup_of_absent _ _ _ idle found, rfl, ?_, ?_⟩
      · simp only [step, waits, compiled, unchanged, done, same]
      · rw [same, compiled, Event.result?]
    | ok offer =>
      have same : made = _ := Cache.getOrCompile_of_compiled found compiled
      refine ⟨.stored (compiler.canonical requested) offer offer,
        step_lookup_of_absent _ _ _ idle found, rfl, ?_, ?_⟩
      · rw [step_finish_of_compiled _ (waits _) compiled, unchanged]
        simp only [store, done, same, Cache.insert_of_absent found]
      · rw [same, compiled, Event.result?]

/-- Whatever any number of callers do in any order, every answer about a key is the validator that
was first stored under it since the last clearing. A failed compilation is answered with its error
and stores nothing, a step about one key leaves the others alone, and what is stored stays until
the next clearing. -/
theorem first_stored_stays {steps : List (Action × Event)} (run : Run last steps) :
    (∀ past action event rest, steps = past ++ (action, event) :: rest →
      ∃ shared next, Run shared past ∧ shared.step action = some (event, next) ∧
        event.Answers (firstOffer past) ∧
        (∀ caller built, action = .finish caller built → ∃ compiler key,
          Missed past caller compiler key ∧
          ((∃ error, (compiler.compile built key).result = .error error ∧
              event = .failed key error ∧ next.cache = shared.cache) ∨
            ∃ offer answer, (compiler.compile built key).result = .ok offer ∧
              event = .stored key offer answer)) ∧
        ∀ key other, event.key? = some key → other ≠ key →
          next.cache.get? other = shared.cache.get? other) ∧
    ∀ past stretch rest, steps = past ++ stretch ++ rest →
      (∀ step ∈ stretch, step.2.isCleared = false) →
      ∃ opening closing, Run opening past ∧ Run closing (past ++ stretch) ∧
        opening.cache.entries <+: closing.cache.entries := by
  constructor
  · intro past action event rest split
    rw [split] at run
    obtain ⟨shared, next, led, made⟩ := run.exists_made
    have effect := effect_of_step made
    refine ⟨shared, next, led, made, ?_, ?_, fun _ _ => effect.get?_of_ne⟩
    · rw [← funext led.get?_eq]
      exact effect.answers
    · intro caller built finishes
      rw [finishes] at made
      obtain ⟨compiler, key, waits, came⟩ := step_finish made
      refine ⟨compiler, key, led.missed waits, ?_⟩
      obtain ⟨error, failed, rfl, rfl⟩ | ⟨offer, compiled, same⟩ := came
      · exact .inl ⟨error, failed, rfl, rfl⟩
      · cases same
        exact .inr ⟨offer, _, compiled, rfl⟩
  · intro past stretch rest split kept
    rw [split] at run
    obtain ⟨closing, closed, -⟩ := run.exists_between
    obtain ⟨opening, opened, grown⟩ := closed.exists_between
    exact ⟨opening, closing, opened, closed, grown kept⟩

/-- Three callers miss one name before any of them finishes. The second one is given what the first
one built; the third one, after a clearing, what it built itself. -/
def race (first second third answer : Compiled) (found : Option Compiled) : List (Action × Event) :=
  [(.lookup 0 Compiler.tags "Tag", .found "Tag" none),
    (.lookup 1 Compiler.tags "Tag.json", .found "Tag" none),
    (.lookup 2 Compiler.tags "Tag", .found "Tag" none), (.finish 0 0, .stored "Tag" first first),
    (.finish 1 1, .stored "Tag" second answer), (.clear, .cleared),
    (.finish 2 2, .stored "Tag" third third), (.get "Tag", .found "Tag" found)]

theorem first_stored_stays_race :
    ∃ first second third answer found last, first.identity.serial = 0 ∧
      second.identity.serial = 1 ∧ third.identity.serial = 2 ∧
      Run last (race first second third answer found) ∧ answer = first ∧ found = some third := by
  have compiled (built : Nat) (h : (Compiler.tags.compile built "Tag").result.toOption.any
      (·.identity.serial == built)) :
      ∃ compiled, (Compiler.tags.compile built "Tag").result = .ok compiled ∧
        compiled.identity.serial = built := by
    obtain ⟨compiled, result, serial⟩ := exists_of_any_toOption h
    exact ⟨compiled, result, of_decide_eq_true serial⟩
  obtain ⟨first, compiled₀, serial₀⟩ := compiled 0 (by decide +kernel)
  obtain ⟨second, compiled₁, serial₁⟩ := compiled 1 (by decide +kernel)
  obtain ⟨third, compiled₂, serial₂⟩ := compiled 2 (by decide +kernel)
  have canonical₀ : Compiler.tags.canonical "Tag" = "Tag" := by decide +kernel
  have canonical₁ : Compiler.tags.canonical "Tag.json" = "Tag" := by decide +kernel
  let waiting := some (Compiler.tags, "Tag")
  let missed := ((fresh.await 0 waiting).await 1 waiting).await 2 waiting
  let cleared := (missed.await 0 none).await 1 none
  let last : Shared := { cleared.await 2 none with cache := ⟨[("Tag", third)]⟩ }
  have run : Run last (race first second third first (some third)) := by
    have run := Run.nil.step (step_lookup_of_absent 0 Compiler.tags "Tag" rfl rfl)
    rw [canonical₀] at run
    have run := run.step (step_lookup_of_absent 1 Compiler.tags "Tag.json" rfl rfl)
    rw [canonical₁] at run
    have run := run.step (step_lookup_of_absent 2 Compiler.tags "Tag" rfl rfl)
    rw [canonical₀] at run
    have run := run.step (step_finish_of_compiled 0 rfl compiled₀)
    have run := run.step (step_finish_of_compiled 1 rfl compiled₁)
    have run := run.step (show Shared.step _ .clear = some (.cleared, cleared) from rfl)
    have run := run.step (step_finish_of_compiled 2 rfl compiled₂)
    exact run.step (show last.step (.get "Tag") = some (.found "Tag" (some third), last) from rfl)
  refine ⟨first, second, third, first, some third, last, serial₀, serial₁, serial₂, run, ?_, ?_⟩
  · obtain ⟨_, _, -, -, answers, -⟩ := (first_stored_stays run).1
      ((race first second third first (some third)).take 4) _ _ _ rfl
    exact answers
  · obtain ⟨_, _, -, -, answers, -⟩ := (first_stored_stays run).1
      ((race first second third first (some third)).take 7) _ _ _ rfl
    exact answers

end Shared

end DocModel
