import Mathlib.Data.List.Forall2
import DocModel.Proofs.Location.Leaf
import DocModel.Proofs.Validator.Anywhere
import DocModel.Proofs.Validator.Failure

namespace DocModel

/-- The same is said as by another violation, of a place that is seen from further out. -/
structure Violation.Moved (place : String) (violation original : Violation) : Prop where
  path : violation.path = place ++ "." ++ original.path
  problem : violation.problem = original.problem

theorem Violation.Moved.message {place : String} {violation original : Violation}
    (h : violation.Moved place original) : violation.message = original.message := by
  rw [Violation.message, Violation.message, h.path, h.problem, leafName_append_point]

/-- Two checks come to the same value, or to the same violations, those of the one moved. -/
inductive Checked.Moved {α : Type} (place : String) : Checked α → Checked α → Prop
  | ok (value : α) : Moved place (.ok value) (.ok value)
  | error {violations originals : List Violation}
    (told : List.Forall₂ (Violation.Moved place) violations originals) :
    Moved place (.error violations) (.error originals)

/-- A location is written as another one behind a place. -/
structure Location.Moved (place : String) (location other : Location) : Prop where
  render : location.render = place ++ "." ++ other.render
  nonempty : other.render ≠ ""

variable {place : String} {location other : Location}

theorem Location.Moved.extend (h : location.Moved place other) (step : Step) :
    Location.Moved place (location ++ [step]) (other ++ [step]) where
  render := by
    have begun : place ++ "." ++ other.render ≠ "" := by simp
    rw [render_concat, render_concat, h.render]
    cases step with
    | key name => rw [extend_key begun, extend_key h.nonempty, String.append_assoc,
        String.append_assoc, String.append_assoc, String.append_assoc, String.append_assoc]
    | index i => simp only [extend_index, String.append_assoc]
  nonempty := by
    rw [render_concat]
    exact extend_ne_empty h.nonempty step

theorem Location.Moved.violation (h : location.Moved place other) (problem : Problem) :
    Violation.Moved place ⟨location, problem⟩ ⟨other, problem⟩ := ⟨h.render, rfl⟩

theorem Violation.Moved.inEntry {violation original : Violation}
    (h : violation.Moved place original) (key : String) :
    (violation.inEntry key).Moved place (original.inEntry key) :=
  ⟨h.path, congrArg (Problem.inEntry key) h.problem⟩

theorem map_told_of_moved {violations originals : List Violation}
    (moved : List.Forall₂ (Violation.Moved place) violations originals) :
    violations.map (fun violation => (violation.path, violation.message)) =
      originals.map fun original => (place ++ "." ++ original.path, original.message) := by
  induction moved with
  | nil => rfl
  | cons first _ ih => rw [List.map_cons, List.map_cons, first.path, first.message, ih]

theorem forall₂_moved_inEntry {violations originals : List Violation}
    (told : List.Forall₂ (Violation.Moved place) violations originals) (key : String) :
    List.Forall₂ (Violation.Moved place) (violations.map (.inEntry key))
      (originals.map (.inEntry key)) := by
  rw [List.forall₂_map_left_iff, List.forall₂_map_right_iff]
  exact told.imp fun _ _ moved => moved.inEntry key

namespace Checked.Moved

variable {α β : Type} {first first' : Checked α} {next next' : α → Checked β}

theorem fault (h : location.Moved place other) (problem : Problem) :
    Checked.Moved place (.error [⟨location, problem⟩] : Checked α) (.error [⟨other, problem⟩]) :=
  .error (.cons (h.violation problem) .nil)

theorem bind (h : first.Moved place first')
    (rest : ∀ value, (next value).Moved place (next' value)) :
    Checked.Moved place (first >>= next) (first' >>= next') := by
  cases h with
  | ok value => exact rest value
  | error told => exact .error told

theorem map (h : first.Moved place first') (f : α → β) :
    Checked.Moved place (first.map f) (first'.map f) := by
  cases h with
  | ok value => exact .ok (f value)
  | error told => exact .error told

theorem mapError (h : location.Moved place other) (action : Except Problem α) :
    Checked.Moved place (action.mapError fun problem => [⟨location, problem⟩])
      (action.mapError fun problem => [⟨other, problem⟩]) := by
  cases action with
  | ok value => exact .ok value
  | error problem => exact fault h problem

end Checked.Moved

namespace Embedding

variable {document : Location → Json → Checked Json}
  (moves : ∀ location other value, location.Moved place other →
    (document location value).Moved place (document other value))

include moves

theorem checkItems_moved (h : location.Moved place other) (items : List Json) (index : Nat) :
    (checkItems document location index items).Moved place
      (checkItems document other index items) := by
  induction items generalizing index with
  | nil => exact .ok []
  | cons item items ih =>
    apply (moves _ _ item (h.extend (.index index))).bind
    intro out
    apply (ih (index + 1)).bind
    intro outs
    exact .ok (out :: outs)

theorem checkEntries_moved (h : location.Moved place other) (entries : Json.Members) :
    (checkEntries document location entries).Moved place (checkEntries document other entries) := by
  induction entries with
  | nil => exact .ok []
  | cons entry entries ih =>
    obtain ⟨key, entry⟩ := entry
    rw [checkEntries, checkEntries]
    have first := moves _ _ entry (h.extend (.key key))
    -- All four outcomes of the entry and of those behind it are told in the same way.
    generalize document (location ++ [.key key]) entry = one at first ⊢
    generalize document (other ++ [.key key]) entry = one' at first ⊢
    generalize checkEntries document location entries = rest at ih ⊢
    generalize checkEntries document other entries = rest' at ih ⊢
    cases first with
    | ok out =>
      cases ih with
      | ok outs => exact .ok ((key, out) :: outs)
      | error told => exact .error told
    | error told =>
      cases ih with
      | ok outs => exact .error (forall₂_moved_inEntry told key)
      | error others =>
        exact .error (List.rel_append (forall₂_moved_inEntry told key) others)

theorem check_moved (h : location.Moved place other) (embedding : Embedding) (value : Json) :
    (embedding.check document location value).Moved place
      (embedding.check document other value) := by
  cases embedding with
  | one =>
    cases value with
    | obj members => exact moves _ _ _ h
    | _ => exact .fault h _
  | many =>
    cases value with
    | obj members => exact moves _ _ _ h
    | arr items => exact (checkItems_moved moves h items 0).map Json.arr
    | _ => exact .fault h _
  | keyed model =>
    cases value with
    | obj entries => exact (checkEntries_moved moves h entries).map Json.obj
    | _ => exact .fault h _

end Embedding

theorem FieldHead.fill_moved {check check' : Json → Checked Json}
    (moves : ∀ value, (check value).Moved place (check' value)) (h : location.Moved place other)
    (head : FieldHead) (members : Json.Members) :
    (head.fill check location members).Moved place (head.fill check' other members) := by
  cases given : head.given? members with
  | some value =>
    rw [fill_of_given given, fill_of_given given]
    exact (moves value).map (members.insert head.name)
  | none =>
    rw [fill_of_not_given given, fill_of_not_given given]
    cases head.required with
    | true => exact .fault h .missingKey
    | false => exact .ok members

theorem Validator.check_obj_moved {typeName : String} {rejectsUnknown : Bool}
    {rules : List FieldRule} {members : Json.Members}
    (fields : (checkRules rules location members).Moved place (checkRules rules other members))
    (keys : ∀ key, Location.render (location ++ [.key key]) =
      place ++ "." ++ Location.render (other ++ [.key key])) :
    ((Validator.mk typeName rejectsUnknown rules).check location (.obj members)).Moved place
      ((Validator.mk typeName rejectsUnknown rules).check other (.obj members)) := by
  rw [Validator.check, Validator.check]
  apply fields.bind
  intro after
  dsimp only
  split
  · rename_i key unknown
    exact .error (.cons ⟨keys key, rfl⟩ .nil)
  · exact Checked.Moved.ok (Json.obj after)

mutual

theorem Validator.check_moved (validator : Validator) {location other : Location}
    (h : location.Moved place other) (document : Json) :
    (validator.check location document).Moved place (validator.check other document) := by
  match validator with
  | .mk typeName rejectsUnknown rules =>
    cases document with
    | obj members =>
      apply Validator.check_obj_moved
      · apply checkRules_moved
        intro rule mem
        exact h.extend (.key rule.name)
      · intro key
        exact (h.extend (.key key)).render
    | _ =>
      have begun : location.render.isEmpty = false := by simp [h.render]
      have begun' : other.render.isEmpty = false := by simpa using h.nonempty
      simp only [Validator.check, begun, begun']
      exact .fault h _

theorem FieldRule.check_moved (rule : FieldRule) {location other : Location}
    (h : location.Moved place other) (value : Json) :
    (rule.check location value).Moved place (rule.check other value) := by
  match rule with
  | .value head checks =>
    rw [FieldRule.check, FieldRule.check]
    split
    · exact .ok value
    · exact .mapError h _
  | .embedded head embedding nested =>
    rw [FieldRule.check, FieldRule.check]
    split
    · exact .ok value
    · refine Embedding.check_moved ?_ h embedding value
      intro inner outer document moved
      exact Validator.check_moved nested moved document

theorem checkRules_moved (rules : List FieldRule) {location other : Location}
    (h : ∀ rule ∈ rules,
      Location.Moved place (location ++ [.key rule.name]) (other ++ [.key rule.name]))
    (members : Json.Members) :
    (checkRules rules location members).Moved place (checkRules rules other members) := by
  match rules with
  | [] => exact .ok members
  | rule :: rules =>
    rw [List.forall_mem_cons] at h
    rw [checkRules, checkRules]
    have first (value : Json) := FieldRule.check_moved rule h.1 value
    apply (FieldHead.fill_moved first h.1 rule.head members).bind
    intro between
    exact checkRules_moved rules h.2 between

end

theorem render_key (name : String) : Location.render [.key name] = name := rfl

/-- Below a place, a document is judged as on its own, with the place put in front of each path. An
own field whose name is empty would have the path of the document itself. -/
theorem Validator.check_obj_below {validator : Validator}
    (named : ∀ name ∈ validator.fieldNames, name ≠ "") (inside : location.render ≠ "")
    (members : Json.Members) :
    (validator.check location (.obj members)).Moved location.render
      (validator.check [] (.obj members)) := by
  have below (name : String) : Location.render (location ++ [.key name]) =
      location.render ++ "." ++ Location.render ([] ++ [.key name]) := by
    rw [Location.render_concat, Location.extend_key inside, List.nil_append, render_key]
  cases validator with
  | mk typeName rejectsUnknown rules =>
    apply Validator.check_obj_moved
    · apply checkRules_moved
      intro rule mem
      refine ⟨below rule.name, ?_⟩
      rw [List.nil_append, render_key]
      exact named rule.name (List.mem_map_of_mem mem)
    · exact below

/-- Where a document is does not tell whether it passes, nor what comes of it, nor what is said
against it: only each path begins with the place. -/
theorem check_independent_of_place {validator : Validator}
    (named : ∀ name ∈ validator.fieldNames, name ≠ "") {place : String} (inside : place ≠ "") :
    (∃ location : Location, location.render = place) ∧
    ∀ location : Location, location.render = place → ∀ members,
      (∀ out, validator.check location (.obj members) = .ok out ↔
        validator.check [] (.obj members) = .ok out) ∧
      ∀ originals, validator.check [] (.obj members) = .error originals →
        ∃ violations, validator.check location (.obj members) = .error violations ∧
          violations.map (fun violation => (violation.path, violation.message)) =
            originals.map fun original => (place ++ "." ++ original.path, original.message) := by
  constructor
  · exact ⟨[.key place], rfl⟩
  · rintro location rfl members
    constructor
    · intro out
      constructor
      · intro passed
        exact Validator.check_anywhere passed []
      · intro passed
        exact Validator.check_anywhere passed location
    · intro originals failed
      have moved := Validator.check_obj_below named inside members
      rw [failed] at moved
      cases outcome : validator.check location (.obj members) with
      | ok out =>
        rw [outcome] at moved
        cases moved
      | error violations =>
        rw [outcome] at moved
        refine ⟨violations, rfl, ?_⟩
        cases moved with
        | error told => exact map_told_of_moved told

theorem check_independent_of_place_crate :
    ∃ validator violations, baskets.Gives validator ∧
      (∀ name ∈ validator.fieldNames, name ≠ "") ∧ "crate" ≠ "" ∧
      validator.check [.key "crate"] (.obj basket) = .error violations ∧
      violations.map (fun violation => (violation.path, violation.message)) =
        [("crate.things.1.amount", "Invalid key '1': Missing key 'amount'"),
          ("crate.things.3.amount", "Invalid key '3': Missing key 'amount'")] := by
  have ran : (baskets.compile 0 "Basket").result.toOption.any fun compiled =>
      compiled.validator.fieldNames.all (· != "") &&
      (errorOf? (compiled.validator.check [] (.obj basket))).map (·.map fun violation =>
        ("crate" ++ "." ++ violation.path, violation.message)) ==
          some [("crate.things.1.amount", "Invalid key '1': Missing key 'amount'"),
            ("crate.things.3.amount", "Invalid key '3': Missing key 'amount'")] := by
    decide +kernel
  obtain ⟨compiled, given, tested⟩ := Compiler.exists_gives_of_any ran
  obtain ⟨named, shown⟩ := Bool.and_eq_true_iff.1 tested
  obtain ⟨originals, failed, shown⟩ := Option.map_eq_some_iff.1 (beq_iff_eq.1 shown)
  rw [errorOf?_eq_some] at failed
  have named : ∀ name ∈ compiled.validator.fieldNames, name ≠ "" := by simpa using named
  obtain ⟨-, moves⟩ := check_independent_of_place named (show "crate" ≠ "" by decide)
  obtain ⟨-, refused⟩ := moves [.key "crate"] rfl basket
  obtain ⟨violations, failed', told⟩ := refused originals failed
  exact ⟨_, violations, given, named, by decide, failed', told.trans shown⟩

end DocModel
