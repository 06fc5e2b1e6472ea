import DocModel.Proofs.Choice
import DocModel.Proofs.Compile.Described
import DocModel.Proofs.Validator.Listed

namespace DocModel

namespace Choice

variable {declared : List Json} {choices : List Choice} {choice : Choice} {index : Nat}
  {item value label : Json} {fault : Fault}

/-- A pair stands for its value and its label, a scalar for itself under its own label. -/
inductive StandsFor : Json → Choice → Prop
  | pair (value label : Json) : StandsFor (.arr [value, label]) ⟨value, label⟩
  | scalar {item : Json} (noItems : ∀ items, item ≠ .arr items)
    (noMembers : ∀ members, item ≠ .obj members) : StandsFor item ⟨item, item⟩

/-- The first thing that is wrong with a list of choices. -/
inductive FirstFault : List Json → Fault → Prop
  | empty : FirstFault [] .empty
  | notAPair {front items rest : List Json} (before : ∀ item ∈ front, Declared item)
    (length : items.length ≠ 2) :
    FirstFault (front ++ .arr items :: rest) (.notAPair front.length items.length)
  | object {front rest : List Json} {members : Json.Members}
    (before : ∀ item ∈ front, Declared item) :
    FirstFault (front ++ .obj members :: rest) (.object front.length)

/-- The first choice whose value is like the given one. -/
structure FirstLike (choices : List Choice) (value : Json) (index : Nat) (choice : Choice) :
    Prop where
  placed : choices[index]? = some choice
  alike : choice.value.alike value
  first : ∀ earlier < index, ∀ other, choices[earlier]? = some other → ¬ other.value.alike value

theorem ofJson_eq_ok_iff : ofJson index item = .ok choice ↔ StandsFor item choice := by
  constructor
  · intro read
    unfold ofJson at read
    split at read
    · cases read
      exact .pair _ _
    · cases read
    · cases read
    · rename_i noItems noMembers
      cases read
      exact .scalar noItems noMembers
  · intro stands
    cases stands with
    | pair value label => rfl
    | scalar noItems noMembers =>
      cases item with
      | arr items => exact absurd rfl (noItems items)
      | obj members => exact absurd rfl (noMembers members)
      | _ => rfl

theorem ofItems_eq_ok_iff (index : Nat) {items : List Json} :
    ofItems index items = .ok choices ↔ List.Forall₂ StandsFor items choices := by
  induction items generalizing index choices with
  | nil => simp [ofItems, eq_comm]
  | cons item items ih =>
    rw [ofItems, bind_eq_ok]
    constructor
    · intro read
      obtain ⟨choice, own, read⟩ := read
      obtain ⟨others, rest, read⟩ := bind_eq_ok.1 read
      cases read
      exact .cons (ofJson_eq_ok_iff.1 own) ((ih _).1 rest)
    · intro stands
      cases stands with
      | cons own rest =>
        exact ⟨_, ofJson_eq_ok_iff.2 own, bind_eq_ok.2 ⟨_, (ih _).2 rest, rfl⟩⟩

theorem ofList_eq_ok_iff :
    ofList declared = .ok choices ↔ declared ≠ [] ∧ List.Forall₂ StandsFor declared choices := by
  rw [ofList, ← ofItems_eq_ok_iff 0, ne_eq, ← List.isEmpty_iff]
  split
  · rename_i empty
    simp [empty]
  · rename_i filled
    simp [filled]

theorem ofList_toPair (h : ofList declared = .ok choices) :
    ofList (choices.map toPair) = .ok choices := by
  rw [ofList_eq_ok_iff, ne_eq, List.map_eq_nil_iff]
  refine ⟨ne_nil_of_ofList h, ?_⟩
  rw [List.forall₂_map_left_iff, List.forall₂_same]
  intro choice _
  exact .pair choice.value choice.label

theorem exists_ofList_iff :
    (∃ choices, ofList declared = .ok choices) ↔
      declared ≠ [] ∧ ∀ item ∈ declared, Declared item := by
  rw [← errorOf?_eq_none, errorOf?_ofList, List.head?_eq_none_iff, faults_eq_nil_iff]

theorem exists_choice_iff : (∃ choice, ofJson index item = .ok choice) ↔ Declared item := by
  rw [← errorOf?_eq_none, errorOf?_ofJson, fault?_eq_none_iff]

theorem ofJson_eq_error_iff :
    ofJson index item = .error fault ↔ fault? index item = some fault := by
  rw [← errorOf?_eq_some, errorOf?_ofJson]

theorem exists_of_ofItems_eq_error {items : List Json} (h : ofItems index items = .error fault) :
    ∃ front item rest, items = front ++ item :: rest ∧ (∀ other ∈ front, Declared other) ∧
      fault? (index + front.length) item = some fault := by
  induction items generalizing index with
  | nil => cases h
  | cons item items ih =>
    rw [ofItems, bind_eq_error] at h
    obtain own | ⟨choice, read, h⟩ := h
    · exact ⟨[], item, items, rfl, by simp, ofJson_eq_error_iff.1 own⟩
    · obtain failed | ⟨others, -, h⟩ := bind_eq_error.1 h
      · obtain ⟨front, other, rest, rfl, before, found⟩ := ih failed
        refine ⟨item :: front, other, rest, rfl, List.forall_mem_cons.2 ⟨?_, before⟩, ?_⟩
        · exact exists_choice_iff.1 ⟨choice, read⟩
        · rwa [List.length_cons, Nat.add_comm front.length, ← Nat.add_assoc]
      · cases h

theorem ofItems_of_fault {front rest : List Json} (before : ∀ item ∈ front, Declared item)
    (found : fault? (index + front.length) item = some fault) :
    ofItems index (front ++ item :: rest) = .error fault := by
  induction front generalizing index with
  | nil =>
    rw [List.nil_append, ofItems, bind_eq_error]
    exact .inl (ofJson_eq_error_iff.2 found)
  | cons first front ih =>
    rw [List.forall_mem_cons] at before
    rw [List.length_cons, Nat.add_comm front.length, ← Nat.add_assoc] at found
    obtain ⟨choice, read⟩ := exists_choice_iff.2 before.1
    rw [List.cons_append, ofItems, bind_eq_error]
    exact .inr ⟨choice, read, bind_eq_error.2 (.inl (ih before.2 found))⟩

theorem ofList_append_cons {front rest : List Json} :
    ofList (front ++ item :: rest) = ofItems 0 (front ++ item :: rest) := by
  rw [ofList, if_neg]
  simp

/-- A list of choices is refused for the first thing that is wrong with it. -/
theorem ofList_eq_error_iff : ofList declared = .error fault ↔ FirstFault declared fault := by
  constructor
  · intro failed
    cases declared with
    | nil =>
      cases failed
      exact .empty
    | cons first others =>
      obtain ⟨front, item, rest, split, before, found⟩ := exists_of_ofItems_eq_error failed
      rw [split]
      rw [Nat.zero_add] at found
      cases item with
      | arr items =>
        rw [fault?] at found
        split at found
        · cases found
        · cases found
          exact .notAPair before ‹_›
      | obj members =>
        cases found
        exact .object before
      | _ => cases found
  · intro first
    cases first with
    | empty => rfl
    | notAPair before length =>
      rw [ofList_append_cons]
      refine ofItems_of_fault before ?_
      rw [fault?, if_neg length, Nat.zero_add]
    | object before =>
      rw [ofList_append_cons]
      refine ofItems_of_fault before ?_
      rw [fault?, Nat.zero_add]

theorem not_declared_of_fault (found : fault? index item = some fault) : ¬ Declared item := by
  intro sound
  have none : fault? index item = none := fault?_eq_none_iff.2 sound
  cases found.symm.trans none

theorem FirstFault.message_eq (h : FirstFault declared fault) :
    (declared = [] ∧ fault.message = "'choices' must not be empty") ∨
      ∃ front item rest text, declared = front ++ item :: rest ∧
        (∀ other ∈ front, Declared other) ∧ ¬ Declared item ∧
        fault.message = "choice #" ++ toString front.length ++ text := by
  cases h with
  | empty => exact .inl ⟨rfl, rfl⟩
  | @notAPair front items rest before length =>
    have found : fault? front.length (.arr items) = some (.notAPair front.length items.length) :=
      if_neg length
    refine .inr ⟨front, .arr items, rest,
      " must be a [value, label] pair, got " ++ (toString items.length ++ " elements"), rfl, before,
      not_declared_of_fault found, ?_⟩
    simp only [Fault.message, String.append_assoc]
    rfl
  | @object front rest members before =>
    have found : fault? front.length (.obj members) = some (.object front.length) := rfl
    exact .inr ⟨front, .obj members, rest, " must be a scalar or a [value, label] pair", rfl,
      before, not_declared_of_fault found, rfl⟩

theorem position?_eq_some_iff :
    position? choices value = some index ↔ ∃ choice, FirstLike choices value index choice := by
  rw [position?, List.findIdx?_eq_some_iff_getElem]
  constructor
  · intro found
    obtain ⟨within, alike, first⟩ := found
    refine ⟨choices[index], List.getElem?_eq_getElem within, alike, ?_⟩
    intro earlier less other placed
    obtain ⟨within', rfl⟩ := List.getElem?_eq_some_iff.1 placed
    exact first earlier less
  · intro found
    obtain ⟨choice, placed, alike, first⟩ := found
    obtain ⟨within, rfl⟩ := List.getElem?_eq_some_iff.1 placed
    refine ⟨within, alike, fun earlier less => ?_⟩
    exact first earlier less _ (List.getElem?_eq_getElem _)

theorem label?_eq_some_iff :
    label? choices value = some label ↔
      ∃ index choice, FirstLike choices value index choice ∧ choice.label = label := by
  have shown : label? choices value =
      (position? choices value).bind fun index => choices[index]?.map (·.label) := by
    rw [label?, List.find?_eq_bind_findIdx?_getElem?, Option.map_bind]
    rfl
  simp only [shown, Option.bind_eq_some_iff, Option.map_eq_some_iff, position?_eq_some_iff]
  constructor
  · intro found
    obtain ⟨index, ⟨other, first⟩, choice, placed, named⟩ := found
    cases placed.symm.trans first.placed
    exact ⟨index, other, first, named⟩
  · intro found
    obtain ⟨index, choice, first, named⟩ := found
    exact ⟨index, ⟨choice, first⟩, choice, first.placed, named⟩

theorem position?_isSome_iff :
    (position? choices value).isSome ↔ value.isAmong (choices.map (·.value)) := by
  rw [position?, List.findIdx?_isSome, Json.isAmong, List.any_map]
  rfl

end Choice

open Choice

variable {p : Property} {choices : List Choice} {location : Location} {value : Json}

/-- The test of its choices comes after all other tests of a property. -/
theorem Property.exists_checks_eq (h : p.choices = some choices) :
    ∃ front, p.checks =
        front ++ [.choice (choices.map (·.value)) (p.type == .primitive .array)] ∧
      ∀ allowed each, .choice allowed each ∉ front := by
  have last : p.choiceChecks =
      [.choice (choices.map (·.value)) (p.type == .primitive .array)] := by
    rw [choiceChecks, h]
    rfl
  by_cases primitive : ∃ type, p.type = .primitive type
  · obtain ⟨type, typed⟩ := primitive
    refine ⟨.type type :: p.limitChecks type, ?_, fun allowed each => ?_⟩
    · rw [checks_of_primitive typed, last, List.cons_append]
    · have other : ∀ check ∈ p.limitChecks type, check ≠ .choice allowed each := by
        unfold limitChecks
        split
        · simp [forall_mem_limits]
        · split
          · simp [forall_mem_limits]
          · simp
      intro mem
      obtain same | mem := List.mem_cons.1 mem
      · cases same
      · exact other _ mem rfl
  · refine ⟨[], ?_, by simp⟩
    rw [checks_of_untyped fun type typed => primitive ⟨type, typed⟩, last, List.nil_append]

theorem FieldRule.check_choice_iff {head : FieldHead} {allowed : List Json} {each : Bool} :
    (∃ out, (FieldRule.value head [.choice allowed each]).check location value = .ok out) ↔
      (value = .null ∧ head.required = false) ∨ Check.isChosen allowed each value := by
  have keep : ∀ check ∈ [Check.choice allowed each], check.kept value = value := by
    simp [Check.kept]
  have alone : (∃ out, (Check.applyAll [.choice allowed each] value).mapError
      (fun problem => [⟨location, problem⟩]) = (.ok out : Checked Json)) ↔
        Check.isChosen allowed each value := by
    simp only [mapError_eq_ok, Check.applyAll_eq_ok keep, exists_and_left, exists_eq, and_true,
      List.forall_mem_singleton, Check.Asks]
  rw [FieldRule.check]
  exact null_or_iff alone

theorem Property.member?_choices (h : p.choices = some choices) (name : String) :
    (p.summary name).member? "choices" = some (.arr (choices.map toPair)) := by
  -- The members before it are those of other keys, whichever of them there are.
  cases given : p.default <;> cases typed : p.type <;>
    simp [Property.summary, Json.member?, Json.Members.get?, Json.optionalMember, given, typed, h,
      lookup_cons_eq_ite]

/-- A list of choices is refused for its first item that is neither a scalar nor a pair, or because
it is empty; else its items are read one by one, and reading them again from the pairs of a summary
gives the same choices. A value is found at the first choice that is like it, and is shown by the
label of that choice. The test of a property passes the values that are found, and `null` where it
is not required; the test of a list passes it if all its items are found. -/
theorem choices_read_found_and_tested (declared : List Json) :
    ((∃ choices, ofList declared = .ok choices) ↔
      declared ≠ [] ∧ ∀ item ∈ declared, Declared item) ∧
    (∀ fault, (ofList declared = .error fault ↔ FirstFault declared fault) ∧
      (FirstFault declared fault → declared ≠ [] →
        ∃ front item rest text, declared = front ++ item :: rest ∧
          (∀ other ∈ front, Declared other) ∧ ¬ Declared item ∧
          fault.message = "choice #" ++ toString front.length ++ text)) ∧
    ∀ choices, ofList declared = .ok choices →
      List.Forall₂ StandsFor declared choices ∧
      ofList (choices.map toPair) = .ok choices ∧
      (∀ value index, position? choices value = some index ↔
        ∃ choice, FirstLike choices value index choice) ∧
      (∀ value label, label? choices value = some label ↔
        ∃ index choice, FirstLike choices value index choice ∧ choice.label = label) ∧
      ∀ p : Property, p.choices = some choices →
        (∀ name, (p.summary name).member? "choices" = some (.arr (choices.map toPair))) ∧
        ((∀ target, p.type ≠ .reference target) →
          ∃ front test, p.checks = front ++ [test] ∧
            (∀ allowed each, .choice allowed each ∉ front) ∧
            (∀ (compiler : Compiler) target owner field state,
              (compiler.compileProperty target owner (field, p)).run state =
                .ok (.value (p.head field) p.checks, []) state) ∧
            (p.type ≠ .primitive .array → ∀ field location value,
              (∃ out, (FieldRule.value (p.head field) [test]).check location value = .ok out) ↔
                (position? choices value).isSome ∨ value = .null ∧ p.required = false) ∧
            (p.type = .primitive .array → ∀ field location items,
              (∃ out,
                (FieldRule.value (p.head field) [test]).check location (.arr items) = .ok out) ↔
                ∀ item ∈ items, (position? choices item).isSome)) := by
  refine ⟨exists_ofList_iff, fun fault => ⟨ofList_eq_error_iff, fun first filled => ?_⟩,
    fun choices read => ?_⟩
  · obtain ⟨empty, -⟩ | named := first.message_eq
    · exact absurd empty filled
    · exact named
  · refine ⟨(ofList_eq_ok_iff.1 read).2, ofList_toPair read, fun _ _ => position?_eq_some_iff,
      fun _ _ => label?_eq_some_iff, fun p given => ⟨p.member?_choices given, fun embeds => ?_⟩⟩
    obtain ⟨front, tests, others⟩ := p.exists_checks_eq given
    refine ⟨front, _, tests, others, ?_, ?_, ?_⟩
    · intro compiler target owner field state
      have plain : (Field.property p).embeds? = none := by
        cases typed : p.type with
        | reference target => exact absurd typed (embeds target)
        | _ => simp [Field.embeds?, typed]
      exact Compiler.run_compileField_plain compiler target plain owner field state
    · intro single field location value
      have whole : (p.type == .primitive .array) = false := beq_eq_false_iff_ne.2 single
      rw [FieldRule.check_choice_iff, whole, or_comm, position?_isSome_iff]
      rfl
    · intro list field location items
      have each : (p.type == .primitive .array) = true := beq_iff_eq.2 list
      have filled : Json.arr items ≠ .null := by simp
      rw [FieldRule.check_choice_iff, each, or_iff_right fun null => filled null.1,
        Check.isChosen, if_pos rfl, List.all_eq_true]
      simp only [position?_isSome_iff]

/-- Posts with a state, which may be left out. -/
def states : Compiler :=
  ⟨Registry.source ⟨[("Post", .obj [("properties", .obj [("state", .obj [("type", .str "string"),
    ("choices", .arr [.str "draft"])])])])]⟩, true⟩

/-- The test of choices passes `null`, which is none of them. -/
theorem null_passes_unlisted :
    ∃ validator, states.Gives validator ∧
      ofList [.str "draft"] = .ok [⟨.str "draft", .str "draft"⟩] ∧
      position? [⟨.str "draft", .str "draft"⟩] .null = none ∧
      validator.check [] (.obj [("state", .null)]) = .ok (.obj [("state", .null)]) := by
  have ran : (states.compile 0 "Post").result.toOption.any fun compiled =>
      compiled.validator.check [] (.obj [("state", .null)]) = .ok (.obj [("state", .null)]) := by
    decide +kernel
  obtain ⟨compiled, given, passed⟩ := Compiler.exists_gives_of_any ran
  exact ⟨_, given, rfl, rfl, of_decide_eq_true passed⟩

end DocModel
