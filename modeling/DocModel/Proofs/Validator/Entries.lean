import DocModel.Proofs.Validator.Paths

namespace DocModel

/-- A text with each entry of a map in front that it is about, outermost first. -/
def entryText (keys : List String) (text : String) : String :=
  keys.foldr (fun key text => s!"Invalid key '{key}': {text}") text

theorem Violation.message_inEntries (keys : List String) (violation : Violation) :
    (violation.inEntries keys).message = entryText keys violation.message := by
  induction keys with
  | nil => rfl
  | cons key keys ih =>
    rw [entryText, List.foldr_cons, ← entryText, ← ih]
    rfl

theorem Validator.Orderly.of_occurs {validator inner : Validator} (h : validator.Orderly)
    (occurs : inner.Occurs validator) : inner.Orderly := by
  induction occurs with
  | refl => exact h
  | embedded rule _ ih => exact ih (h.of_embedded rule)

namespace Embedding

variable {document : Location → Json → Checked Json} {location : Location}
  {violations : List Violation} {items outs : List Json} {entries after : Json.Members}

/-- An entry and what comes of it: the same key, with the checked document. -/
def ChecksEntry (document : Location → Json → Checked Json) (location : Location)
    (entry out : String × Json) : Prop :=
  out.1 = entry.1 ∧ document (location ++ [.key entry.1]) entry.2 = .ok out.2

theorem checkEntries_eq_ok :
    checkEntries document location entries = .ok after ↔
      List.Forall₂ (ChecksEntry document location) entries after := by
  induction entries generalizing after with
  | nil => simp [checkEntries, eq_comm]
  | cons entry entries ih =>
    rw [checkEntries_cons_eq_ok]
    constructor
    · rintro ⟨out, rest, first, others, rfl⟩
      exact .cons ⟨rfl, first⟩ (ih.1 others)
    · intro related
      cases related with
      | @cons _ out _ rest first others =>
        obtain ⟨key, out⟩ := out
        obtain ⟨rfl, first⟩ := first
        exact ⟨out, rest, first, ih.2 others, rfl⟩

/-- What is said against one document; nothing if it passes. -/
def said (document : Location → Json → Checked Json) (location : Location) (value : Json) :
    List Violation :=
  (errorOf? (document location value)).getD []

/-- What is said against the entries of a map, in their order. -/
def saidOfEntries (document : Location → Json → Checked Json) (location : Location)
    (entries : Json.Members) : List Violation :=
  entries.flatMap fun entry =>
    (said document (location ++ [.key entry.1]) entry.2).map (.inEntry entry.1)

theorem said_of_ok {value out : Json} (h : document location value = .ok out) :
    said document location value = [] := by
  rw [said, h]
  rfl

theorem said_of_error {value : Json} (h : document location value = .error violations) :
    said document location value = violations := by
  rw [said, h]
  rfl

theorem saidOfEntries_of_ok (h : checkEntries document location entries = .ok after) :
    saidOfEntries document location entries = [] := by
  rw [saidOfEntries, List.flatMap_eq_nil_iff]
  intro entry mem
  obtain ⟨out, passed⟩ := exists_of_checkEntries_eq_ok h mem
  rw [said_of_ok passed, List.map_nil]

theorem exists_checkEntries_eq_ok_iff :
    (∃ after, checkEntries document location entries = .ok after) ↔
      ∀ entry ∈ entries, ∃ out, document (location ++ [.key entry.1]) entry.2 = .ok out := by
  constructor
  · rintro ⟨after, passed⟩ entry mem
    exact exists_of_checkEntries_eq_ok passed mem
  · intro each
    induction entries with
    | nil => exact ⟨[], rfl⟩
    | cons entry entries ih =>
      rw [List.forall_mem_cons] at each
      obtain ⟨out, first⟩ := each.1
      obtain ⟨after, others⟩ := ih each.2
      exact ⟨_, checkEntries_cons_eq_ok.2 ⟨out, after, first, others, rfl⟩⟩

theorem eq_saidOfEntries (h : checkEntries document location entries = .error violations) :
    violations = saidOfEntries document location entries := by
  induction entries generalizing violations with
  | nil => cases h
  | cons entry entries ih =>
    obtain ⟨key, entry⟩ := entry
    rw [saidOfEntries, List.flatMap_cons, ← saidOfEntries]
    rw [checkEntries] at h
    split at h
    · cases h
    · rename_i first rest
      cases h
      rw [said_of_ok first, List.map_nil, List.nil_append]
      exact ih rest
    · rename_i first rest
      cases h
      rw [said_of_error first, saidOfEntries_of_ok rest, List.append_nil]
    · rename_i first rest
      cases h
      rw [said_of_error first, ← ih rest]

/-- Where something is always said against what fails, a key is named if and only if its entry
fails. -/
theorem exists_inEntry_mem_iff
    (told : ∀ place value others, document place value = .error others → others ≠ [])
    (key : String) :
    (∃ violation ∈ saidOfEntries document location entries, ∃ problem,
        violation.problem = .inEntry key problem) ↔
      ∃ entry ∈ entries, entry.1 = key ∧
        ∃ others, document (location ++ [.key entry.1]) entry.2 = .error others := by
  constructor
  · rintro ⟨violation, mem, problem, named⟩
    obtain ⟨entry, held, mem⟩ := List.mem_flatMap.1 mem
    obtain ⟨cause, mem, rfl⟩ := List.mem_map.1 mem
    obtain ⟨same, -⟩ := Problem.inEntry.inj named
    refine ⟨entry, held, same, ?_⟩
    cases outcome : document (location ++ [.key entry.1]) entry.2 with
    | ok out =>
      rw [said_of_ok outcome] at mem
      cases mem
    | error others => exact ⟨others, rfl⟩
  · rintro ⟨entry, held, rfl, others, failed⟩
    obtain ⟨cause, mem⟩ := List.exists_mem_of_ne_nil _ (told _ _ _ failed)
    refine ⟨cause.inEntry entry.1, ?_, cause.problem, rfl⟩
    apply List.mem_flatMap.2
    refine ⟨entry, held, List.mem_map_of_mem ?_⟩
    rwa [said_of_error failed]

theorem checkItems_eq_ok {index : Nat} :
    checkItems document location index items = .ok outs ↔
      outs.length = items.length ∧ ∀ (i : Nat) (item out : Json), items[i]? = some item →
        outs[i]? = some out → document (location ++ [.index (index + i)]) item = .ok out := by
  induction items generalizing index outs with
  | nil => simp [checkItems, eq_comm]
  | cons item items ih =>
    rw [checkItems_cons_eq_ok]
    constructor
    · rintro ⟨out, rest, first, others, rfl⟩
      obtain ⟨long, each⟩ := ih.1 others
      refine ⟨by simp [long], ?_⟩
      rintro (_ | i) other out' found found'
      · cases found
        cases found'
        exact first
      · have passed := each i other out' found found'
        rwa [Nat.add_assoc, Nat.add_comm 1] at passed
    · rintro ⟨long, each⟩
      cases outs with
      | nil => cases long
      | cons out rest =>
        refine ⟨out, rest, each 0 item out rfl rfl, ih.2 ⟨by simpa using long, ?_⟩, rfl⟩
        intro i other out' found found'
        rw [Nat.add_assoc, Nat.add_comm 1]
        exact each (i + 1) other out' found found'

theorem checkItems_eq_error {index : Nat} :
    checkItems document location index items = .error violations ↔
      ∃ before item behind, items = before ++ item :: behind ∧
        (∃ passed, checkItems document location index before = .ok passed) ∧
        document (location ++ [.index (index + before.length)]) item = .error violations := by
  induction items generalizing index with
  | nil => simp [checkItems]
  | cons item items ih =>
    rw [checkItems, bind_eq_error]
    constructor
    · rintro (first | ⟨out, first, later⟩)
      · exact ⟨[], item, items, rfl, ⟨[], rfl⟩, first⟩
      · obtain later | ⟨outs, -, done⟩ := bind_eq_error.1 later
        · obtain ⟨before, failing, behind, rfl, ⟨passed, others⟩, failed⟩ := ih.1 later
          refine ⟨item :: before, failing, behind, rfl, ⟨out :: passed, ?_⟩, ?_⟩
          · exact checkItems_cons_eq_ok.2 ⟨out, passed, first, others, rfl⟩
          · rwa [Nat.add_assoc, Nat.add_comm 1] at failed
        · cases done
    · rintro ⟨before, failing, behind, split, ⟨passed, others⟩, failed⟩
      cases before with
      | nil =>
        cases split
        exact .inl failed
      | cons other before =>
        cases split
        obtain ⟨out, outs, first, later, rfl⟩ := checkItems_cons_eq_ok.1 others
        refine .inr ⟨out, first, bind_eq_error.2 (.inl (ih.2 ?_))⟩
        refine ⟨before, failing, behind, rfl, ⟨outs, later⟩, ?_⟩
        rwa [Nat.add_assoc, Nat.add_comm 1]

theorem exists_checkItems_eq_ok_iff {index : Nat} :
    (∃ outs, checkItems document location index items = .ok outs) ↔
      ∀ (i : Nat) (item : Json), items[i]? = some item →
        ∃ out, document (location ++ [.index (index + i)]) item = .ok out := by
  constructor
  · rintro ⟨outs, passed⟩ i item found
    exact exists_of_checkItems_eq_ok passed found
  · intro each
    induction items generalizing index with
    | nil => exact ⟨[], rfl⟩
    | cons item items ih =>
      obtain ⟨out, first⟩ := each 0 item rfl
      have later : ∀ (i : Nat) (other : Json), items[i]? = some other →
          ∃ out, document (location ++ [.index (index + 1 + i)]) other = .ok out := by
        intro i other found
        rw [Nat.add_assoc, Nat.add_comm 1]
        exact each (i + 1) other found
      obtain ⟨outs, others⟩ := ih later
      exact ⟨_, checkItems_cons_eq_ok.2 ⟨out, outs, first, others, rfl⟩⟩

end Embedding

namespace FieldRule

variable {head : FieldHead} {model : Option String} {nested : Validator} {location : Location}
  {entries : Json.Members} {items : List Json} {out : Json} {violations : List Violation}

theorem check_map_eq_ok :
    (FieldRule.embedded head (.keyed model) nested).check location (.obj entries) = .ok out ↔
      ∃ after, out = .obj after ∧
        List.Forall₂ (Embedding.ChecksEntry nested.check location) entries after := by
  change (Embedding.checkEntries nested.check location entries).map Json.obj = .ok out ↔ _
  rw [map_eq_ok]
  apply exists_congr
  intro after
  rw [Embedding.checkEntries_eq_ok, and_comm, @eq_comm _ out]

theorem exists_check_map_eq_ok_iff :
    (∃ out, (FieldRule.embedded head (.keyed model) nested).check location (.obj entries) =
        .ok out) ↔
      ∀ entry ∈ entries, ∃ out, nested.check (location ++ [.key entry.1]) entry.2 = .ok out := by
  rw [← Embedding.exists_checkEntries_eq_ok_iff]
  exact exists_map_eq_ok

theorem eq_saidOfEntries_of_check
    (h : (FieldRule.embedded head (.keyed model) nested).check location (.obj entries) =
      .error violations) :
    violations = Embedding.saidOfEntries nested.check location entries :=
  Embedding.eq_saidOfEntries (map_eq_error.1 h)

theorem check_list_eq_ok :
    (FieldRule.embedded head .many nested).check location (.arr items) = .ok out ↔
      ∃ outs, out = .arr outs ∧ outs.length = items.length ∧
        ∀ (i : Nat) (item out : Json), items[i]? = some item → outs[i]? = some out →
          nested.check (location ++ [.index i]) item = .ok out := by
  change (Embedding.checkItems nested.check location 0 items).map Json.arr = .ok out ↔ _
  rw [map_eq_ok]
  apply exists_congr
  intro outs
  rw [Embedding.checkItems_eq_ok, and_comm, @eq_comm _ out]
  simp only [Nat.zero_add]

theorem check_list_eq_error :
    (FieldRule.embedded head .many nested).check location (.arr items) = .error violations ↔
      ∃ before item behind, items = before ++ item :: behind ∧
        (∀ (i : Nat) (other : Json), before[i]? = some other →
          ∃ out, nested.check (location ++ [.index i]) other = .ok out) ∧
        nested.check (location ++ [.index before.length]) item = .error violations := by
  change (Embedding.checkItems nested.check location 0 items).map Json.arr = .error violations ↔ _
  rw [map_eq_error, Embedding.checkItems_eq_error]
  simp only [Embedding.exists_checkItems_eq_ok_iff, Nat.zero_add]

end FieldRule

namespace Validator

variable {validator inner nested : Validator} {location : Location} {entries : Json.Members}
  {violation : Violation}

theorem map_told_saidOfEntries (document : Location → Json → Checked Json) (location : Location)
    (entries : Json.Members) :
    (Embedding.saidOfEntries document location entries).map
        (fun violation => (violation.path, violation.message)) =
      entries.flatMap fun entry =>
        (Embedding.said document (location ++ [.key entry.1]) entry.2).map fun own =>
          (own.path, s!"Invalid key '{entry.1}': {own.message}") := by
  rw [Embedding.saidOfEntries, List.map_flatMap]
  simp only [List.map_map]
  rfl

/-- A violation in an entry of a map names the entry first, and then one key for each map on the way
to the document that is refused. -/
theorem Orderly.named_outermost_first (orderly : nested.Orderly)
    (mem : violation ∈ Embedding.saidOfEntries nested.check location entries) :
    ∃ key entry steps keys deepest reached cause, (key, entry) ∈ entries ∧
      nested.Descends entry steps keys deepest reached ∧
      deepest.Refuses (location ++ .key key :: steps) reached cause ∧
      cause.problem.entryKeys = [] ∧ violation.path = cause.path ∧
      violation.message = entryText (key :: keys) cause.message := by
  obtain ⟨⟨key, entry⟩, held, listed⟩ := List.mem_flatMap.1 mem
  obtain ⟨own, told, rfl⟩ := List.mem_map.1 listed
  cases outcome : nested.check (location ++ [.key key]) entry with
  | ok out =>
    rw [Embedding.said_of_ok outcome] at told
    cases told
  | error others =>
    rw [Embedding.said_of_error outcome] at told
    obtain ⟨steps, keys, deepest, reached, cause, descends, refuses, rfl⟩ :=
      orderly.located outcome told
    rw [List.append_assoc] at refuses
    refine ⟨key, entry, steps, keys, deepest, reached, cause, held, descends, refuses,
      refuses.entryKeys_eq, ?_, ?_⟩
    · exact congrArg Location.render (Violation.location_inEntries keys cause)
    · exact cause.message_inEntries (key :: keys)

end Validator

/-- A map of documents passes if and only if each entry does, and else all that is said of any entry
is told, with its key in front. A list stops at the first item that fails. -/
theorem entries_all_told_items_first_told {compiler : Compiler} {validator inner : Validator}
    (given : compiler.Gives validator) (occurs : inner.Occurs validator) :
    (∀ head model nested, .embedded head (.keyed model) nested ∈ inner.rules →
      ∀ location entries,
      let rule := FieldRule.embedded head (.keyed model) nested
      (∀ out, rule.check location (.obj entries) = .ok out ↔
        ∃ after, out = .obj after ∧
          List.Forall₂ (Embedding.ChecksEntry nested.check location) entries after) ∧
      ((∃ out, rule.check location (.obj entries) = .ok out) ↔
        ∀ entry ∈ entries, ∃ out, nested.check (location ++ [.key entry.1]) entry.2 = .ok out) ∧
      ∀ violations, rule.check location (.obj entries) = .error violations →
        violations.map (fun violation => (violation.path, violation.message)) =
          (entries.flatMap fun entry =>
            (Embedding.said nested.check (location ++ [.key entry.1]) entry.2).map fun own =>
              (own.path, s!"Invalid key '{entry.1}': {own.message}")) ∧
        (∀ key,
          (∃ violation ∈ violations, ∃ problem, violation.problem = .inEntry key problem) ↔
            ∃ entry ∈ entries, entry.1 = key ∧
              ∃ others, nested.check (location ++ [.key entry.1]) entry.2 = .error others) ∧
        ∀ violation ∈ violations, ∃ key entry steps keys deepest reached cause,
          (key, entry) ∈ entries ∧ nested.Descends entry steps keys deepest reached ∧
          deepest.Refuses (location ++ .key key :: steps) reached cause ∧
          cause.problem.entryKeys = [] ∧ violation.path = cause.path ∧
          violation.message = entryText (key :: keys) cause.message) ∧
    ∀ head nested, .embedded head .many nested ∈ inner.rules → ∀ location items,
      let rule := FieldRule.embedded head .many nested
      (∀ out, rule.check location (.arr items) = .ok out ↔
        ∃ outs, out = .arr outs ∧ outs.length = items.length ∧
          ∀ (i : Nat) (item out : Json), items[i]? = some item → outs[i]? = some out →
            nested.check (location ++ [.index i]) item = .ok out) ∧
      ∀ violations, rule.check location (.arr items) = .error violations ↔
        ∃ before item behind, items = before ++ item :: behind ∧
          (∀ (i : Nat) (other : Json), before[i]? = some other →
            ∃ out, nested.check (location ++ [.index i]) other = .ok out) ∧
          nested.check (location ++ [.index before.length]) item = .error violations := by
  constructor
  · intro head model nested rule location entries
    have orderly := (given.orderly.of_occurs occurs).of_embedded rule
    refine ⟨fun out => FieldRule.check_map_eq_ok, FieldRule.exists_check_map_eq_ok_iff, ?_⟩
    intro violations failed
    rw [FieldRule.eq_saidOfEntries_of_check failed]
    refine ⟨Validator.map_told_saidOfEntries _ _ _, ?_, ?_⟩
    · apply Embedding.exists_inEntry_mem_iff
      intro place value others refused
      exact (orderly.reports refused).ne_nil
    · intro violation mem
      exact orderly.named_outermost_first mem
  · intro head nested rule location items
    exact ⟨fun out => FieldRule.check_list_eq_ok, fun violations => FieldRule.check_list_eq_error⟩

/-- Three things, of which only the second has an amount. -/
def threeThings : Json.Members :=
  [("1", .obj []), ("2", .obj [("amount", .num (.int 4))]), ("3", .obj [])]

/-- Whether a rule is of a map of things, and refuses the first and the third. -/
def refusesThings : FieldRule → Bool
  | .embedded head (.keyed model) nested =>
    let rule := FieldRule.embedded head (.keyed model) nested
    (errorOf? (rule.check [] (.obj threeThings))).isSome &&
      (threeThings.map fun entry => (errorOf? (nested.check [.key entry.1] entry.2)).isSome) ==
        [true, false, true]
  | _ => false

/-- Whether a rule is of a list of things, and refuses the third behind the second. -/
def refusesSpares : FieldRule → Bool
  | .embedded head .many nested =>
    (errorOf? ((FieldRule.embedded head .many nested).check []
      (.arr (threeThings.tail.map Prod.snd)))).isSome
  | _ => false

theorem entries_all_told_items_first_told_baskets :
    ∃ validator, baskets.Gives validator ∧
      (∃ head model nested violations, .embedded head (.keyed model) nested ∈ validator.rules ∧
        (FieldRule.embedded head (.keyed model) nested).check [] (.obj threeThings) =
          .error violations ∧
        (∃ violation ∈ violations, ∃ problem, violation.problem = .inEntry "1" problem) ∧
        (¬ ∃ violation ∈ violations, ∃ problem, violation.problem = .inEntry "2" problem) ∧
        ∃ violation ∈ violations, ∃ problem, violation.problem = .inEntry "3" problem) ∧
      ∃ head nested violations before item behind, .embedded head .many nested ∈ validator.rules ∧
        threeThings.tail.map Prod.snd = before ++ item :: behind ∧
        nested.check [.index before.length] item = .error violations := by
  have ran : (baskets.compile 0 "Basket").result.toOption.any fun compiled =>
      compiled.validator.rules.any refusesThings && compiled.validator.rules.any refusesSpares := by
    decide +kernel
  obtain ⟨compiled, given, tested⟩ := Compiler.exists_gives_of_any ran
  obtain ⟨things, spares⟩ := Bool.and_eq_true_iff.1 tested
  obtain ⟨maps, lists⟩ := entries_all_told_items_first_told given .refl
  refine ⟨_, given, ?_, ?_⟩
  · obtain ⟨rule, declared, refused⟩ := List.any_eq_true.1 things
    rcases rule with _ | ⟨head, _ | _ | model, nested⟩
    · cases refused
    · cases refused
    · cases refused
    · obtain ⟨failed, each⟩ := Bool.and_eq_true_iff.1 refused
      obtain ⟨violations, failed⟩ := Option.isSome_iff_exists.1 failed
      rw [errorOf?_eq_some] at failed
      obtain ⟨-, -, told⟩ := maps head model nested declared [] threeThings
      obtain ⟨-, named, -⟩ := told violations failed
      have fails (key : String) :
          (∃ violation ∈ violations, ∃ problem, violation.problem = .inEntry key problem) ↔
            ∃ entry ∈ threeThings, entry.1 = key ∧
              (errorOf? (nested.check [.key entry.1] entry.2)).isSome := by
        simp only [named key, List.nil_append, Option.isSome_iff_exists, errorOf?_eq_some]
      refine ⟨head, model, nested, violations, declared, failed, ?_⟩
      rw [fails, fails, fails]
      simpa [threeThings] using each
  · obtain ⟨rule, declared, refused⟩ := List.any_eq_true.1 spares
    rcases rule with _ | ⟨head, _ | _ | model, nested⟩
    · cases refused
    · cases refused
    · obtain ⟨violations, failed⟩ := Option.isSome_iff_exists.1 refused
      rw [errorOf?_eq_some] at failed
      obtain ⟨-, stops⟩ := lists head nested declared [] (threeThings.tail.map Prod.snd)
      obtain ⟨before, item, behind, split, -, stopped⟩ := (stops violations).1 failed
      exact ⟨head, nested, violations, before, item, behind, declared, split, stopped⟩
    · cases refused

end DocModel
