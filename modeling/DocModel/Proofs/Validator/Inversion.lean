import DocModel.Proofs.Json.Insert
import DocModel.Proofs.Validator.Accept

namespace DocModel

namespace Embedding

variable {document : Location → Json → Checked Json} {location : Location} {index : Nat}
  {item entry : Json} {items outs : List Json} {key : String} {entries after : Json.Members}

theorem checkItems_cons_eq_ok :
    checkItems document location index (item :: items) = .ok outs ↔
      ∃ out rest, document (location ++ [.index index]) item = .ok out ∧
        checkItems document location (index + 1) items = .ok rest ∧ outs = out :: rest := by
  simp only [checkItems, bind_eq_ok, pure, Except.pure, Except.ok.injEq]
  constructor
  · intro checked
    obtain ⟨out, first, rest, others, same⟩ := checked
    exact ⟨out, rest, first, others, same.symm⟩
  · intro checked
    obtain ⟨out, rest, first, others, same⟩ := checked
    exact ⟨out, first, rest, others, same.symm⟩

theorem checkEntries_cons_eq_ok :
    checkEntries document location ((key, entry) :: entries) = .ok after ↔
      ∃ out rest, document (location ++ [.key key]) entry = .ok out ∧
        checkEntries document location entries = .ok rest ∧ after = (key, out) :: rest := by
  rw [checkEntries]
  cases document (location ++ [.key key]) entry with
  | error violations => cases checkEntries document location entries <;> simp
  | ok out =>
    cases checkEntries document location entries with
    | error violations => simp
    | ok rest => simp [eq_comm]

end Embedding

namespace FieldHead

variable {head : FieldHead} {check : Json → Checked Json} {location : Location}
  {members after other : Json.Members} {value : Json} {violations : List Violation}

/-- What a field of a document is checked with: its value or, in the absence of one, its default. -/
def given? (head : FieldHead) (members : Json.Members) : Option Json :=
  (members.get? head.name).or head.default

/-- Whether the check adds a field to a document. -/
def isFilled (head : FieldHead) (members : Json.Members) : Bool :=
  (members.get? head.name).isNone && head.default.isSome

theorem given?_of_present (found : members.get? head.name = some value) :
    head.given? members = some value := by
  rw [given?, found, Option.some_or]

theorem given?_of_absent (absent : members.get? head.name = none) :
    head.given? members = head.default := by
  rw [given?, absent, Option.none_or]

theorem given?_eq_none_iff :
    head.given? members = none ↔ members.get? head.name = none ∧ head.default = none :=
  Option.or_eq_none_iff

theorem given?_congr (same : other.get? head.name = members.get? head.name) :
    head.given? other = head.given? members := by
  rw [given?, given?, same]

theorem isFilled_congr (same : other.get? head.name = members.get? head.name) :
    head.isFilled other = head.isFilled members := by
  rw [isFilled, isFilled, same]

theorem fill_of_given (given : head.given? members = some value) :
    head.fill check location members = (check value).map (members.insert head.name) := by
  cases found : members.get? head.name with
  | some old =>
    rw [given?_of_present found] at given
    cases given
    have mem : head.name ∈ members.keys :=
      Json.Members.get?_isSome_iff.1 (Option.isSome_iff_exists.2 ⟨_, found⟩)
    have same : members.insert head.name = members.set head.name :=
      funext fun _ => Json.Members.insert_of_mem mem
    rw [fill, found, same]
  | none =>
    rw [given?_of_absent found] at given
    have fresh : head.name ∉ members.keys := Json.Members.get?_eq_none_iff.1 found
    have same : members.insert head.name = fun out => members ++ [(head.name, out)] :=
      funext fun _ => Json.Members.insert_of_notMem fresh
    rw [fill, found, given, same]

theorem fill_of_not_given (missing : head.given? members = none) :
    head.fill check location members =
      if head.required then .error [⟨location, .missingKey⟩] else .ok members := by
  obtain ⟨absent, undefaulted⟩ := given?_eq_none_iff.1 missing
  rw [fill, absent, undefaulted]

theorem fill_eq_ok :
    head.fill check location members = .ok after ↔
      (∃ value out, head.given? members = some value ∧ check value = .ok out ∧
        after = members.insert head.name out) ∨
      head.given? members = none ∧ head.required = false ∧ after = members := by
  cases given : head.given? members with
  | some value =>
    rw [fill_of_given given, map_eq_ok]
    constructor
    · intro filled
      obtain ⟨out, checked, same⟩ := filled
      exact .inl ⟨value, out, rfl, checked, same.symm⟩
    · intro either
      obtain ⟨_, out, same, checked, rfl⟩ | ⟨absurd, -⟩ := either
      · cases same
        exact ⟨out, checked, rfl⟩
      · cases absurd
  | none =>
    rw [fill_of_not_given given]
    cases head.required <;> simp [eq_comm]

theorem fill_eq_error :
    head.fill check location members = .error violations ↔
      (∃ value, head.given? members = some value ∧ check value = .error violations) ∨
      head.given? members = none ∧ head.required = true ∧
        violations = [⟨location, .missingKey⟩] := by
  cases given : head.given? members with
  | some value =>
    rw [fill_of_given given, map_eq_error]
    simp
  | none =>
    rw [fill_of_not_given given]
    cases head.required <;> simp [eq_comm]

theorem keys_of_fill_eq (h : head.fill check location members = .ok after) :
    after.keys = members.keys ++ if head.isFilled members then [head.name] else [] := by
  obtain ⟨value, out, given, -, rfl⟩ | ⟨missing, -, rfl⟩ := fill_eq_ok.1 h
  · rw [Json.Members.keys_insert]
    split
    · rename_i mem
      have found := Json.Members.get?_isSome_iff.2 mem
      simp [isFilled, Option.isSome_iff_ne_none.1 found]
    · rename_i fresh
      have absent := Json.Members.get?_eq_none_iff.2 fresh
      rw [given?_of_absent absent] at given
      simp [isFilled, absent, given]
  · simp [isFilled, (given?_eq_none_iff.1 missing).2]

theorem nodup_keys_of_fill (h : head.fill check location members = .ok after)
    (nodup : members.keys.Nodup) : after.keys.Nodup := by
  obtain ⟨value, out, -, -, rfl⟩ | ⟨-, -, rfl⟩ := fill_eq_ok.1 h
  · exact Json.Members.nodup_keys_insert nodup
  · exact nodup

end FieldHead

section

variable {rules : List FieldRule} {rule : FieldRule} {location : Location}
  {members after : Json.Members} {value : Json} {key : String}

theorem checkRules_cons_eq_ok :
    checkRules (rule :: rules) location members = .ok after ↔
      ∃ between, rule.head.fill (fun value => rule.check (location ++ [.key rule.name]) value)
        (location ++ [.key rule.name]) members = .ok between ∧
          checkRules rules location between = .ok after := by
  rw [checkRules, bind_eq_ok]

theorem get?_of_checkRules (h : checkRules rules location members = .ok after)
    (undeclared : key ∉ rules.map FieldRule.name) : after.get? key = members.get? key := by
  induction rules generalizing members with
  | nil =>
    cases h
    rfl
  | cons rule rules ih =>
    rw [List.map_cons, List.mem_cons, not_or] at undeclared
    obtain ⟨between, filled, rest⟩ := checkRules_cons_eq_ok.1 h
    rw [ih rest undeclared.2, FieldHead.get?_of_fill filled undeclared.1]

theorem get?_of_fill_of_mem {between : Json.Members} {check : Json → Checked Json}
    (fresh : rule.name ∉ rules.map FieldRule.name)
    (filled : rule.head.fill check location members = .ok between) :
    ∀ other ∈ rules, between.get? other.head.name = members.get? other.head.name := by
  intro other mem
  apply FieldHead.get?_of_fill filled
  intro same
  exact fresh (List.mem_map.2 ⟨other, mem, same⟩)

theorem keys_of_checkRules_eq (nodup : (rules.map FieldRule.name).Nodup)
    (h : checkRules rules location members = .ok after) :
    after.keys =
      members.keys ++ (rules.filter (·.head.isFilled members)).map FieldRule.name := by
  induction rules generalizing members with
  | nil =>
    cases h
    simp
  | cons rule rules ih =>
    rw [List.map_cons, List.nodup_cons] at nodup
    obtain ⟨between, filled, rest⟩ := checkRules_cons_eq_ok.1 h
    have same : rules.filter (·.head.isFilled between) = rules.filter (·.head.isFilled members) :=
      List.filter_congr fun other mem =>
        FieldHead.isFilled_congr (get?_of_fill_of_mem nodup.1 filled other mem)
    rw [ih nodup.2 rest, same, FieldHead.keys_of_fill_eq filled, List.filter_cons]
    split
    · simp [FieldRule.name]
    · simp

theorem nodup_keys_of_checkRules (h : checkRules rules location members = .ok after)
    (nodup : members.keys.Nodup) : after.keys.Nodup := by
  induction rules generalizing members with
  | nil =>
    cases h
    exact nodup
  | cons rule rules ih =>
    obtain ⟨between, filled, rest⟩ := checkRules_cons_eq_ok.1 h
    exact ih rest (FieldHead.nodup_keys_of_fill filled nodup)

/-- Every field is checked with what was given for it, whatever fields come before it. -/
theorem check_of_checkRules (nodup : (rules.map FieldRule.name).Nodup)
    (h : checkRules rules location members = .ok after) (mem : rule ∈ rules)
    (given : rule.head.given? members = some value) :
    ∃ out, rule.check (location ++ [.key rule.name]) value = .ok out ∧
      after.get? rule.name = some out := by
  induction rules generalizing members with
  | nil => cases mem
  | cons first rules ih =>
    rw [List.map_cons, List.nodup_cons] at nodup
    obtain ⟨between, filled, rest⟩ := checkRules_cons_eq_ok.1 h
    cases mem with
    | head =>
      rw [FieldHead.fill_of_given given, map_eq_ok] at filled
      obtain ⟨out, checked, rfl⟩ := filled
      refine ⟨out, checked, ?_⟩
      rw [get?_of_checkRules rest nodup.1]
      exact Json.Members.get?_insert_self
    | tail _ mem =>
      have same := get?_of_fill_of_mem nodup.1 filled rule mem
      exact ih nodup.2 rest mem ((FieldHead.given?_congr same).trans given)

theorem Validator.check_obj_eq_ok {typeName : String} {rejectsUnknown : Bool} {out : Json} :
    (Validator.mk typeName rejectsUnknown rules).check location (.obj members) = .ok out ↔
      ∃ after, checkRules rules location members = .ok after ∧
        (rejectsUnknown → ∀ key ∈ members.keys, key ∈ rules.map FieldRule.name) ∧
        out = .obj after := by
  rw [Validator.check, bind_eq_ok]
  refine exists_congr fun after => and_congr_right fun checked => ?_
  -- What the rules add is declared.
  have known : (rejectsUnknown → ∀ key ∈ after.keys, key ∈ rules.map FieldRule.name) ↔
      (rejectsUnknown → ∀ key ∈ members.keys, key ∈ rules.map FieldRule.name) := by
    obtain ⟨keep, bound⟩ := keys_of_checkRules checked
    constructor
    · intro known strict key mem
      exact known strict key (keep mem)
    · intro known strict key mem
      obtain mem | mem := List.mem_append.1 (bound mem)
      · exact mem
      · exact known strict key mem
  rw [← known, ← unknownKey_eq_none_iff]
  dsimp only
  cases (if rejectsUnknown then
    after.keys.find? (!(rules.map FieldRule.name).contains ·) else none) with
  | some key => simp [throw, throwThe, MonadExceptOf.throw]
  | none => simp [pure, Except.pure, eq_comm]

end

end DocModel
