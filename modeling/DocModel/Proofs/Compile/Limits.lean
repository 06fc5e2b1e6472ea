import DocModel.Proofs.Binary64.Order
import DocModel.Proofs.Compile.Resolved
import DocModel.Proofs.Definition.Stated
import DocModel.Proofs.Validator.Listed

namespace DocModel

namespace Word

open Binary64 (nearestInt)

variable {lower upper : Option Int} {n : Int}

/-- The integer is within the limits that there are. -/
def Within (lower upper : Option Int) (n : Int) : Prop :=
  (∀ least ∈ lower, least ≤ n) ∧ ∀ most ∈ upper, n ≤ most

/-- The integer is within the limits, or it is beyond one that is rounded to the same float. -/
def NearlyWithin (lower upper : Option Int) (n : Int) : Prop :=
  (∀ least ∈ lower, least ≤ n ∨ nearestInt least = nearestInt n) ∧
    ∀ most ∈ upper, n ≤ most ∨ nearestInt n = nearestInt most

/-- Limits in order are kept exactly by all integers if none beyond them shares their float. -/
theorem nearlyWithin_iff_within (fits : ∀ limit, limit ∈ lower ∨ limit ∈ upper → Fits limit)
    (ordered : ∀ least ∈ lower, ∀ most ∈ upper, nearestInt least ≤ nearestInt most) :
    (∀ n, Fits n → (NearlyWithin lower upper n ↔ Within lower upper n)) ↔
      (∀ least ∈ lower, Starts least) ∧ ∀ most ∈ upper, Ends most := by
  constructor
  · intro exact
    constructor
    · intro least given
      rw [starts_iff (fits least (.inl given))]
      intro n fits' same
      have nearly : NearlyWithin lower upper n := by
        refine ⟨fun other given' => ?_, fun most given' => ?_⟩
        · cases Option.mem_unique given given'
          exact .inr same.symm
        · rw [← Binary64.nearestInt_le_iff, same]
          exact ordered least given most given'
      exact ((exact n fits').1 nearly).1 least given
    · intro most given
      rw [ends_iff (fits most (.inr given))]
      intro n fits' same
      have nearly : NearlyWithin lower upper n := by
        refine ⟨fun least given' => ?_, fun other given' => ?_⟩
        · rw [← Binary64.nearestInt_le_iff, same]
          exact ordered least given' most given
        · cases Option.mem_unique given given'
          exact .inr same
      exact ((exact n fits').1 nearly).2 most given
  · intro both n fits'
    obtain ⟨starts, ends⟩ := both
    constructor
    · intro nearly
      refine ⟨fun least given => ?_, fun most given => ?_⟩
      · obtain order | same := nearly.1 least given
        · exact order
        · exact (starts_iff (fits least (.inl given))).1 (starts least given) n fits' same.symm
      · obtain order | same := nearly.2 most given
        · exact order
        · exact (ends_iff (fits most (.inr given))).1 (ends most given) n fits' same
    · intro within
      exact ⟨fun least given => .inl (within.1 least given),
        fun most given => .inl (within.2 most given)⟩

end Word

namespace Definition

variable {name field : String} {members : Json.Members} {declared : Json} {p : Property}
  {lower upper : Option Int}

theorem exists_rules_of_property (h : property name field declared = .ok p) :
    ∃ rules, Entry.ofJson declared = .ok rules ∧ p.type = .ofName rules.typeName ∧
      p.min = rules.min ∧ p.max = rules.max ∧
      ∀ min max, rules.min = some min → rules.max = some max → min ≤ max := by
  obtain ⟨rules, read, sound⟩ := exists_entry_of_property h
  rw [property, bind_eq_ok] at h
  obtain ⟨entered, entry, h⟩ := h
  obtain rfl := eq_of_entry_eq_ok read entry
  dsimp only at h
  split at h
  · cases h
  · simp only [FieldFault.within, mapError_eq_ok, bind_eq_ok] at h
    obtain ⟨choices, -, -, -, h⟩ := h
    cases h
    exact ⟨rules, read, rfl, rfl, rfl, sound.range⟩

/-- The limits of an integer property whose entry states them as integers. -/
structure IntLimits (p : Property) (lower upper : Option Int) : Prop where
  typed : p.type = .primitive .int
  min : p.min = lower.map Binary64.ofInt
  max : p.max = upper.map Binary64.ofInt
  ordered : ∀ least ∈ lower, ∀ most ∈ upper, Binary64.ofInt least ≤ Binary64.ofInt most

theorem intLimits_of_property (distinct : members.keys.Nodup)
    (read : property name field (.obj members) = .ok p)
    (typed : members.get? "type" = some (.str "int"))
    (min : members.get? "min" = lower.map .ofInt) (max : members.get? "max" = upper.map .ofInt) :
    IntLimits p lower upper := by
  obtain ⟨rules, entered, type, least, most, ordered⟩ := exists_rules_of_property read
  have stated : ∀ limit : Option Int, limit.map Json.ofInt = (limit.map .int).map .num := by
    intro limit
    rw [Option.map_map]
    rfl
  have named : rules.type = some "int" :=
    (Except.ok.inj ((Entry.stated_of_ofJson Entry.stated_type distinct entered).1 _ typed)).symm
  have smallest := Entry.limit_of_ofJson Entry.stated_min distinct entered rfl
    (min.trans (stated lower))
  have largest := Entry.limit_of_ofJson Entry.stated_max distinct entered rfl
    (max.trans (stated upper))
  rw [Option.map_map] at smallest largest
  refine ⟨?_, least.trans smallest, most.trans largest, ?_⟩
  · rw [type, Entry.typeName, named]
    rfl
  · intro low given high given'
    refine ordered _ _ (smallest.trans ?_) (largest.trans ?_)
    · rw [given]
      rfl
    · rw [given']
      rfl

variable {n : Int}

theorem IntLimits.admits_iff (h : IntLimits p lower upper)
    (fits : ∀ limit, limit ∈ lower ∨ limit ∈ upper → Word.Fits limit) (fits' : Word.Fits n) :
    p.Admits (.ofInt n) ↔ Word.NearlyWithin lower upper n ∧
      ∀ choices ∈ p.choices, ∃ choice ∈ choices, choice.value.alike (.ofInt n) := by
  have limited : ((∀ min ∈ p.min, min ≤ Binary64.ofInt n) ∧ ∀ max ∈ p.max, Binary64.ofInt n ≤ max) ↔
      Word.NearlyWithin lower upper n := by
    rw [h.min, h.max]
    simp only [Option.mem_def, Option.map_eq_some_iff, forall_exists_index, and_imp,
      forall_apply_eq_imp_iff₂]
    refine and_congr (forall₂_congr fun least given => ?_) (forall₂_congr fun most given => ?_)
    · exact Binary64.ofInt_le_iff (fits least (.inl given)) fits'
    · exact Binary64.ofInt_le_iff fits' (fits most (.inr given))
  have size : p.type.size? (.ofInt n) = some (.ofInt n) := by
    rw [h.typed]
    rfl
  have parts : p.type.parts (.ofInt n) = [.ofInt n] := by
    rw [h.typed]
    rfl
  rw [← limited]
  constructor
  · intro admits
    refine ⟨admits.within _ size, fun choices given => ?_⟩
    exact admits.chosen choices given _ (by rw [parts]; exact List.mem_singleton_self _)
  · intro both
    obtain ⟨within, chosen⟩ := both
    constructor
    · rw [h.typed]
      exact .int n
    · intro other same
      cases Option.mem_unique size same
      exact within
    · intro choices given part mem
      rw [parts, List.mem_singleton] at mem
      rw [mem]
      exact chosen choices given

end Definition

namespace Compiler

variable {name field : String} {members : Json.Members} {p : Property} {lower upper : Option Int}

theorem check_plain_iff (declared : Field) {location : Location} {value : Json} :
    (∃ out, (FieldRule.value (declared.head name) declared.checks).check location value = .ok out) ↔
      (value = .null ∧ declared.required = false) ∨ declared.Admits value := by
  have sound :
      (∃ out, ((SchemaField.plain name declared).rule true).check location value = .ok out) ↔
      Satisfies true (.plain name declared) value :=
    SchemaField.check_iff (fun _ _ _ _ same => by cases same) location value
  rw [← satisfies_plain_iff, ← sound, SchemaField.rule]

theorem rounded_le_of_ordered (h : Definition.IntLimits p lower upper)
    (fits : ∀ limit, limit ∈ lower ∨ limit ∈ upper → Word.Fits limit) :
    ∀ least ∈ lower, ∀ most ∈ upper,
      Binary64.nearestInt least ≤ Binary64.nearestInt most := by
  intro least given most given'
  rw [Binary64.nearestInt_le_iff,
    ← Binary64.ofInt_le_iff (fits least (.inl given)) (fits most (.inr given'))]
  exact h.ordered least given most given'

/-- The rule of an integer property whose limits are stated as integers of 64 bits passes, besides
the integers within its limits, those beyond that are rounded to one float with a limit, and no
others. It keeps to the limits exactly if and only if no integer beyond them shares their float. -/
theorem int_limits_rounded (lower upper : Option Int) (distinct : members.keys.Nodup)
    (read : Definition.property name field (.obj members) = .ok p)
    (typed : members.get? "type" = some (.str "int"))
    (min : members.get? "min" = lower.map .ofInt) (max : members.get? "max" = upper.map .ofInt)
    (fits : ∀ limit, limit ∈ lower ∨ limit ∈ upper → Word.Fits limit) :
    ∃ rule : FieldRule,
      (∀ (compiler : Compiler) target owner state,
        (compiler.compileProperty target owner (field, p)).run state = .ok (rule, []) state) ∧
      (∀ location n, Word.Fits n →
        ((∃ out, rule.check location (.ofInt n) = .ok out) ↔ Word.NearlyWithin lower upper n ∧
          ∀ choices ∈ p.choices, ∃ choice ∈ choices, choice.value.alike (.ofInt n))) ∧
      (p.choices = none →
        ((∀ location n, Word.Fits n →
            ((∃ out, rule.check location (.ofInt n) = .ok out) ↔ Word.Within lower upper n)) ↔
          (∀ least ∈ lower, Word.Starts least) ∧ ∀ most ∈ upper, Word.Ends most)) := by
  have limits := Definition.intLimits_of_property distinct read typed min max
  have plain : (Field.property p).embeds? = none := by simp [Field.embeds?, limits.typed]
  have passes : ∀ location n, Word.Fits n →
      ((∃ out, (FieldRule.value (p.head field) p.checks).check location (.ofInt n) = .ok out) ↔
        Word.NearlyWithin lower upper n ∧
          ∀ choices ∈ p.choices, ∃ choice ∈ choices, choice.value.alike (.ofInt n)) := by
    intro location n fits'
    have number : Json.ofInt n ≠ .null := by simp [Json.ofInt]
    rw [← limits.admits_iff fits fits']
    exact (check_plain_iff (.property p)).trans (or_iff_right fun null => number null.1)
  refine ⟨.value (p.head field) p.checks, ?_, passes, ?_⟩
  · intro compiler target owner state
    exact run_compileField_plain compiler target plain owner field state
  · intro free
    rw [← Word.nearlyWithin_iff_within fits (rounded_le_of_ordered limits fits)]
    constructor
    · intro exact n fits'
      rw [← exact [] n fits', passes [] n fits', free]
      simp
    · intro exact location n fits'
      rw [passes location n fits', free, ← exact n fits']
      simp

/-- A number of views, from an odd integer past `2 ^ 53` to the largest one of 64 bits. -/
def views : Json.Members :=
  [("type", .str "int"), ("min", .ofInt 9007199254740993), ("max", .ofInt 18446744073709551615)]

theorem int_limits_rounded_views :
    ∃ p rule, Definition.property "Page" "views" (.obj views) = .ok p ∧
      (∀ (compiler : Compiler) target owner state,
        (compiler.compileProperty target owner ("views", p)).run state = .ok (rule, []) state) ∧
      (∃ out, rule.check [] (.ofInt 9007199254740992) = .ok out) ∧
      (¬ ∃ out, rule.check [] (.ofInt 9007199254740991) = .ok out) ∧
      ¬ ∀ location n, Word.Fits n → ((∃ out, rule.check location (.ofInt n) = .ok out) ↔
        Word.Within (some 9007199254740993) (some 18446744073709551615) n) := by
  have stated : (Definition.property "Page" "views" (.obj views)).toOption.any
      (·.choices.isNone) := by
    decide +kernel
  obtain ⟨p, read, free⟩ := exists_of_any_toOption stated
  have fits : ∀ limit : Int, limit ∈ some 9007199254740993 ∨ limit ∈ some 18446744073709551615 →
      Word.Fits limit := by
    rintro _ (⟨⟨⟩⟩ | ⟨⟨⟩⟩) <;> decide
  obtain ⟨rule, compiles, passes, exact⟩ :=
    int_limits_rounded (some _) (some _) (by decide) read rfl rfl rfl fits
  have passes : ∀ n, Word.Fits n → ((∃ out, rule.check [] (.ofInt n) = .ok out) ↔
      Word.NearlyWithin (some 9007199254740993) (some 18446744073709551615) n) := by
    intro n fits'
    rw [passes [] n fits', Option.isNone_iff_eq_none.1 free]
    simp
  refine ⟨p, rule, read, compiles, ?_, ?_, ?_⟩
  · rw [passes _ (by decide)]
    constructor
    · rintro _ ⟨⟩
      exact .inr (by decide +kernel)
    · rintro _ ⟨⟩
      exact .inl (by decide)
  · rw [passes _ (by decide)]
    intro nearly
    exact absurd (nearly.1 _ rfl) (by decide +kernel)
  · rw [exact (Option.isNone_iff_eq_none.1 free)]
    intro both
    exact absurd (both.1 _ rfl) (by decide +kernel)

/-- Pages with so many views at least. -/
def viewed : Compiler :=
  ⟨Registry.source ⟨[("Page", .obj [("properties", .obj [("views", .obj views)])])]⟩, true⟩

/-- The integer just below the limit passes. -/
theorem lower_limit_undercut :
    ∃ validator, viewed.Gives validator ∧
      validator.check [] (.obj [("views", .ofInt 9007199254740992)]) =
        .ok (.obj [("views", .ofInt 9007199254740992)]) ∧
      ¬ Word.Within (some 9007199254740993) (some 18446744073709551615) 9007199254740992 := by
  have ran : (viewed.compile 0 "Page").result.toOption.any fun compiled =>
      compiled.validator.check [] (.obj [("views", .ofInt 9007199254740992)]) =
        .ok (.obj [("views", .ofInt 9007199254740992)]) := by
    decide +kernel
  obtain ⟨compiled, given, passed⟩ := exists_gives_of_any ran
  refine ⟨_, given, of_decide_eq_true passed, fun within => ?_⟩
  exact absurd (within.1 _ rfl) (by decide)

end Compiler

end DocModel
