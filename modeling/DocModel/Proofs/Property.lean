import DocModel.Proofs.Field
import DocModel.Proofs.Lists
import DocModel.Validator.Check

namespace DocModel

/-- A value is of a type. -/
inductive Primitive.Typed : Primitive → Json → Prop
  | string (text : String) : Typed .string (.str text)
  | int (value : Int) : Typed .int (.num (.int value))
  | float (value : Json.Number) : Typed .float (.num value)
  | number (value : Json.Number) : Typed .number (.num value)
  | bool (value : Bool) : Typed .bool (.bool value)
  | object (members : Json.Members) : Typed .object (.obj members)
  | array (items : List Json) : Typed .array (.arr items)
  | geoPoint {members : Json.Members} {lat lng : Json.Number}
    (lat : members.get? "lat" = some (.num lat)) (lng : members.get? "lng" = some (.num lng))
    (text : ∀ value, members.get? "text" = some value → value = .null ∨ ∃ text, value = .str text) :
    Typed .geoPoint (.obj members)
  | date {text : String} (valid : Temporal.isDate text.toList) : Typed .date (.str text)
  | dateTime {text : String} (valid : Temporal.isDateTime text.toList) : Typed .dateTime (.str text)
  | time {text : String} (valid : Temporal.isTime text.toList) : Typed .time (.str text)

/-- The value without what its type does not keep: a point has no other members. -/
def Primitive.trim : Primitive → Json → Json
  | .geoPoint, .obj members => .obj (members.filter fun member => pointKeys.contains member.1)
  | _, value => value

theorem Primitive.trim_of_ne_point {type : Primitive} {value : Json} (plain : type ≠ .geoPoint) :
    type.trim value = value := by
  cases type <;> first | rfl | exact absurd rfl plain

theorem Primitive.trim_trim (type : Primitive) (value : Json) :
    type.trim (type.trim value) = type.trim value := by
  by_cases point : type = .geoPoint
  · subst point
    cases value <;> simp [trim, List.filter_filter]
  · rw [trim_of_ne_point point, trim_of_ne_point point]

theorem Primitive.Typed.trim {type : Primitive} {value : Json} (h : type.Typed value) :
    type.Typed (type.trim value) := by
  by_cases point : type = .geoPoint
  · subst point
    cases h with
    | @geoPoint members lat lng hasLat hasLng text =>
      have same : ∀ key, pointKeys.contains key → Json.Members.get?
          (members.filter fun member => pointKeys.contains member.1) key = members.get? key :=
        fun key kept => lookup_filter pointKeys.contains kept
      refine .geoPoint ((same "lat" rfl).trans hasLat) ((same "lng" rfl).trans hasLng) ?_
      rw [same "text" rfl]
      exact text
  · rwa [trim_of_ne_point point]

/-- What the limits of a type bound: a number, or the characters of a text. -/
def Primitive.size? : Primitive → Json → Option Binary64
  | .int, .num n | .float, .num n | .number, .num n => some n.toBinary64
  | .string, .str text => some (.ofInt text.length)
  | _, _ => none

/-- What the choices of a type are compared with: the value, or every element of a list. -/
def Primitive.parts : Primitive → Json → List Json
  | .array, .arr items => items
  | type, value => [type.trim value]

namespace FieldType

/-- A value is of a declared type; documents of a definition are not looked at here. -/
def Typed : FieldType → Json → Prop
  | primitive type, value => type.Typed value
  | _, _ => True

def size? : FieldType → Json → Option Binary64
  | primitive type, value => type.size? value
  | _, _ => none

def parts : FieldType → Json → List Json
  | primitive type, value => type.parts value
  | _, value => [value]

end FieldType

/-- A property admits a value that is of its type, within its limits and among its choices. -/
structure Property.Admits (property : Property) (value : Json) : Prop where
  typed : property.type.Typed value
  within : ∀ size ∈ property.type.size? value,
    (∀ min ∈ property.min, min ≤ size) ∧ ∀ max ∈ property.max, size ≤ max
  chosen : ∀ choices ∈ property.choices, ∀ part ∈ property.type.parts value,
    ∃ choice ∈ choices, choice.value.alike part

namespace Check

variable {value out : Json} {type : Primitive} {property : Property}

theorem admits_iff (plain : type ≠ .geoPoint) : type.admits value ↔ type.Typed value := by
  constructor
  · intro h
    unfold Primitive.admits at h
    split at h
    · exact .string _
    · exact .int _
    · exact .float _
    · exact .number _
    · exact .bool _
    · exact .object _
    · exact absurd rfl plain
    · exact .array _
    · exact .date h
    · exact .dateTime h
    · exact .time h
    · cases h
  · intro typed
    cases typed <;> first | rfl | assumption

theorem checkCoordinate_eq_ok {name : String} {done : Unit} :
    checkCoordinate name value = .ok done ↔ ∃ n, value = .num n := by
  unfold checkCoordinate
  cases value <;> simp [Json.isNumber]

theorem checkPointText_eq_ok {text : Option Json} {done : Unit} :
    checkPointText text = .ok done ↔
      ∀ value, text = some value → value = .null ∨ ∃ text, value = .str text := by
  unfold checkPointText
  cases text with
  | none => simp
  | some value => cases value <;> simp

theorem checkPoint_eq_ok :
    checkPoint value = .ok out ↔
      Primitive.geoPoint.Typed value ∧ out = Primitive.geoPoint.trim value := by
  cases value with
  | obj members =>
    rw [checkPoint, map_eq_ok]
    constructor
    · intro passed
      obtain ⟨kept, trimmed, rfl⟩ := passed
      unfold trimPoint at trimmed
      split at trimmed
      · rename_i lat lng foundLat foundLng
        simp only [bind_eq_ok, checkCoordinate_eq_ok, checkPointText_eq_ok] at trimmed
        obtain ⟨-, ⟨x, rfl⟩, -, ⟨y, rfl⟩, -, text, kept⟩ := trimmed
        cases kept
        exact ⟨.geoPoint foundLat foundLng text, rfl⟩
      · cases trimmed
    · intro expected
      obtain ⟨typed, rfl⟩ := expected
      cases typed with
      | geoPoint lat lng text =>
        refine ⟨_, ?_, rfl⟩
        simp only [trimPoint, lat, lng, bind_eq_ok, checkCoordinate_eq_ok, checkPointText_eq_ok]
        exact ⟨(), ⟨_, rfl⟩, (), ⟨_, rfl⟩, (), text, rfl⟩
  | _ =>
    constructor
    · intro h
      cases h
    · intro expected
      obtain ⟨typed, -⟩ := expected
      cases typed

theorem apply_type :
    (Check.type type).apply value = .ok out ↔ type.Typed value ∧ out = type.trim value := by
  -- A point alone is looked at member by member, and trimmed.
  by_cases point : type = .geoPoint
  · subst point
    exact checkPoint_eq_ok
  · have plain : (Check.type type).apply value =
        if type.admits value then .ok value
        else .error (.mismatch type.name (type.describe value)) := by
      cases type <;> first | rfl | exact absurd rfl point
    rw [plain, Primitive.trim_of_ne_point point, ← admits_iff point, ite_eq_ok]

/-- What a test asks of a value. -/
def Asks (value : Json) : Check → Prop
  | .type expected => expected.Typed value
  | .range bound limit => ∃ n, value = .num n ∧ bound.holds n.toBinary64 limit
  | .length bound limit => bound.holds (.ofInt (textLength value)) limit
  | .choice allowed eachElement => isChosen allowed eachElement value

/-- What a test leaves of a value. -/
def kept (value : Json) : Check → Json
  | .type expected => expected.trim value
  | _ => value

theorem apply_eq_ok {check : Check} :
    check.apply value = .ok out ↔ check.Asks value ∧ out = check.kept value := by
  cases check with
  | type expected => exact apply_type
  | range bound limit =>
    cases value with
    | num n =>
      simp only [apply, Asks, kept, ite_eq_ok, Json.num.injEq, exists_eq_left']
    | _ => simp [apply, Asks]
  | length bound limit => exact ite_eq_ok
  | choice allowed eachElement => exact ite_eq_ok

theorem applyAll_cons (check : Check) (checks : List Check) (value : Json) :
    applyAll (check :: checks) value = check.apply value >>= applyAll checks := rfl

/-- Tests that keep the value all look at the same one. -/
theorem applyAll_eq_ok {checks : List Check} (keep : ∀ check ∈ checks, check.kept value = value) :
    applyAll checks value = .ok out ↔ (∀ check ∈ checks, check.Asks value) ∧ out = value := by
  induction checks with
  | nil => simp [applyAll, pure, Except.pure, eq_comm]
  | cons check checks ih =>
    rw [List.forall_mem_cons] at keep
    rw [applyAll_cons, bind_eq_ok, List.forall_mem_cons, and_assoc, ← ih keep.2]
    simp only [apply_eq_ok, keep.1]
    constructor
    · intro passed
      obtain ⟨_, ⟨asked, rfl⟩, rest⟩ := passed
      exact ⟨asked, rest⟩
    · intro asks
      obtain ⟨asked, rest⟩ := asks
      exact ⟨value, ⟨asked, rfl⟩, rest⟩

theorem isAmong_iff {choices : List Choice} :
    value.isAmong (choices.map (·.value)) ↔ ∃ choice ∈ choices, choice.value.alike value := by
  simp [Json.isAmong, List.any_eq_true]

theorem isChosen_iff {choices : List Choice} (typed : type.Typed value) :
    isChosen (choices.map (·.value)) (type == .array) (type.trim value) ↔
      ∀ part ∈ type.parts value, ∃ choice ∈ choices, choice.value.alike part := by
  by_cases list : type = .array
  · subst list
    cases typed with
    | array items => simp [isChosen, Primitive.trim, Primitive.parts, isAmong_iff]
  · have parts : type.parts value = [type.trim value] := by
      cases type <;> first | rfl | exact absurd rfl list
    simp [isChosen, list, parts, isAmong_iff]

end Check

namespace Property

variable {property : Property} {value : Json} {type : Primitive}

/-- The tests of the limits of a property. -/
def limits (property : Property) (check : Bound → Binary64 → Check) : List Check :=
  (property.min.map (check .min)).toList ++ (property.max.map (check .max)).toList

theorem forall_mem_limits {check : Bound → Binary64 → Check} {P : Check → Prop} :
    (∀ test ∈ property.limits check, P test) ↔
      (∀ min ∈ property.min, P (check .min min)) ∧ ∀ max ∈ property.max, P (check .max max) := by
  cases h : property.min <;> cases h' : property.max <;> simp [limits, h, h']

def choiceChecks (property : Property) : List Check :=
  (property.choices.map fun choices =>
    .choice (choices.map (·.value)) (property.type == .primitive .array)).toList

def limitChecks (property : Property) (type : Primitive) : List Check :=
  if type.isNumeric then property.limits .range
  else if type = .string then property.limits .length
  else []

theorem checks_of_primitive (h : property.type = .primitive type) :
    property.checks = .type type :: (property.limitChecks type ++ property.choiceChecks) := by
  simp [checks, h, limitChecks, limits, choiceChecks]

theorem limits_ask {check : Bound → Binary64 → Check} {size : Binary64}
    (sized : type.size? value = some size)
    (asks : ∀ bound limit, (check bound limit).Asks value ↔ bound.holds size limit) :
    (∀ test ∈ property.limits check, test.Asks value) ↔
      ∀ size ∈ type.size? value,
        (∀ min ∈ property.min, min ≤ size) ∧ ∀ max ∈ property.max, size ≤ max := by
  simp only [forall_mem_limits, asks, Bound.holds, decide_eq_true_eq, sized, Option.mem_some_iff,
    forall_eq']

theorem limitChecks_ask (typed : type.Typed value) :
    (∀ check ∈ property.limitChecks type, check.Asks (type.trim value)) ↔
      ∀ size ∈ type.size? value,
        (∀ min ∈ property.min, min ≤ size) ∧ ∀ max ∈ property.max, size ≤ max := by
  have range : ∀ (n : Json.Number) bound limit,
      (Check.range bound limit).Asks (.num n) ↔ bound.holds n.toBinary64 limit := by
    simp [Check.Asks]
  cases typed with
  | int n => exact limits_ask rfl (range _)
  | float n => exact limits_ask rfl (range _)
  | number n => exact limits_ask rfl (range _)
  | string text => exact limits_ask rfl fun _ _ => Iff.rfl
  | _ => simp [limitChecks, Primitive.isNumeric, Primitive.size?]

theorem kept_choiceChecks : ∀ check ∈ property.choiceChecks, check.kept value = value := by
  cases h : property.choices <;> simp [choiceChecks, h, Check.kept]

theorem kept_limitChecks : ∀ check ∈ property.limitChecks type, check.kept value = value := by
  unfold limitChecks
  split
  · simp [forall_mem_limits, Check.kept]
  · split
    · simp [forall_mem_limits, Check.kept]
    · simp

theorem choiceChecks_ask (h : property.type = .primitive type) (typed : type.Typed value) :
    (∀ check ∈ property.choiceChecks, check.Asks (type.trim value)) ↔
      ∀ choices ∈ property.choices, ∀ part ∈ type.parts value,
        ∃ choice ∈ choices, choice.value.alike part := by
  cases found : property.choices with
  | none => simp [choiceChecks, found]
  | some choices =>
    have list : (property.type == .primitive .array) = (type == .array) := by
      rw [h]
      cases type <;> rfl
    simp [choiceChecks, found, Check.Asks, list, Check.isChosen_iff typed]

theorem checks_of_untyped (h : ∀ type, property.type ≠ .primitive type) :
    property.checks = property.choiceChecks := by
  cases found : property.type with
  | primitive type => exact absurd found (h type)
  | any => simp [checks, found, choiceChecks]
  | reference declared => simp [checks, found, choiceChecks]

theorem choiceChecks_ask_of_untyped (h : ∀ type, property.type ≠ .primitive type) :
    (∀ check ∈ property.choiceChecks, check.Asks value) ↔
      ∀ choices ∈ property.choices, ∃ choice ∈ choices, choice.value.alike value := by
  have list : (property.type == .primitive .array) = false :=
    beq_eq_false_iff_ne.2 (h .array)
  cases found : property.choices with
  | none => simp [choiceChecks, found]
  | some choices =>
    simp [choiceChecks, found, Check.Asks, list, Check.isChosen, Check.isAmong_iff]

/-- The tests of a property pass the values that it admits, and no others. -/
theorem applyAll_checks_iff :
    (∃ out, Check.applyAll property.checks value = .ok out) ↔ property.Admits value := by
  by_cases primitive : ∃ type, property.type = .primitive type
  · obtain ⟨type, h⟩ := primitive
    have keep : ∀ value, ∀ check ∈ property.limitChecks type ++ property.choiceChecks,
        check.kept value = value :=
      fun _ => List.forall_mem_append.2 ⟨kept_limitChecks, kept_choiceChecks⟩
    simp only [checks_of_primitive h, Check.applyAll_cons, bind_eq_ok, Check.apply_type,
      Check.applyAll_eq_ok (keep _), List.forall_mem_append]
    constructor
    · intro passed
      obtain ⟨_, _, ⟨typed, rfl⟩, ⟨limited, chosen⟩, -⟩ := passed
      refine ⟨by rwa [h], ?_, ?_⟩
      · rw [h]
        exact (limitChecks_ask typed).1 limited
      · rw [h]
        exact (choiceChecks_ask h typed).1 chosen
    · intro admits
      obtain ⟨typed, within, chosen⟩ := admits
      rw [h] at typed within chosen
      exact ⟨_, _, ⟨typed, rfl⟩,
        ⟨(limitChecks_ask typed).2 within, (choiceChecks_ask h typed).2 chosen⟩, rfl⟩
  · have untyped : ∀ type, property.type ≠ .primitive type := fun type h => primitive ⟨type, h⟩
    rw [checks_of_untyped untyped]
    simp only [Check.applyAll_eq_ok kept_choiceChecks, choiceChecks_ask_of_untyped untyped]
    obtain ⟨typed, unsized, whole⟩ : property.type.Typed value ∧
        property.type.size? value = none ∧ property.type.parts value = [value] := by
      cases h : property.type with
      | primitive type => exact absurd h (untyped type)
      | _ => exact ⟨trivial, rfl, rfl⟩
    constructor
    · intro passed
      obtain ⟨_, chosen, -⟩ := passed
      refine ⟨typed, by simp [unsized], ?_⟩
      simpa [whole] using chosen
    · intro admits
      obtain ⟨-, -, chosen⟩ := admits
      refine ⟨_, ?_, rfl⟩
      simpa [whole] using chosen

end Property

end DocModel
