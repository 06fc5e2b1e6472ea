import DocModel.Proofs.Clean.Rules
import DocModel.Proofs.Json.Renumbered
import DocModel.Validator.Check

namespace DocModel

section

variable {head : FieldHead} {value : Json} {allowed : List Json}

theorem Check.apply_choice_eq_ok {each : Bool} :
    (Check.choice allowed each).apply value = .ok value ↔ isChosen allowed each value := by
  rw [apply]
  split
  · simp_all
  · simp_all

theorem Check.apply_choice_eq_error {each : Bool} :
    (Check.choice allowed each).apply value = .error (.notAChoice allowed) ↔
      ¬ isChosen allowed each value := by
  rw [apply]
  split
  · simp_all
  · simp_all

/-- Wherever the field has the value, it is removed and counted. -/
def FieldHead.Removes (head : FieldHead) (value : Json) : Prop :=
  ∀ (members : Json.Members) (sweep : Sweep), members.get? head.name = some value →
    (head.prune members).run sweep = .ok (members.erase head.name) sweep.countRemoved

/-- Wherever the field has the value, it stays. -/
def FieldHead.Keeps (head : FieldHead) (value : Json) : Prop :=
  ∀ (members : Json.Members) (sweep : Sweep), members.get? head.name = some value →
    (head.prune members).run sweep = .ok members sweep

theorem FieldHead.removes_of_isAmong (h : value.isAmong head.removeIf) : head.Removes value := by
  intro members sweep found
  apply prune_run_of_listed
  rw [found]
  exact h

theorem FieldHead.keeps_of_not_isAmong (h : ¬ value.isAmong head.removeIf) : head.Keeps value := by
  intro members sweep found
  rw [prune_of_unlisted]
  · rfl
  · rw [found]
    exact h

theorem FieldHead.not_removes_and_keeps : ¬ (head.Removes value ∧ head.Keeps value) := by
  intro both
  have found : Json.Members.get? [(head.name, value)] head.name = some value := by
    simp [Json.Members.get?]
  have removed := both.1 _ {} found
  rw [both.2 _ {} found] at removed
  simp [Json.Members.erase] at removed

theorem FieldHead.removes_iff : head.Removes value ↔ value.isAmong head.removeIf := by
  refine ⟨fun removes => ?_, removes_of_isAmong⟩
  apply Classical.byContradiction
  intro unlisted
  exact not_removes_and_keeps ⟨removes, keeps_of_not_isAmong unlisted⟩

theorem FieldHead.keeps_iff : head.Keeps value ↔ ¬ value.isAmong head.removeIf :=
  ⟨fun keeps listed => not_removes_and_keeps ⟨removes_of_isAmong listed, keeps⟩,
    keeps_of_not_isAmong⟩

end

def Json.ofInt (n : Int) : Json := .num (.int n)

/-- The integer is on the list, or one is that is merged with it. -/
def Word.Met (listed : List Int) (n : Int) : Prop := ∃ m ∈ listed, m = n ∨ Merged m n

theorem Json.isAmong_ofInt_iff {listed : List Int} {n : Int} (fits : ∀ m ∈ listed, Word.Fits m)
    (fits' : Word.Fits n) : (ofInt n).isAmong (listed.map ofInt) ↔ Word.Met listed n := by
  rw [isAmong, List.any_map, List.any_eq_true]
  refine exists_congr fun m => and_congr_right fun mem => ?_
  exact Number.int_alike_iff (fits m mem) fits'

/-- Equality by value is reflexive and symmetric, and transitive but over a bridge. Integers are
told apart in it but for those that are merged: a list of integers, to choose from or for removal,
is met by those that it holds, by those merged with them, and by no others. -/
theorem alike_laws {a b c : Json} (distinct : a.Distinct) (distinct' : b.Distinct) :
    a.alike a ∧ (a.alike b ↔ b.alike a) ∧
      (a.alike b → b.alike c → (a.alike c ↔ ¬ Json.Bridges a b c)) ∧
      (∀ m n, Word.Fits m → Word.Fits n →
        ((Json.ofInt m).alike (.ofInt n) ↔ m = n ∨ Word.Merged m n)) ∧
      ∀ listed n, (∀ m ∈ listed, Word.Fits m) → Word.Fits n →
        (((Check.choice (listed.map .ofInt) false).apply (.ofInt n) = .ok (.ofInt n) ↔
            Word.Met listed n) ∧
          ((Check.choice (listed.map .ofInt) false).apply (.ofInt n) =
              .error (.notAChoice (listed.map .ofInt)) ↔ ¬ Word.Met listed n)) ∧
          ∀ head : FieldHead, head.removeIf = listed.map .ofInt →
            (head.Removes (.ofInt n) ↔ Word.Met listed n) ∧
              (head.Keeps (.ofInt n) ↔ ¬ Word.Met listed n) := by
  refine ⟨Json.alike_self distinct, ?_, ?_, ?_, ?_⟩
  · exact ⟨Json.alike_symm distinct distinct', Json.alike_symm distinct' distinct⟩
  · exact Json.alike_trans_iff distinct
  · intro m n fits fits'
    exact Json.Number.int_alike_iff fits fits'
  · intro listed n fits fits'
    rw [Check.apply_choice_eq_ok, Check.apply_choice_eq_error]
    have met := Json.isAmong_ofInt_iff fits fits'
    refine ⟨⟨met, not_congr met⟩, fun head same => ?_⟩
    rw [FieldHead.removes_iff, FieldHead.keeps_iff, same]
    exact ⟨met, not_congr met⟩

/-- A float stands between two signed integers, and two unsigned integers are one to a list. -/
theorem alike_laws_at_limits :
    (Json.arr [.ofInt 9007199254740992]).Distinct ∧
      (Json.arr [.num (.float (.ofInt 9007199254740992))]).Distinct ∧
      ¬ (Json.arr [.ofInt 9007199254740992]).alike (.arr [.ofInt 9007199254740993]) ∧
      Word.Fits 9223372036854775807 ∧ Word.Fits 9223372036854776832 ∧
      (Check.choice [.ofInt 9223372036854775807] false).apply (.ofInt 9223372036854776832) =
        .ok (.ofInt 9223372036854776832) := by
  have left : (Json.arr [.ofInt 9007199254740992]).Distinct := by
    refine .arr fun item mem => ?_
    rw [List.mem_singleton.1 mem]
    exact .num _
  have right : (Json.arr [.num (.float (.ofInt 9007199254740992))]).Distinct := by
    refine .arr fun item mem => ?_
    rw [List.mem_singleton.1 mem]
    exact .num _
  obtain ⟨-, -, passed, -, lists⟩ := alike_laws (c := .arr [.ofInt 9007199254740993]) left right
  have bridges : Json.Bridges (.arr [.ofInt 9007199254740992])
      (.arr [.num (.float (.ofInt 9007199254740992))]) (.arr [.ofInt 9007199254740993]) :=
    .item (.num ⟨rfl, _, _, rfl, rfl, by decide⟩)
  have last : Word.Fits 9223372036854775807 := by decide
  have above : Word.Fits 9223372036854776832 := by decide
  have met : Word.Met [9223372036854775807] 9223372036854776832 :=
    ⟨_, List.mem_singleton_self _, .inr ⟨by decide, by decide, by decide⟩⟩
  refine ⟨left, right, ?_, last, above, ?_⟩
  · intro held
    exact (passed (by decide +kernel) (by decide +kernel)).1 held bridges
  · exact (lists [9223372036854775807] _ (by simpa using last) above).1.1.2 met

/-- The last two unsigned integers are not told apart, and of three numbers the outer two differ. -/
theorem large_integers_confused :
    (Json.ofInt 18446744073709551615).alike (.ofInt 18446744073709551614) ∧
      (Check.choice [.ofInt 18446744073709551615] false).apply (.ofInt 18446744073709551614) =
        .ok (.ofInt 18446744073709551614) ∧
      (Json.ofInt 9007199254740992).alike (.num (.float (.ofInt 9007199254740992))) ∧
      (Json.num (.float (.ofInt 9007199254740992))).alike (.ofInt 9007199254740993) ∧
      ¬ (Json.ofInt 9007199254740992).alike (.ofInt 9007199254740993) := by
  refine ⟨by decide +kernel, ?_, by decide +kernel, by decide +kernel, by decide +kernel⟩
  exact Check.apply_choice_eq_ok.2 (by decide +kernel)

/-- No list, to choose from or for removal, has the one value and not the other. -/
structure Json.SameVerdicts (a b : Json) : Prop where
  chosen : ∀ allowed each,
    (Check.choice allowed each).apply a = .ok a ↔ (Check.choice allowed each).apply b = .ok b
  removed : ∀ head : FieldHead, head.Removes a ↔ head.Removes b

namespace Json

open Number (Equal Identical Steady)

variable {a b : Json} {list : List Json}

theorem isAmong_eq_of_alike (agree : ∀ given : Json, given.alike a ↔ given.alike b) :
    a.isAmong list = b.isAmong list := by
  have each : (alike · a) = (alike · b) := funext fun given => Bool.eq_iff_iff.2 (agree given)
  rw [isAmong, isAmong, each]

theorem isChosen_each_eq (distinct : a.Distinct) (h : Renumbered Equal Equal a b)
    (steady : Renumbered Identical Steady a b) :
    Check.isChosen list true a = Check.isChosen list true b := by
  cases a with
  | arr items =>
    obtain ⟨others, rfl, matched⟩ := Renumbered.arr_iff.1 h
    rw [Renumbered.arr_arr_iff] at steady
    rw [distinct_arr_iff] at distinct
    have agree := (forall₂_congr_of_mem matched fun item mem other _ related =>
      (Renumbered.forall_alike_iff (distinct item mem) related).symm).1 steady
    exact all_eq_all_of_forall₂ (agree.imp fun _ _ => isAmong_eq_of_alike)
  | _ =>
    cases h
    rfl

/-- The verdicts stay exactly if each number that is replaced by one of another form stands in no
object, and neither of the two is a signed integer that another one is rounded to. -/
theorem sameVerdicts_iff (distinct : a.Distinct) (h : Renumbered Equal Equal a b) :
    a.SameVerdicts b ↔ Renumbered Identical Steady a b := by
  rw [← Renumbered.forall_alike_iff distinct h]
  constructor
  · intro verdicts given
    have one := verdicts.chosen [given] false
    rw [Check.apply_choice_eq_ok, Check.apply_choice_eq_ok] at one
    simpa [Check.isChosen, isAmong] using one
  · intro agree
    have steady := (Renumbered.forall_alike_iff distinct h).1 agree
    constructor
    · intro allowed each
      rw [Check.apply_choice_eq_ok, Check.apply_choice_eq_ok]
      cases each with
      | false => exact Bool.eq_iff_iff.1 (isAmong_eq_of_alike agree)
      | true => rw [isChosen_each_eq distinct h steady]
    · intro head
      rw [FieldHead.removes_iff, FieldHead.removes_iff, isAmong_eq_of_alike agree]

end Json

open Json (Renumbered)
open Json.Number (Equal Identical Steady)

/-- A value whose numbers are replaced by equal ones of other forms stays equal to what it was if
and only if none of them stands in an object; and no list tells the two values apart if and only if,
besides, neither they nor the numbers they replace are signed integers that others round to. -/
theorem equal_numbers_alike_iff {a b : Json} (distinct : a.Distinct)
    (h : Renumbered Equal Equal a b) :
    (a.alike b ↔ Renumbered Identical Equal a b) ∧
      (a.SameVerdicts b ↔ Renumbered Identical Steady a b) :=
  ⟨Renumbered.alike_iff distinct h fun _ _ => Json.Number.alike_of_equal,
    Json.sameVerdicts_iff distinct h⟩

/-- In a list a number may take another form, if one that stands in an object keeps its own. -/
theorem equal_numbers_alike_pair :
    (Json.arr [.ofInt 1, .obj [("a", .ofInt 3)]]).Distinct ∧
      Renumbered Equal Equal (.arr [.ofInt 1, .obj [("a", .ofInt 3)]])
        (.arr [.num (.float (.ofInt 1)), .obj [("a", .ofInt 3)]]) ∧
      (Json.arr [.ofInt 1, .obj [("a", .ofInt 3)]]).SameVerdicts
        (.arr [.num (.float (.ofInt 1)), .obj [("a", .ofInt 3)]]) := by
  have distinct : (Json.arr [.ofInt 1, .obj [("a", .ofInt 3)]]).Distinct := by
    simp [Json.distinct_arr_iff, Json.distinct_obj_iff, Json.Members.keys, Json.ofInt,
      Json.Distinct.num]
  have renumbered : ∀ {inside outside : Json.Number → Json.Number → Prop},
      outside (.int 1) (.float (.ofInt 1)) → inside (.int 3) (.int 3) →
        Renumbered inside outside (.arr [.ofInt 1, .obj [("a", .ofInt 3)]])
          (.arr [.num (.float (.ofInt 1)), .obj [("a", .ofInt 3)]]) := by
    intro inside outside one three
    have entry : Renumbered inside inside (.ofInt 3) (.ofInt 3) := .num three
    exact Renumbered.arr_arr_iff.2 <| .cons (.num one) <|
      .cons (Renumbered.obj_obj_iff.2 (.cons ⟨rfl, entry⟩ .nil)) .nil
  have equal : Equal (.int 1) (.float (.ofInt 1)) := by decide +kernel
  have steady : Steady (.int 1) (.float (.ofInt 1)) := by
    refine ⟨equal, .inr fun n signed => ?_⟩
    obtain signed | signed := signed
    · rw [← (Word.signed?_eq_some_iff.1 signed).2]
      exact .inl (by decide)
    · cases signed
  have both : Renumbered Equal Equal _ _ := renumbered equal rfl
  have kept := (equal_numbers_alike_iff distinct both).2.2 (renumbered steady (by decide))
  exact ⟨distinct, both, kept⟩

/-- A number in an object is told apart from an equal one of another form, also by lists. -/
theorem numbers_in_objects_told_apart :
    Renumbered Equal Equal (.obj [("a", .ofInt 1)]) (.obj [("a", .num (.float (.ofInt 1)))]) ∧
      ¬ (Json.obj [("a", .ofInt 1)]).alike (.obj [("a", .num (.float (.ofInt 1)))]) ∧
      (Check.choice [.obj [("a", .ofInt 1)]] false).apply (.obj [("a", .ofInt 1)]) =
        .ok (.obj [("a", .ofInt 1)]) ∧
      (Check.choice [.obj [("a", .ofInt 1)]] false).apply
          (.obj [("a", .num (.float (.ofInt 1)))]) =
        .error (.notAChoice [.obj [("a", .ofInt 1)]]) := by
  refine ⟨?_, by decide +kernel, ?_, ?_⟩
  · exact Renumbered.obj_obj_iff.2 (.cons ⟨rfl, .num (by decide +kernel)⟩ .nil)
  · exact Check.apply_choice_eq_ok.2 (by decide +kernel)
  · exact Check.apply_choice_eq_error.2 (by decide +kernel)

end DocModel
