import Mathlib.Data.List.Basic
import DocModel.Choice
import DocModel.Proofs.Except

namespace DocModel

namespace Choice

/-- What is wrong with an item of a list of choices. -/
def fault? (index : Nat) : Json → Option Fault
  | .arr items => if items.length = 2 then none else some (.notAPair index items.length)
  | .obj _ => some (.object index)
  | _ => none

/-- What is wrong with a list of choices, item by item. -/
def faults (declared : List Json) : List Fault :=
  if declared.isEmpty then [.empty]
  else declared.zipIdx.filterMap fun placed => fault? placed.2 placed.1

/-- A declared choice is a scalar or a pair. -/
def Declared (item : Json) : Prop :=
  (∃ value label, item = .arr [value, label]) ∨
    (∀ items, item ≠ .arr items) ∧ ∀ members, item ≠ .obj members

theorem fault?_eq_none_iff {index : Nat} {item : Json} :
    fault? index item = none ↔ Declared item := by
  cases item with
  | arr items => simp [fault?, Declared, List.length_eq_two]
  | _ => simp [fault?, Declared]

theorem faults_eq_nil_iff {declared : List Json} :
    faults declared = [] ↔ declared ≠ [] ∧ ∀ item ∈ declared, Declared item := by
  cases declared with
  | nil => simp [faults]
  | cons item items =>
    have each : (item :: items).zipIdx.filterMap (fun placed => fault? placed.2 placed.1) = [] ↔
        ∀ other ∈ item :: items, Declared other := by
      rw [List.filterMap_eq_nil_iff]
      constructor
      · intro sound other mem
        obtain ⟨index, placed⟩ := List.mem_iff_getElem?.1 mem
        have mem' : (other, index) ∈ (item :: items).zipIdx := List.mem_zipIdx_iff_getElem?.2 placed
        exact fault?_eq_none_iff.1 (sound _ mem')
      · intro sound placed mem
        exact fault?_eq_none_iff.2 (sound _ (List.fst_mem_of_mem_zipIdx mem))
    simp only [faults, List.isEmpty_cons, Bool.false_eq_true, if_false, each, ne_eq, reduceCtorEq,
      not_false_eq_true, true_and]

theorem errorOf?_ofJson (index : Nat) (item : Json) :
    errorOf? (ofJson index item) = fault? index item := by
  cases item with
  | arr items =>
    match items with
    | [] => rfl
    | [_] => rfl
    | [_, _] => rfl
    | _ :: _ :: _ :: _ => simp [ofJson, fault?, errorOf?]
  | _ => rfl

theorem errorOf?_ofItems (index : Nat) (items : List Json) :
    errorOf? (ofItems index items) =
      ((items.zipIdx index).filterMap fun placed => fault? placed.2 placed.1).head? := by
  induction items generalizing index with
  | nil => rfl
  | cons item items ih =>
    have own : errorOf? (ofJson index item) = (fault? index item).toList.head? := by
      rw [errorOf?_ofJson, Option.head?_toList]
    have rest : ∀ choice, errorOf? (do return choice :: (← ofItems (index + 1) items)) =
        ((items.zipIdx (index + 1)).filterMap fun placed => fault? placed.2 placed.1).head? := by
      intro choice
      rw [← ih]
      cases ofItems (index + 1) items <;> rfl
    rw [ofItems, errorOf?_bind own fun choice _ => rest choice, List.zipIdx_cons,
      List.filterMap_cons]
    cases fault? index item <;> simp

theorem errorOf?_ofList (declared : List Json) :
    errorOf? (ofList declared) = (faults declared).head? := by
  unfold ofList faults
  split
  · rfl
  · exact errorOf?_ofItems 0 declared

theorem length_of_ofItems {index : Nat} {items : List Json} {choices : List Choice}
    (h : ofItems index items = .ok choices) : choices.length = items.length := by
  induction items generalizing index choices with
  | nil =>
    cases h
    rfl
  | cons item items ih =>
    rw [ofItems, bind_eq_ok] at h
    obtain ⟨choice, -, h⟩ := h
    obtain ⟨rest, others, h⟩ := bind_eq_ok.1 h
    cases h
    exact congrArg (· + 1) (ih others)

theorem ne_nil_of_ofList {declared : List Json} {choices : List Choice}
    (h : ofList declared = .ok choices) : choices ≠ [] := by
  unfold ofList at h
  split at h
  · cases h
  · rename_i filled
    rw [List.isEmpty_iff, ← List.length_eq_zero_iff, ← length_of_ofItems h,
      List.length_eq_zero_iff] at filled
    exact filled

end Choice

end DocModel
