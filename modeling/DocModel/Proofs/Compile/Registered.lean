import Mathlib.Logic.Function.Iterate
import DocModel.Proofs.Compile.History
import DocModel.Proofs.Source.Faults

namespace DocModel

namespace Registry

/-- The registry after a call, which leaves it as it is if it is refused. -/
def attempt (registry : Registry) (call : String × Json) : Registry :=
  match registry.register call.1 call.2 with
  | .ok next => next
  | .error _ => registry

/-- The registry that a sequence of calls makes of an empty one. -/
def ofCalls (calls : List (String × Json)) : Registry := calls.foldl attempt empty

variable {registry next : Registry} {requested name : String} {document other : Json}
  {calls : List (String × Json)} {error : SchemaError}

theorem register_eq_ok (h : registry.register requested document = .ok next) :
    stripExtension defaultExtension requested ∉ registry.documents.map (·.1) ∧
      next.documents =
        registry.documents ++ [(stripExtension defaultExtension requested, document)] := by
  unfold register at h
  dsimp only at h
  split at h
  · cases h
  · cases h
    exact ⟨‹_›, rfl⟩

theorem prefix_attempt (registry : Registry) (call : String × Json) :
    registry.documents <+: (registry.attempt call).documents := by
  unfold attempt
  split
  · rename_i next accepted
    rw [(register_eq_ok accepted).2]
    exact List.prefix_append _ _
  · exact List.prefix_rfl

theorem prefix_foldl_attempt (registry : Registry) (calls : List (String × Json)) :
    registry.documents <+: (calls.foldl attempt registry).documents := by
  induction calls generalizing registry with
  | nil => exact List.prefix_rfl
  | cons call calls ih => exact (registry.prefix_attempt call).trans (ih _)

theorem attempt_of_refused (h : registry.register requested document = .error error) :
    registry.attempt (requested, document) = registry := by
  simp only [attempt, h]

theorem ofCalls_concat_of_refused (h : (ofCalls calls).register requested document = .error error) :
    ofCalls (calls ++ [(requested, document)]) = ofCalls calls := by
  rw [ofCalls, List.foldl_append]
  exact attempt_of_refused h

theorem fetch_ofCalls {before after : List (String × Json)}
    (split : calls = before ++ (requested, document) :: after)
    (accepted : ((ofCalls before).register requested document).isOk) :
    (ofCalls calls).source.fetch ((ofCalls calls).source.canonical requested) =
      .ok (some document) := by
  obtain ⟨next, accepted⟩ := isOk_iff.1 accepted
  obtain ⟨fresh, documents⟩ := register_eq_ok accepted
  have made : ofCalls calls = after.foldl attempt next := by
    rw [split, ofCalls, List.foldl_append, List.foldl_cons, attempt]
    simp only [ofCalls] at accepted
    simp only [accepted]
  obtain ⟨added, extended⟩ := next.prefix_foldl_attempt after
  have absent : (ofCalls before).documents.lookup (stripExtension defaultExtension requested) =
      none := by
    refine List.lookup_eq_none_iff.2 fun entry mem => ?_
    simp only [bne_iff_ne, ne_eq]
    exact fun same => fresh (same ▸ List.mem_map_of_mem mem)
  change Except.ok ((ofCalls calls).documents.lookup
    (stripExtension defaultExtension requested)) = _
  rw [made, ← extended, documents, List.lookup_append, List.lookup_append, absent]
  simp

end Registry

namespace Source

variable {source : Source} {name : String}

theorem fst_load {document : Json}
    (fetch : source.fetch (source.canonical name) = .ok (some document)) :
    (source.load name).1 = Definition.ofJson (source.canonical name) document := by
  unfold load
  cases read : Definition.ofJson (source.canonical name) document <;> simp only [fetch, read]

theorem canonical_eq_or_shorter (source : Source) (name : String) :
    source.canonical name = name ∨
      (source.canonical name).toList.length < name.toList.length := by
  unfold canonical stripExtension
  dsimp only
  split
  · rename_i long
    refine .inr ?_
    simp only [List.length_cons] at long
    simp only [String.toList_ofList, List.length_take, List.length_cons]
    omega
  · exact .inl rfl

theorem length_iterate_canonical_le (source : Source) (strips : Nat) (name : String) :
    (source.canonical^[strips] name).toList.length ≤ name.toList.length := by
  induction strips generalizing name with
  | zero => exact Nat.le_refl _
  | succ strips ih =>
    rw [Function.iterate_succ_apply]
    refine Nat.le_trans (ih _) ?_
    obtain same | shorter := source.canonical_eq_or_shorter name
    · exact Nat.le_of_eq (congrArg (·.toList.length) same)
    · exact Nat.le_of_lt shorter

/-- A name that loses an extension does not get it back by further strippings. -/
theorem canonical_eq_of_iterate {strips : Nat} (h : source.canonical^[strips + 1] name = name) :
    source.canonical name = name := by
  obtain same | shorter := source.canonical_eq_or_shorter name
  · exact same
  · have le := source.length_iterate_canonical_le strips (source.canonical name)
    rw [← Function.iterate_succ_apply, h] at le
    omega

theorem settled_of_canonical_thrice
    (h : source.canonical (source.canonical (source.canonical name)) = source.canonical name) :
    source.Settled name := by
  have twice : source.canonical^[2] (source.canonical name) = source.canonical name := h
  exact canonical_eq_of_iterate twice

end Source

namespace Compiler

/-- What loading comes to when the document is read under the name. -/
def readAs (name : String) (document : Json) : Except SchemaError Definition × List Activity :=
  match Definition.ofJson name document with
  | .error error => (.error error, [.fetched name])
  | .ok definition => (.ok definition, [.fetched name, .parsed name, .loaded definition.name])

/-- A requested name is loaded from the document, which is read under the canonical name. -/
def LoadsAs (compiler : Compiler) (requested : String) (document : Json) : Prop :=
  compiler.load requested = readAs (compiler.canonical requested) document

/-- A requested name is compiled from the document, which is read under the canonical name. -/
def CompilesAs (compiler : Compiler) (requested : String) (document : Json) : Prop :=
  ∀ built, compiler.compile built requested = compiler.compileLoaded (compiler.depth - 1) built
    (readAs (compiler.canonical requested) document)

variable {compiler : Compiler} {requested name : String} {document : Json}

theorem head?_readAs (name : String) (document : Json) :
    (readAs name document).2.head? = some (.fetched name) := by
  unfold readAs
  split <;> rfl

theorem head?_load (compiler : Compiler) (requested : String) :
    (compiler.load requested).2.head? =
      some (.fetched (compiler.canonical (compiler.canonical requested))) := by
  unfold load Source.load canonical
  dsimp only
  split
  · rename_i definition activities h
    split at h
    · cases h
    · cases h
    · split at h
      · cases h
      · cases h
        rfl
  · rename_i error activities h
    split at h
    · cases h
      rfl
    · cases h
      rfl
    · split at h
      · cases h
        rfl
      · cases h

theorem load_eq_readAs
    (fetch : compiler.source.fetch (compiler.canonical (compiler.canonical requested)) =
      .ok (some document)) :
    compiler.load requested =
      readAs (compiler.canonical (compiler.canonical requested)) document := by
  unfold load Source.load readAs canonical at *
  cases read : Definition.ofJson
    (compiler.source.canonical (compiler.source.canonical requested)) document with
  | error error => simp only [fetch, read]
  | ok definition => simp only [fetch, read, List.cons_append, List.nil_append]

theorem head?_compileLoaded {fuel built : Nat} {activity : Activity}
    {loaded : Except SchemaError Definition × List Activity}
    (first : loaded.2.head? = some activity) :
    (compiler.compileLoaded fuel built loaded).activities.head? = some activity := by
  obtain ⟨error | definition, activities⟩ := loaded
  · exact first
  · exact List.head?_append.trans (by rw [first]; rfl)

section

variable (stands : compiler.source.fetch (compiler.canonical requested) = .ok (some document))

include stands

theorem loadsAs_iff : compiler.LoadsAs requested document ↔ compiler.source.Settled requested := by
  constructor
  · intro loads
    have first := compiler.head?_load requested
    rw [loads, head?_readAs, Option.some.injEq, Activity.fetched.injEq] at first
    exact first.symm
  · intro settled
    have twice : compiler.canonical (compiler.canonical requested) = compiler.canonical requested :=
      settled
    have again : compiler.source.fetch (compiler.canonical (compiler.canonical requested)) =
        .ok (some document) := by rwa [twice]
    rw [LoadsAs, load_eq_readAs again, twice]

theorem compilesAs_iff :
    compiler.CompilesAs requested document ↔ compiler.source.Settled requested := by
  constructor
  · intro compiles
    have first : (compiler.compile 0 requested).activities.head? = some (.fetched
        (compiler.canonical (compiler.canonical (compiler.canonical requested)))) := by
      rw [compile_eq_compileLoaded]
      exact head?_compileLoaded (compiler.head?_load (compiler.canonical requested))
    rw [compiles 0, head?_compileLoaded (head?_readAs _ _), Option.some.injEq,
      Activity.fetched.injEq] at first
    exact Source.settled_of_canonical_thrice first.symm
  · intro settled built
    have twice : compiler.canonical (compiler.canonical requested) = compiler.canonical requested :=
      settled
    have again : compiler.source.fetch (compiler.canonical (compiler.canonical
        (compiler.canonical requested))) = .ok (some document) := by rwa [twice, twice]
    rw [compile_eq_compileLoaded, load_eq_readAs again, twice, twice]

end

/-- Every registered document stands under the name that one stripping leaves, whatever calls
follow, and is read from there. The compiler strips more than once: it finds the document if and
only if that leaves the name as it is. -/
theorem registered_found_iff {calls before after : List (String × Json)}
    (split : calls = before ++ (requested, document) :: after)
    (accepted : ((Registry.ofCalls before).register requested document).isOk)
    (rejectsUnknown : Bool) :
    let registry := Registry.ofCalls calls
    let compiler : Compiler := ⟨registry.source, rejectsUnknown⟩
    compiler.source.fetch (compiler.canonical requested) = .ok (some document) ∧
      (compiler.source.load requested).1 =
        Definition.ofJson (compiler.canonical requested) document ∧
      (compiler.LoadsAs requested document ↔ compiler.source.Settled requested) ∧
      (compiler.CompilesAs requested document ↔ compiler.source.Settled requested) ∧
      ∀ name other error, registry.register name other = .error error →
        Registry.ofCalls (calls ++ [(name, other)]) = registry := by
  intro registry compiler
  have stands : compiler.source.fetch (compiler.canonical requested) = .ok (some document) :=
    Registry.fetch_ofCalls split accepted
  refine ⟨stands, ?_, loadsAs_iff stands, compilesAs_iff stands, ?_⟩
  · exact Source.fst_load stands
  · exact fun name other error refused => Registry.ofCalls_concat_of_refused refused

/-- A definition of one property. -/
def tag : Json := .obj [("properties", .obj [("label", .obj [("type", .str "string")])])]

/-- A source of that definition. -/
def tags : Compiler := ⟨Registry.source ⟨[("Tag", tag)]⟩, true⟩

/-- A name with an extension, the same name without it, which is refused, and another one. -/
def tagCalls : List (String × Json) := [("Tag.json", tag), ("Tag", .obj []), ("Note", .obj [])]

theorem registered_found_iff_tag :
    ((Registry.ofCalls []).register "Tag.json" tag).isOk ∧
      LoadsAs ⟨(Registry.ofCalls tagCalls).source, true⟩ "Tag.json" tag ∧
      CompilesAs ⟨(Registry.ofCalls tagCalls).source, true⟩ "Tag.json" tag := by
  have accepted : ((Registry.ofCalls []).register "Tag.json" tag).isOk := by decide +kernel
  obtain ⟨-, -, loads, compiles, -⟩ := registered_found_iff
    (show tagCalls = [] ++ ("Tag.json", tag) :: [("Tag", .obj []), ("Note", .obj [])] from rfl)
    accepted true
  have settled : (Registry.ofCalls tagCalls).source.Settled "Tag.json" := by
    rw [Source.Settled]
    decide +kernel
  exact ⟨accepted, loads.2 settled, compiles.2 settled⟩

/-- A name with two extensions is registered, and the compiler does not find it. -/
theorem registered_not_found_tag :
    ((Registry.ofCalls []).register "Tag.json.json" tag).isOk ∧
      let compiler : Compiler := ⟨(Registry.ofCalls [("Tag.json.json", tag)]).source, true⟩
      (compiler.load "Tag.json.json").1 = .error (.definitionNotFound "Tag") ∧
      (∀ built, (compiler.compile built "Tag.json.json").result =
        .error (.schema (.definitionNotFound "Tag"))) ∧
      ¬ compiler.LoadsAs "Tag.json.json" tag ∧ ¬ compiler.CompilesAs "Tag.json.json" tag := by
  have accepted : ((Registry.ofCalls []).register "Tag.json.json" tag).isOk := by decide +kernel
  refine ⟨accepted, ?_⟩
  intro compiler
  have stands : compiler.source.fetch (compiler.canonical "Tag.json.json") = .ok (some tag) :=
    Registry.fetch_ofCalls (List.nil_append _).symm accepted
  have unsettled : ¬ compiler.source.Settled "Tag.json.json" := by
    rw [Source.Settled]
    decide +kernel
  have twice : compiler.canonical (compiler.canonical "Tag.json.json") = "Tag" := by
    decide +kernel
  have thrice : compiler.canonical "Tag" = "Tag" := by decide +kernel
  have absent : compiler.source.fetch "Tag" = .ok none :=
    congrArg Except.ok (by decide +kernel)
  refine ⟨?_, fun built => ?_, mt (loadsAs_iff stands).1 unsettled,
    mt (compilesAs_iff stands).1 unsettled⟩
  · rw [load_of_absent (by rw [twice]; exact absent), twice]
  · rw [compile_eq_compileLoaded, load_of_absent (by rw [twice, thrice]; exact absent), twice,
      thrice]
    rfl

end Compiler

end DocModel
