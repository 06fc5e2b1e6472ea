import Mathlib.Data.List.Dedup
import DocModel.Proofs.Cache.Insert
import DocModel.Proofs.Compile.Registered
import DocModel.Proofs.Compile.Serial

namespace DocModel.Cache

/-- What calls for some names come to, one after the other, and the cache that they leave. -/
def serve (compiler : Compiler) (cache : Cache) (built : Nat) :
    List String → List (String × Except Failure Compiled) × Cache
  | [] => ([], cache)
  | requested :: requests =>
    let (outcome, next) := cache.getOrCompile compiler built requested
    let (answers, last) := serve compiler next outcome.built requests
    ((requested, outcome.result) :: answers, last)

variable {compiler : Compiler} {cache : Cache} {built : Nat} {key requested : String}
  {compiled other : Compiled} {requests : List String}
  {answers : List (String × Except Failure Compiled)}

def keys (cache : Cache) : List String := cache.entries.map (·.1)

theorem mem_keys : key ∈ cache.keys ↔ ∃ compiled, cache.get? key = some compiled := by
  constructor
  · intro mem
    by_contra none_
    have absent := List.lookup_eq_none_iff.1
      (Option.eq_none_iff_forall_not_mem.2 fun compiled found => none_ ⟨compiled, found⟩)
    obtain ⟨entry, stored, same⟩ := List.mem_map.1 mem
    simpa [same] using absent entry stored
  · intro found
    obtain ⟨compiled, found⟩ := found
    obtain ⟨before, after, split, -⟩ := List.lookup_eq_some_iff.1 found
    simp [keys, split]

theorem size_eq (cache : Cache) : cache.size = cache.keys.length := by
  rw [keys, List.length_map, size]

/-- No two validators of a cache are the same, and each is that of the name which three more
strippings leave of its key. -/
structure Sound (compiler : Compiler) (cache : Cache) (built : Nat) : Prop where
  nodup : cache.keys.Nodup
  typeName_eq : ∀ key compiled, cache.get? key = some compiled →
    compiled.validator.typeName = compiler.source.canonical^[3] key
  serial_lt : ∀ key compiled, cache.get? key = some compiled → compiled.identity.serial < built
  apart : ∀ key other compiled, cache.get? key = some compiled →
    cache.get? other = some compiled → key = other

theorem sound_empty (compiler : Compiler) (built : Nat) : Sound compiler empty built where
  nodup := .nil
  typeName_eq _ _ := nofun
  serial_lt _ _ := nofun
  apart _ _ _ := nofun

namespace Sound

theorem mono {later : Nat} (sound : Sound compiler cache built) (le : built ≤ later) :
    Sound compiler cache later where
  nodup := sound.nodup
  typeName_eq := sound.typeName_eq
  serial_lt key compiled stored := Nat.lt_of_lt_of_le (sound.serial_lt key compiled stored) le
  apart := sound.apart

theorem insert {later : Nat} (sound : Sound compiler cache built) (absent : cache.get? key = none)
    (typeName_eq : compiled.validator.typeName = compiler.source.canonical^[3] key)
    (le : built ≤ compiled.identity.serial) (lt : compiled.identity.serial < later) :
    Sound compiler (cache.insert key compiled).2 later := by
  have stored (other : String) : (cache.insert key compiled).2.get? other =
      if other = key then some compiled else cache.get? other := by
    rw [get?_insert]
    split
    · rename_i same
      rw [same, absent, Option.none_or]
    · exact Option.or_none
  have older {other : String} (found : cache.get? other = some compiled) : False := by
    have lt := sound.serial_lt other compiled found
    omega
  refine ⟨?_, ?_, ?_, ?_⟩
  · have keys : (cache.insert key compiled).2.keys = cache.keys ++ [key] := by
      rw [insert_of_absent absent, Cache.keys, List.map_append]
      rfl
    have fresh : key ∉ cache.keys := by
      simp [mem_keys, absent]
    rw [keys, List.nodup_append_comm]
    exact List.nodup_cons.2 ⟨fresh, sound.nodup⟩
  · intro other found same
    rw [stored] at same
    split at same
    · rename_i own
      cases same
      rw [own, typeName_eq]
    · exact sound.typeName_eq other found same
  · intro other found same
    rw [stored] at same
    split at same
    · cases same
      exact lt
    · have lt := sound.serial_lt other found same
      omega
  · intro first second found same same'
    rw [stored] at same same'
    split at same
    · rename_i own
      cases same
      split at same'
      · rename_i own'
        rw [own, own']
      · exact (older same').elim
    · split at same'
      · cases same'
        exact (older same).elim
      · exact sound.apart first second found same same'

theorem getOrCompile (sound : Sound compiler cache built) (requested : String) :
    Sound compiler (cache.getOrCompile compiler built requested).2
      (cache.getOrCompile compiler built requested).1.built := by
  cases found : cache.get? (compiler.canonical requested) with
  | some hit =>
    rw [getOrCompile_of_stored found]
    exact sound
  | none =>
    have later := compiler.built_le_compile built (compiler.canonical requested)
    cases result : (compiler.compile built (compiler.canonical requested)).result with
    | error error =>
      rw [getOrCompile_of_failed found result]
      exact sound.mono later
    | ok compiled =>
      rw [getOrCompile_of_compiled found result]
      obtain ⟨le, lt⟩ := Compiler.serial_of_compile result
      exact sound.insert found (Compiler.typeName_of_compile result) le lt

end Sound

theorem get?_getOrCompile
    (h : (cache.getOrCompile compiler built requested).1.result = .ok compiled) :
    (cache.getOrCompile compiler built requested).2.get? (compiler.canonical requested) =
      some compiled := by
  cases found : cache.get? (compiler.canonical requested) with
  | some hit =>
    rw [getOrCompile_of_stored found] at h ⊢
    rw [found, Except.ok.inj h]
  | none =>
    cases result : (compiler.compile built (compiler.canonical requested)).result with
    | error error =>
      rw [getOrCompile_of_failed found result, result] at h
      cases h
    | ok offered =>
      rw [getOrCompile_of_compiled found result] at h ⊢
      rw [result] at h
      rw [get?_insert, found, if_pos rfl, Option.none_or, Except.ok.inj h]

theorem stored_of_getOrCompile
    (h : (cache.getOrCompile compiler built requested).2.get? key = some compiled) :
    cache.get? key = some compiled ∨
      (cache.getOrCompile compiler built requested).1.result = .ok compiled ∧
        compiler.canonical requested = key := by
  cases found : cache.get? (compiler.canonical requested) with
  | some hit =>
    rw [getOrCompile_of_stored found] at h
    exact .inl h
  | none =>
    cases result : (compiler.compile built (compiler.canonical requested)).result with
    | error error =>
      rw [getOrCompile_of_failed found result] at h
      exact .inl h
    | ok offered =>
      rw [getOrCompile_of_compiled found result] at h ⊢
      rw [get?_insert] at h
      split at h
      · rename_i same
        rw [same, found, Option.none_or] at h
        exact .inr ⟨result.trans (congrArg _ (Option.some.inj h)), same.symm⟩
      · rw [Option.or_none] at h
        exact .inl h

theorem prefix_getOrCompile (cache : Cache) (compiler : Compiler) (built : Nat)
    (requested : String) :
    cache.entries <+: (cache.getOrCompile compiler built requested).2.entries := by
  cases found : cache.get? (compiler.canonical requested) with
  | some hit => simp [getOrCompile_of_stored found]
  | none =>
    cases result : (compiler.compile built (compiler.canonical requested)).result with
    | error error => simp [getOrCompile_of_failed found result]
    | ok offered =>
      rw [getOrCompile_of_compiled found result]
      exact prefix_insert _ _ _

theorem serve_cons (cache : Cache) (compiler : Compiler) (built : Nat) (requested : String)
    (requests : List String) :
    let called := cache.getOrCompile compiler built requested
    let served := serve compiler called.2 called.1.built requests
    serve compiler cache built (requested :: requests) =
      ((requested, called.1.result) :: served.1, served.2) := rfl

theorem prefix_serve (compiler : Compiler) (cache : Cache) (built : Nat) (requests : List String) :
    cache.entries <+: (serve compiler cache built requests).2.entries := by
  induction requests generalizing cache built with
  | nil => exact List.prefix_rfl
  | cons requested requests ih =>
    rw [serve_cons]
    exact (cache.prefix_getOrCompile compiler built requested).trans (ih _ _)

theorem Sound.serve (sound : Sound compiler cache built) (requests : List String) :
    ∃ later, Sound compiler (serve compiler cache built requests).2 later := by
  induction requests generalizing cache built with
  | nil => exact ⟨built, sound⟩
  | cons requested requests ih =>
    rw [serve_cons]
    exact ih (sound.getOrCompile requested)

theorem get?_serve
    (mem : (requested, .ok compiled) ∈ (serve compiler cache built requests).1) :
    (serve compiler cache built requests).2.get? (compiler.canonical requested) =
      some compiled := by
  induction requests generalizing cache built with
  | nil => cases mem
  | cons first requests ih =>
    rw [serve_cons] at mem ⊢
    obtain same | mem := List.mem_cons.1 mem
    · obtain ⟨rfl, given⟩ := Prod.mk.inj same
      exact get?_of_prefix (prefix_serve _ _ _ _) (get?_getOrCompile given.symm)
    · exact ih mem

theorem stored_of_serve (h : (serve compiler cache built requests).2.get? key = some compiled) :
    cache.get? key = some compiled ∨
      ∃ requested, (requested, .ok compiled) ∈ (serve compiler cache built requests).1 ∧
        compiler.canonical requested = key := by
  induction requests generalizing cache built with
  | nil => exact .inl h
  | cons first requests ih =>
    rw [serve_cons] at h ⊢
    obtain before | ⟨requested, mem, same⟩ := ih h
    · obtain earlier | ⟨given, same⟩ := stored_of_getOrCompile before
      · exact .inl earlier
      · exact .inr ⟨first, by rw [given]; exact List.mem_cons_self, same⟩
    · exact .inr ⟨requested, List.mem_cons_of_mem _ mem, same⟩

/-- The calls that were given a validator. -/
def given (answers : List (String × Except Failure Compiled)) : List (String × Compiled) :=
  answers.filterMap fun (requested, result) => result.toOption.map (requested, ·)

theorem mem_given :
    (requested, compiled) ∈ given answers ↔ (requested, .ok compiled) ∈ answers := by
  simp only [given, List.mem_filterMap, Prod.exists, Option.map_eq_some_iff, Prod.mk.injEq]
  constructor
  · intro h
    obtain ⟨_, result, mem, _, same, rfl, rfl⟩ := h
    cases result with
    | error error => cases same
    | ok value =>
      cases same
      exact mem
  · exact fun mem => ⟨requested, .ok compiled, mem, compiled, rfl, rfl, rfl⟩

theorem length_eq_of_mem_iff {names others : List String} (nodup : names.Nodup)
    (same : ∀ name, name ∈ names ↔ name ∈ others) : names.length = others.dedup.length := by
  refine ((List.perm_ext_iff_of_nodup nodup others.nodup_dedup).2 fun name => ?_).length_eq
  rw [List.mem_dedup, same]

/-- A sound cache that stores what the calls were given, and nothing else. -/
structure Serves (compiler : Compiler) (cache : Cache) (built : Nat)
    (given : List (String × Compiled)) : Prop where
  sound : Sound compiler cache built
  stored : ∀ call ∈ given, cache.get? (compiler.canonical call.1) = some call.2
  asked : ∀ key compiled, cache.get? key = some compiled →
    ∃ call ∈ given, call.2 = compiled ∧ compiler.canonical call.1 = key

theorem exists_serves (compiler : Compiler) (built : Nat) (requests : List String) :
    ∃ later, Serves compiler (serve compiler empty built requests).2 later
      (given (serve compiler empty built requests).1) := by
  obtain ⟨later, sound⟩ := (sound_empty compiler built).serve requests
  refine ⟨later, sound, fun call mem => get?_serve (mem_given.1 mem), ?_⟩
  intro key compiled found
  obtain none_ | ⟨requested, mem, same⟩ := stored_of_serve found
  · cases none_
  · exact ⟨(requested, compiled), mem_given.2 mem, rfl, same⟩

namespace Serves

variable {calls : List (String × Compiled)} {call call' : String × Compiled}
  (serves : Serves compiler cache built calls)

include serves

theorem eq_iff (mem : call ∈ calls) (mem' : call' ∈ calls) :
    call.2 = call'.2 ↔ compiler.canonical call.1 = compiler.canonical call'.1 := by
  have found := serves.stored call mem
  have found' := serves.stored call' mem'
  constructor
  · intro same
    exact serves.sound.apart _ _ _ found (same ▸ found')
  · intro same
    rw [same, found'] at found
    exact (Option.some.inj found).symm

theorem size_eq : cache.size = (calls.map (compiler.canonical ·.1)).dedup.length := by
  rw [Cache.size_eq]
  refine length_eq_of_mem_iff serves.sound.nodup fun name => ?_
  rw [mem_keys, List.mem_map]
  constructor
  · intro found
    obtain ⟨compiled, found⟩ := found
    obtain ⟨call, mem, -, same⟩ := serves.asked _ _ found
    exact ⟨call, mem, same⟩
  · intro called
    obtain ⟨call, mem, rfl⟩ := called
    exact ⟨call.2, serves.stored call mem⟩

/-- Three more strippings leave the key as it is if and only if one more does. -/
theorem typeName_iff_settled :
    (∀ key compiled, cache.get? key = some compiled → key = compiled.validator.typeName) ↔
      ∀ call ∈ calls, compiler.source.Settled call.1 := by
  constructor
  · intro named call mem
    have found := serves.stored call mem
    have same := (named _ _ found).trans (serves.sound.typeName_eq _ _ found)
    exact Source.canonical_eq_of_iterate same.symm
  · intro settled key compiled found
    obtain ⟨call, mem, -, rfl⟩ := serves.asked _ _ found
    rw [serves.sound.typeName_eq _ _ found]
    exact (Function.iterate_fixed (settled call mem) 3).symm

theorem typeName_eq (settled : ∀ call ∈ calls, compiler.source.Settled call.1)
    (mem : call ∈ calls) : call.2.validator.typeName = compiler.canonical call.1 :=
  (serves.typeName_iff_settled.2 settled _ _ (serves.stored call mem)).symm

end Serves

/-- Calls that start from an empty cache get one validator for each canonical name, which is the
name of the validator if and only if it has no extension any more. -/
theorem serve_one_each (compiler : Compiler) (built : Nat) (requests : List String) :
    let cache := (serve compiler empty built requests).2
    let given := given (serve compiler empty built requests).1
    (∀ key compiled, cache.get? key = some compiled →
      compiled.validator.typeName = compiler.source.canonical^[3] key) ∧
    (∀ call ∈ given, cache.get? (compiler.canonical call.1) = some call.2) ∧
    (∀ call ∈ given, ∀ call' ∈ given,
      call.2 = call'.2 ↔ compiler.canonical call.1 = compiler.canonical call'.1) ∧
    cache.size = (given.map (compiler.canonical ·.1)).dedup.length ∧
    ((∀ key compiled, cache.get? key = some compiled → key = compiled.validator.typeName) ↔
      ∀ call ∈ given, compiler.source.Settled call.1) ∧
    ((∀ call ∈ given, compiler.source.Settled call.1) →
      cache.size = (given.map (·.2.validator.typeName)).dedup.length ∧
      ∀ call ∈ given, ∀ call' ∈ given,
        call.2.validator.typeName = call'.2.validator.typeName → call.2 = call'.2) := by
  intro cache given
  obtain ⟨later, serves⟩ := exists_serves compiler built requests
  refine ⟨serves.sound.typeName_eq, serves.stored,
    fun _ mem _ mem' => serves.eq_iff mem mem', serves.size_eq, serves.typeName_iff_settled, ?_⟩
  intro settled
  have named : ∀ call ∈ given, call.2.validator.typeName = compiler.canonical call.1 :=
    fun call mem => serves.typeName_eq settled mem
  constructor
  · rw [List.map_congr_left named]
    exact serves.size_eq
  · intro call mem call' mem' same
    rw [named call mem, named call' mem'] at same
    exact (serves.eq_iff mem mem').2 same

theorem serve_one_each_tag :
    let cache := (serve .tags empty 0 ["Tag", "Tag.json"]).2
    let given := given (serve .tags empty 0 ["Tag", "Tag.json"]).1
    (∀ call ∈ given, Compiler.tags.source.Settled call.1) ∧ cache.size = 1 ∧
      ∃ compiled, given = [("Tag", compiled), ("Tag.json", compiled)] := by
  intro cache given
  obtain ⟨-, -, one, size, -⟩ := serve_one_each .tags 0 ["Tag", "Tag.json"]
  have names : given.map (·.1) = ["Tag", "Tag.json"] := by decide +kernel
  have settled : ∀ name ∈ given.map (·.1), Compiler.tags.source.Settled name := by
    rw [names]
    simp only [Source.Settled]
    decide +kernel
  obtain ⟨⟨_, first⟩, rest, split, rfl, others⟩ := List.map_eq_cons_iff.1 names
  obtain ⟨⟨_, second⟩, last, rfl, rfl, none_⟩ := List.map_eq_cons_iff.1 others
  obtain rfl := List.map_eq_nil_iff.1 none_
  have canonical : Compiler.tags.canonical "Tag" = Compiler.tags.canonical "Tag.json" := by
    decide +kernel
  have same : first = second := (one _ (split ▸ List.mem_cons_self) _
    (split ▸ List.mem_cons_of_mem _ List.mem_cons_self)).2 canonical
  refine ⟨List.forall_mem_map.1 settled, size.trans (by decide +kernel), first, ?_⟩
  rw [split, same]

/-- A name with two extensions is cached apart from the name without any, under a key that still
has an extension, although both calls are given a validator of the one definition. -/
theorem tag_stored_twice :
    let cache := (serve .tags empty 0 ["Tag.json.json", "Tag"]).2
    let given := given (serve .tags empty 0 ["Tag.json.json", "Tag"]).1
    ¬ (∀ key compiled, cache.get? key = some compiled → key = compiled.validator.typeName) ∧
      cache.size ≠ (given.map (·.2.validator.typeName)).dedup.length ∧
      ¬ ∀ call ∈ given, ∀ call' ∈ given,
        call.2.validator.typeName = call'.2.validator.typeName → call.2 = call'.2 := by
  intro cache given
  have stored : (cache.get? "Tag.json").map (·.validator.typeName) = some "Tag" := by
    decide +kernel
  have two : given.map (fun call => (call.2.validator.typeName, call.2.identity.serial)) =
      [("Tag", 0), ("Tag", 1)] := by
    decide +kernel
  refine ⟨?_, by decide +kernel, ?_⟩
  · intro named
    obtain ⟨compiled, found, typeName⟩ := Option.map_eq_some_iff.1 stored
    have same := named _ _ found
    rw [typeName] at same
    exact absurd same (by decide)
  · intro one
    obtain ⟨first, rest, split, first_eq, two⟩ := List.map_eq_cons_iff.1 two
    obtain ⟨second, rest, rfl, second_eq, -⟩ := List.map_eq_cons_iff.1 two
    obtain ⟨name₁, serial₁⟩ := Prod.mk.inj first_eq
    obtain ⟨name₂, serial₂⟩ := Prod.mk.inj second_eq
    have same := one first (by simp [split]) second (by simp [split]) (name₁.trans name₂.symm)
    rw [same, serial₂] at serial₁
    exact absurd serial₁ (by decide)

end DocModel.Cache
