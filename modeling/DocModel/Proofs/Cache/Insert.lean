import DocModel.Cache
import DocModel.Proofs.Lists

namespace DocModel.Cache

variable {cache later : Cache} {compiler : Compiler} {key other requested : String}
  {offered stored : Compiled} {error : Failure} {built : Nat}

theorem insert_of_stored (h : cache.get? key = some stored) (offered : Compiled) :
    cache.insert key offered = (stored, cache) := by
  rw [insert, h]

theorem insert_of_absent (h : cache.get? key = none) (offered : Compiled) :
    cache.insert key offered = (offered, ⟨cache.entries ++ [(key, offered)]⟩) := by
  rw [insert, h]

theorem prefix_insert (cache : Cache) (key : String) (offered : Compiled) :
    cache.entries <+: (cache.insert key offered).2.entries := by
  cases found : cache.get? key with
  | some stored => simp [insert_of_stored found]
  | none =>
    rw [insert_of_absent found]
    exact List.prefix_append _ _

theorem fst_insert (cache : Cache) (key : String) (offered : Compiled) :
    (cache.insert key offered).1 = (cache.get? key).getD offered := by
  cases found : cache.get? key with
  | some stored =>
    rw [insert_of_stored found]
    rfl
  | none =>
    rw [insert_of_absent found]
    rfl

theorem get?_insert (cache : Cache) (key other : String) (offered : Compiled) :
    (cache.insert key offered).2.get? other =
      (cache.get? other).or (if other = key then some offered else none) := by
  cases found : cache.get? key with
  | some stored =>
    rw [insert_of_stored found]
    by_cases same : other = key
    · rw [same, found]
      rfl
    · rw [if_neg same, Option.or_none]
  | none =>
    rw [insert_of_absent found]
    change (cache.entries ++ [(key, offered)]).lookup other = _
    rw [List.lookup_append, lookup_cons_eq_ite, List.lookup_nil]
    rfl

theorem get?_insert_ne (h : other ≠ key) (cache : Cache) (offered : Compiled) :
    (cache.insert key offered).2.get? other = cache.get? other := by
  rw [get?_insert, if_neg h, Option.or_none]

theorem get?_of_prefix (grown : cache.entries <+: later.entries)
    (h : cache.get? key = some stored) : later.get? key = some stored := by
  obtain ⟨added, same⟩ := grown
  change later.entries.lookup key = some stored
  have found : cache.entries.lookup key = some stored := h
  rw [← same, List.lookup_append, found]
  rfl

theorem getOrCompile_of_stored (h : cache.get? (compiler.canonical requested) = some stored)
    (built : Nat) :
    cache.getOrCompile compiler built requested =
      (⟨.ok stored, built, [.cacheHit (compiler.canonical requested)]⟩, cache) := by
  simp only [getOrCompile, h]

theorem getOrCompile_of_failed (h : cache.get? (compiler.canonical requested) = none)
    (failed : (compiler.compile built (compiler.canonical requested)).result = .error error) :
    cache.getOrCompile compiler built requested =
      (compiler.compile built (compiler.canonical requested), cache) := by
  simp only [getOrCompile, h, failed]

theorem getOrCompile_of_compiled (h : cache.get? (compiler.canonical requested) = none)
    (compiled : (compiler.compile built (compiler.canonical requested)).result = .ok offered) :
    cache.getOrCompile compiler built requested =
      (compiler.compile built (compiler.canonical requested),
        (cache.insert (compiler.canonical requested) offered).2) := by
  simp only [getOrCompile, h, compiled, insert_of_absent h]
  rw [← compiled]

end DocModel.Cache
