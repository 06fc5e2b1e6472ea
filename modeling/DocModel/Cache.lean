import DocModel.Compile

namespace DocModel

/-- Validators kept by name; the first one stored under a name stays. -/
structure Cache where
  entries : List (String × Compiled)

namespace Cache

def empty : Cache := ⟨[]⟩

def get? (cache : Cache) (name : String) : Option Compiled := cache.entries.lookup name

def contains (cache : Cache) (name : String) : Bool := (cache.get? name).isSome

def size (cache : Cache) : Nat := cache.entries.length

/-- Stores a validator unless the name is taken, and gives the stored one. -/
def insert (cache : Cache) (name : String) (compiled : Compiled) : Compiled × Cache :=
  match cache.get? name with
  | some stored => (stored, cache)
  | none => (compiled, ⟨cache.entries ++ [(name, compiled)]⟩)

/-- The validator stored under a canonical name, which is compiled if there is none. -/
def getOrCompile (cache : Cache) (compiler : Compiler) (built : Nat) (requested : String) :
    Outcome Compiled × Cache :=
  let name := compiler.canonical requested
  match cache.get? name with
  | some hit => (⟨.ok hit, built, [.cacheHit name]⟩, cache)
  | none =>
    let outcome := compiler.compile built name
    match outcome.result with
    | .error _ => (outcome, cache)
    | .ok compiled =>
      let (stored, cache) := cache.insert name compiled
      ({ outcome with result := .ok stored }, cache)

end Cache

end DocModel
