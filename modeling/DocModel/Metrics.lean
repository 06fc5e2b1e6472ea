namespace DocModel

/-- What is counted between definition and validated document. -/
inductive Counter
  | definitionsLoaded
  | validatorsCompiled
  | cacheHits
  | documentsValidated
  | documentsRejected
  | blacklistedKeysRemoved
  | danglingEntriesRemoved
  | oracleQueries
deriving DecidableEq

namespace Counter

def all : List Counter :=
  [definitionsLoaded, validatorsCompiled, cacheHits, documentsValidated, documentsRejected,
    blacklistedKeysRemoved, danglingEntriesRemoved, oracleQueries]

def text : Counter → String
  | definitionsLoaded => "definitions_loaded"
  | validatorsCompiled => "validators_compiled"
  | cacheHits => "cache_hits"
  | documentsValidated => "documents_validated"
  | documentsRejected => "documents_rejected"
  | blacklistedKeysRemoved => "blacklisted_keys_removed"
  | danglingEntriesRemoved => "dangling_entries_removed"
  | oracleQueries => "oracle_queries"

def ofText? (text : String) : Option Counter := all.find? (·.text == text)

/-- Whether the counter grows by amounts, and not by one at a time. -/
def takesAmounts : Counter → Bool
  | blacklistedKeysRemoved | danglingEntriesRemoved | oracleQueries => true
  | _ => false

end Counter

/-- The counters, which wrap around at 64 bits. -/
structure Metrics where
  count : Counter → UInt64

namespace Metrics

def zero : Metrics := ⟨fun _ => 0⟩

def add (metrics : Metrics) (counter : Counter) (amount : UInt64) : Metrics :=
  ⟨fun c => if c = counter then metrics.count c + amount else metrics.count c⟩

/-- The counters as the text of a JSON object. -/
def render (metrics : Metrics) : String :=
  let entry (c : Counter) := s!"\"{c.text}\":{metrics.count c}"
  "\x7b" ++ ",".intercalate (Counter.all.map entry) ++ "\x7d"

end Metrics

end DocModel
