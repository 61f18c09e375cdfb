import ReplicatedStore.Wire.Status
/-!
# Metadata

The ballot and the commit index are kept in one record, which every write of either replaces.
-/
namespace ReplicatedStore

/-- What is stored beside the log. Mirrors `MetaData`. -/
structure Metadata where
  ballot : Ballot := ⟨0, none⟩
  commit : Nat := 0
  deriving DecidableEq, Repr

namespace Metadata

/-- The written form. -/
def toJson (m : Metadata) : Json :=
  .record [("term", .nat m.ballot.term), ("voted_for", .option .nat m.ballot.vote),
    ("commit_index", .nat m.commit)]

/-- The metadata that a value holds. -/
def ofJson? (j : Json) : Option Metadata := do
  let r ← j.record? ["term", "voted_for", "commit_index"]
  let term ← r.required "term" Json.word?
  let vote ← r.optional "voted_for" Json.word?
  return { ballot := ⟨term, vote⟩, commit := ← r.withDefault "commit_index" 0 Json.word? }

/-- The indented text. Mirrors the text of `write_meta`. -/
def write (m : Metadata) : Bytes := m.toJson.writeIndented

/-- The metadata that a text holds. Mirrors the reading of `read_meta`. -/
def read? (text : Bytes) : Option Metadata := do
  let _ ← text.toString?
  Json.decode? ofJson? text

end Metadata

end ReplicatedStore
