import ReplicatedStore.Machine
import ReplicatedStore.Time.Instant
/-!
# Images

An image is the state of the machine as of a log position, kept as one put per live key, tagged
with the entry that last wrote it. It stands for the log up to that position.

`Image.fold` turns an image and the entries after it into the next image; `Image.restore` turns
the entries of an image into contents.
-/
namespace ReplicatedStore

/-- The state as of `lastIndex`. Mirrors `Snapshot`. -/
structure Image where
  /-- One put per live key, in key order. -/
  entries : List Entry
  lastIndex : Nat
  lastTerm : Nat
  createdAt : Instant
  deriving DecidableEq, Repr

namespace Image

/-- The live keys after one more entry: a put with a value takes its key, a delete frees it. Mirrors
the loop body of `compact_entries`. -/
def note (live : Table String Entry) (e : Entry) : Table String Entry :=
  match e.command.operation, e.command.value with
  | .put, some _ => live.insert e.command.key e
  | .put, none => live
  | .delete, _ => live.erase e.command.key
  | .get, _ => live

/-- The live keys after a history, each with the entry that last wrote it. -/
def live (history : List Entry) : Table String Entry := history.foldl note .empty

/-- The put that stands for the last write of a key. -/
def asPut (e : Entry) : Entry :=
  ⟨e.term, e.index, ⟨.put, e.command.key, e.command.value⟩⟩

/-- Fold the entries of an earlier image and a stretch of applied entries into one image. Mirrors
`compact_entries`. -/
def fold (previous : List Entry) (applied : List Entry) : List Entry :=
  (live (previous ++ applied)).values.map asPut

/-- What one entry of an image does to the contents being restored. Mirrors the loop body of
`restore_into`. -/
def replay (m : Machine) (e : Entry) : Machine :=
  match e.command.operation, e.command.value with
  | .put, some v => m.insert e.command.key v
  | .put, none => m
  | .delete, _ => m.erase e.command.key
  | .get, _ => m

/-- The contents that the entries of an image stand for; what was there before is dropped. Mirrors
`restore_into`. -/
def restore (entries : List Entry) : Machine := entries.foldl replay .empty

end Image

end ReplicatedStore
