import ReplicatedStore.Image
import ReplicatedStore.Wire.Command
/-!
# The written form of answers and images
-/
namespace ReplicatedStore

namespace Answer

/-- The written form. -/
def toJson : Answer → Json
  | .done => .text "Ok"
  | .value v => .tagged "Value" (.option .text v)

/-- The answer that a value holds. -/
def ofJson? (j : Json) : Option Answer := do
  let (tag, contents) ← j.variant?
  match tag with
  | "Ok" =>
    Json.unit? contents
    return .done
  | "Value" => return .value (← Json.option? Json.text? (← contents))
  | _ => none

end Answer

namespace Image

/-- The written form. -/
def toJson (i : Image) : Json :=
  .record [("entries", .list Entry.toJson i.entries), ("last_included_index", .nat i.lastIndex),
    ("last_included_term", .nat i.lastTerm), ("created_at", .text i.createdAt.write)]

/-- The image that a value holds. -/
def ofJson? (j : Json) : Option Image := do
  let r ← j.record? ["entries", "last_included_index", "last_included_term", "created_at"]
  return {
    entries := ← r.required "entries" (Json.list? Entry.ofJson?)
    lastIndex := ← r.required "last_included_index" Json.word?
    lastTerm := ← r.required "last_included_term" Json.word?
    createdAt := ← r.required "created_at" fun j => j.text?.bind Instant.read? }

end Image

end ReplicatedStore
