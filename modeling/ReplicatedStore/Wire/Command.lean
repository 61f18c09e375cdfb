import ReplicatedStore.Command
import ReplicatedStore.Json.Record
import ReplicatedStore.Json.Writer
/-!
# The written form of commands and entries

Here and in the modules beside this one, `toJson` gives the written form of a value, members in
their declared order, and `ofJson?` reads every form that is accepted. `encode` and `decode?` are
the two with the text around them.
-/
namespace ReplicatedStore

/-- The text of a value without blanks. -/
def Json.encode {α : Type} (toJson : α → Json) (a : α) : Bytes := (toJson a).write

/-- The value that a text holds. -/
def Json.decode? {α : Type} (ofJson? : Json → Option α) (bs : Bytes) : Option α :=
  (Json.read? bs).bind ofJson?

namespace Operation

/-- The upper-case name. -/
def toJson (o : Operation) : Json := .text o.name

/-- The upper-case name, bare or as a tag. -/
def ofJson? (j : Json) : Option Operation := do
  let (tag, contents) ← j.variant?
  let o ← [put, get, delete].find? (·.name == tag)
  Json.unit? contents
  return o

end Operation

namespace Command

/-- The written form. -/
def toJson (c : Command) : Json :=
  .record [("operation", c.operation.toJson), ("key", .text c.key), ("value", .option .text c.value)]

/-- The command that a value holds. -/
def ofJson? (j : Json) : Option Command := do
  let r ← j.record? ["operation", "key", "value"]
  return {
    operation := ← r.required "operation" Operation.ofJson?
    key := ← r.required "key" Json.text?
    value := ← r.optional "value" Json.text? }

end Command

namespace Entry

/-- The written form. -/
def toJson (e : Entry) : Json :=
  .record [("term", .nat e.term), ("index", .nat e.index), ("command", e.command.toJson)]

/-- The entry that a value holds. -/
def ofJson? (j : Json) : Option Entry := do
  let r ← j.record? ["term", "index", "command"]
  return {
    term := ← r.required "term" Json.word?
    index := ← r.required "index" Json.word?
    command := ← r.required "command" Command.ofJson? }

end Entry

end ReplicatedStore
