import ReplicatedStore.Text.Blank
import ReplicatedStore.Text.Split
import ReplicatedStore.Wire.Command
/-!
# The text of a log

A log is kept as one entry a line, so that entries can be added without writing the others again.
Blank lines do not count.
-/
namespace ReplicatedStore.LogFile

/-- The lines of entries. Mirrors `encode_lines`. -/
def write (entries : List Entry) : Bytes :=
  entries.flatMap fun e => Json.encode Entry.toJson e ++ [0x0A]

/-- The entry on a line; nothing for a blank line. Mirrors the loop body of `load_log`. -/
def readLine? (line : Bytes) : Option (Option Entry) := do
  let text ← line.toString?
  if text.toList.all Blank.isBlank then return none
  else return some (← Json.decode? Entry.ofJson? line)

/-- The entries of a text. Mirrors `load_log`. -/
def read? (text : Bytes) : Option (List Entry) := do
  return (← (splitOn 0x0A text).mapM readLine?).filterMap id

end ReplicatedStore.LogFile
