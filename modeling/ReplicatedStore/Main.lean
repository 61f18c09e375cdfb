import ReplicatedStore.CommandLine.Run
import ReplicatedStore.Host.LiveNode
/-!
# The program

A client's request goes over the network of the host; a server is a node on it.
-/

open ReplicatedStore in
/-- Run the program with its arguments. -/
def main (args : List String) : IO UInt32 := do
  let r ← match ← (CommandLine.run Socket.request args).block with
    | .finished r => pure r
    | .serving c => (LiveNode.serve c).block
  IO.print r.stdout
  IO.eprint r.stderr
  return .ofNat r.exit
