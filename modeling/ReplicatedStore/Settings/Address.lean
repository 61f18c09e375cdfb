import ReplicatedStore.Text.Decimal
/-!
# Socket addresses

The address a node listens on: an IPv4 or a bracketed IPv6 address and a port. An IPv6 address is
written with its longest run of two or more zero groups left out, the first of equals, and with an
embedded IPv4 address after `::ffff:`.
-/
namespace ReplicatedStore

/-- An address and a port. -/
inductive SocketAddress where
  | v4 (octets : List Nat) (port : Nat)
  /-- Eight groups of 16 bits; scope 0 means none. -/
  | v6 (groups : List Nat) (scope port : Nat)
  deriving DecidableEq, Repr

namespace SocketAddress

/-! ## Reading -/

/-- The value of a digit in a base up to 16. -/
def digit? (base : Nat) (c : Char) : Option Nat :=
  let v :=
    if c.isDigit then some (c.toNat - 48)
    else if 'a' ≤ c && c ≤ 'f' then some (c.toNat - 87)
    else if 'A' ≤ c && c ≤ 'F' then some (c.toNat - 55)
    else none
  v.filter (· < base)

/-- A number of at most `width` digits and at most `most`; with leading zeros if `zeros`. -/
def readNumber (base width most : Nat) (zeros : Bool) (cs : List Char) : Option (Nat × List Char) :=
  let ds := cs.takeWhile fun c => (digit? base c).isSome
  let n := ds.foldl (fun n c => n * base + (digit? base c).getD 0) 0
  if ds.isEmpty || width < ds.length || most < n then none
  else if !zeros && ds.head? == some '0' && 1 < ds.length then none
  else some (n, cs.drop ds.length)

/-- A given character. -/
def readChar (c : Char) : List Char → Option (List Char)
  | c' :: r => if c' = c then some r else none
  | [] => none

/-- A port after a colon. -/
def readPort (cs : List Char) : Option (Nat × List Char) := do
  readNumber 10 cs.length 65535 true (← readChar ':' cs)

/-- An octet of an IPv4 address. -/
def readOctet (cs : List Char) : Option (Nat × List Char) := readNumber 10 3 255 false cs

/-- Four octets with dots between them. -/
def readV4 (cs : List Char) : Option (List Nat × List Char) := do
  let (a, r) ← readOctet cs
  let (b, r) ← readOctet (← readChar '.' r)
  let (c, r) ← readOctet (← readChar '.' r)
  let (d, r) ← readOctet (← readChar '.' r)
  return ([a, b, c, d], r)

/-- Up to `limit` groups with colons between them, the last two possibly as an IPv4 address; also
whether they were. `first` says that no colon is due. -/
def readGroups : Nat → Bool → List Char → List Nat × Bool × List Char
  | 0, _, cs => ([], false, cs)
  | limit + 1, first, cs =>
    let start? := if first then some cs else readChar ':' cs
    match start?.bind fun r => if limit = 0 then none else readV4 r with
    | some ([a, b, c, d], r) => ([a * 256 + b, c * 256 + d], true, r)
    | _ =>
      match start?.bind (readNumber 16 4 65535 true) with
      | none => ([], false, cs)
      | some (g, r) =>
        let (gs, embedded, r) := readGroups limit false r
        (g :: gs, embedded, r)

/-- Eight groups, a run of them possibly left out. -/
def readV6 (cs : List Char) : Option (List Nat × List Char) :=
  let (front, embedded, r) := readGroups 8 true cs
  if front.length = 8 then some (front, r)
  else if embedded then none
  else do
    let r ← readChar ':' r
    let r ← readChar ':' r
    let (back, _, r) := readGroups (7 - front.length) true r
    return (front ++ List.replicate (8 - front.length - back.length) 0 ++ back, r)

/-- The scope of an IPv6 address, if one is there. -/
def readScope (cs : List Char) : Option (Nat × List Char) :=
  match cs with
  | '%' :: r => readNumber 10 r.length 4294967295 true r
  | _ => some (0, cs)

/-- An IPv4 address and a port. -/
def readV4Socket (cs : List Char) : Option SocketAddress := do
  let (octets, r) ← readV4 cs
  let (port, r) ← readPort r
  if r.isEmpty then return .v4 octets port else none

/-- A bracketed IPv6 address and a port. -/
def readV6Socket (cs : List Char) : Option SocketAddress := do
  let (groups, r) ← readV6 (← readChar '[' cs)
  let (scope, r) ← readScope r
  let (port, r) ← readPort (← readChar ']' r)
  if r.isEmpty then return .v6 groups scope port else none

/-- The address that a text names. -/
def read? (s : String) : Option SocketAddress := readV4Socket s.toList <|> readV6Socket s.toList

/-! ## Writing -/

/-- Texts with one between each two. -/
def joined (sep : String) (texts : List String) : String := sep.intercalate texts

/-- The length of the run of zeros at the front. -/
def zeroRun (gs : List Nat) : Nat := (gs.takeWhile (· = 0)).length

/-- Start and length of the longest run of zeros, the first of equals. -/
def longestRun (gs : List Nat) : Nat × Nat :=
  (List.range gs.length).foldl
    (fun best i => if best.2 < zeroRun (gs.drop i) then (i, zeroRun (gs.drop i)) else best) (0, 0)

/-- Groups in lower-case hexadecimal with colons between them. -/
def writeGroups (gs : List Nat) : String :=
  joined ":" (gs.map fun g => String.ofList (Nat.toDigits 16 g))

/-- An IPv6 address. -/
def writeV6 (gs : List Nat) : String :=
  match gs with
  | [0, 0, 0, 0, 0, 65535, x, y] =>
    "::ffff:" ++ joined "." ([x / 256, x % 256, y / 256, y % 256].map Decimal.write)
  | _ =>
    let (start, length) := longestRun gs
    if 1 < length then writeGroups (gs.take start) ++ "::" ++ writeGroups (gs.drop (start + length))
    else writeGroups gs

/-- The text of an address. -/
def write : SocketAddress → String
  | .v4 octets port => joined "." (octets.map Decimal.write) ++ ":" ++ Decimal.write port
  | .v6 groups scope port =>
    let suffix := if scope = 0 then "" else "%" ++ Decimal.write scope
    "[" ++ writeV6 groups ++ suffix ++ "]:" ++ Decimal.write port

end SocketAddress

end ReplicatedStore
