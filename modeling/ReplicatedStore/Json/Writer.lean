import ReplicatedStore.Json.Basic
import ReplicatedStore.Text.Decimal
/-!
# Writing JSON

Two layouts: `Json.write` without any blank, and `Json.writeIndented` with a member a line and two
spaces a level. In both a string escapes the quote, the backslash and the bytes below 0x20 and
leaves everything else as it is, so no byte below 0x20 is ever inside a written string.
-/
namespace ReplicatedStore.Json

/-- The bytes of an ASCII text. -/
def ascii (cs : List Char) : Bytes := cs.map fun c => c.toNat.toUInt8

/-- A hexadecimal digit, lower case. -/
def hexDigit (n : Nat) : UInt8 := if n < 10 then (0x30 + n).toUInt8 else (0x57 + n).toUInt8

/-- A byte inside quotes. -/
def escape (b : UInt8) : Bytes :=
  if b = 0x22 then [0x5C, 0x22]
  else if b = 0x5C then [0x5C, 0x5C]
  else if b = 0x08 then [0x5C, 0x62]
  else if b = 0x09 then [0x5C, 0x74]
  else if b = 0x0A then [0x5C, 0x6E]
  else if b = 0x0C then [0x5C, 0x66]
  else if b = 0x0D then [0x5C, 0x72]
  else if b < 0x20 then [0x5C, 0x75, 0x30, 0x30, hexDigit (b.toNat / 16), hexDigit (b.toNat % 16)]
  else [b]

/-- A text between quotes. -/
def writeString (s : String) : Bytes :=
  0x22 :: (Bytes.ofString s).flatMap escape ++ [0x22]

/-- A value that holds no others. A number or a string without a value is written as `null`. -/
def writeScalar : Json → Bytes
  | .bool true => [0x74, 0x72, 0x75, 0x65]
  | .bool false => [0x66, 0x61, 0x6C, 0x73, 0x65]
  | .number (some n) => ascii (Decimal.digits n)
  | .string (some s) => writeString s
  | _ => [0x6E, 0x75, 0x6C, 0x6C]

/-- The text of a member's name. -/
def writeKey (key : Option String) : Bytes := writeString (key.getD "")

mutual

/-- A value without blanks. -/
def write : Json → Bytes
  | .array items => 0x5B :: writeItems items ++ [0x5D]
  | .object members => 0x7B :: writeMembers members ++ [0x7D]
  | j => writeScalar j

/-- Items with commas between them. -/
def writeItems : List Json → Bytes
  | [] => []
  | [j] => write j
  | j :: j' :: js => write j ++ 0x2C :: writeItems (j' :: js)

/-- Members with commas between them. -/
def writeMembers : List (Option String × Json) → Bytes
  | [] => []
  | [(key, j)] => writeKey key ++ 0x3A :: write j
  | (key, j) :: m :: ms => writeKey key ++ 0x3A :: write j ++ 0x2C :: writeMembers (m :: ms)

end

/-- The start of a line at a level. -/
def newline (level : Nat) : Bytes := 0x0A :: List.replicate (2 * level) 0x20

mutual

/-- A value with a member or item a line, at a level. -/
def writeAt (level : Nat) : Json → Bytes
  | .array [] => [0x5B, 0x5D]
  | .array (j :: js) =>
    0x5B :: writeItemsAt (level + 1) (j :: js) ++ newline level ++ [0x5D]
  | .object [] => [0x7B, 0x7D]
  | .object (m :: ms) =>
    0x7B :: writeMembersAt (level + 1) (m :: ms) ++ newline level ++ [0x7D]
  | j => writeScalar j

/-- Items, each on a line of its own. -/
def writeItemsAt (level : Nat) : List Json → Bytes
  | [] => []
  | [j] => newline level ++ writeAt level j
  | j :: j' :: js => newline level ++ writeAt level j ++ 0x2C :: writeItemsAt level (j' :: js)

/-- Members, each on a line of its own. -/
def writeMembersAt (level : Nat) : List (Option String × Json) → Bytes
  | [] => []
  | [(key, j)] => newline level ++ writeKey key ++ [0x3A, 0x20] ++ writeAt level j
  | (key, j) :: m :: ms =>
    newline level ++ writeKey key ++ [0x3A, 0x20] ++ writeAt level j ++
      0x2C :: writeMembersAt level (m :: ms)

end

/-- A value with a member a line. -/
def writeIndented (j : Json) : Bytes := writeAt 0 j

end ReplicatedStore.Json
