import ReplicatedStore.Json.Basic
import ReplicatedStore.Text.Decimal
/-!
# Reading JSON

`Json.read?` reads one value that fills a text, blanks around it aside. Blanks are space, tab,
line feed and carriage return. A trailing comma, a leading zero, a raw control character in a
string and anything after the value are errors. A string with an unpaired surrogate, or with bytes
that are not UTF-8, is read as a string without text (`Json.string none`).
-/
namespace ReplicatedStore.Json

/-- Space, tab, line feed, carriage return. -/
def isBlank (b : UInt8) : Bool := b == 0x20 || b == 0x09 || b == 0x0A || b == 0x0D

/-- Drop the blanks at the front. -/
def skipBlank (bs : Bytes) : Bytes := bs.dropWhile isBlank

/-! ## Strings -/

/-- What a string is written with: bytes as they stand and escaped UTF-16 units. -/
inductive Piece where
  | byte (b : UInt8)
  | unit (n : Nat)
  deriving DecidableEq, Repr

/-- The value of a hexadecimal digit of either case. -/
def hexValue? (b : UInt8) : Option Nat :=
  if 0x30 ≤ b && b ≤ 0x39 then some (b.toNat - 0x30)
  else if 0x61 ≤ b && b ≤ 0x66 then some (b.toNat - 0x61 + 10)
  else if 0x41 ≤ b && b ≤ 0x46 then some (b.toNat - 0x41 + 10)
  else none

/-- The value of four hexadecimal digits. -/
def hexUnit? (a b c d : UInt8) : Option Nat := do
  return (((← hexValue? a) * 16 + (← hexValue? b)) * 16 + (← hexValue? c)) * 16 + (← hexValue? d)

/-- The byte that a one-letter escape stands for. -/
def shortEscape? (b : UInt8) : Option UInt8 :=
  if b = 0x22 ∨ b = 0x5C ∨ b = 0x2F then some b
  else if b = 0x62 then some 0x08
  else if b = 0x66 then some 0x0C
  else if b = 0x6E then some 0x0A
  else if b = 0x72 then some 0x0D
  else if b = 0x74 then some 0x09
  else none

/-- The pieces up to the closing quote, and what follows it. -/
def readPieces : Bytes → Option (List Piece × Bytes)
  | [] => none
  | 0x22 :: r => some ([], r)
  | 0x5C :: 0x75 :: a :: b :: c :: d :: r => do
    let u ← hexUnit? a b c d
    let (ps, r) ← readPieces r
    return (.unit u :: ps, r)
  | 0x5C :: e :: r => do
    let b ← shortEscape? e
    let (ps, r) ← readPieces r
    return (.byte b :: ps, r)
  | b :: r =>
    if b < 0x20 ∨ b = 0x5C then none
    else do
      let (ps, r) ← readPieces r
      return (.byte b :: ps, r)

/-- The first unit of a surrogate pair. -/
def isHighSurrogate (n : Nat) : Bool := 0xD800 ≤ n && n < 0xDC00

/-- The second unit of a surrogate pair. -/
def isLowSurrogate (n : Nat) : Bool := 0xDC00 ≤ n && n < 0xE000

/-- The bytes of a code point in UTF-8. -/
def utf8 (n : Nat) : Bytes := String.utf8EncodeChar (Char.ofNat n)

/-- The bytes that pieces spell; none if a surrogate has no partner. -/
def assemble : List Piece → Option Bytes
  | [] => some []
  | .byte b :: r => (assemble r).map (b :: ·)
  | .unit h :: .unit l :: r =>
    if isHighSurrogate h then
      if isLowSurrogate l then
        (assemble r).map (utf8 (0x10000 + (h - 0xD800) * 0x400 + (l - 0xDC00)) ++ ·)
      else none
    else if isLowSurrogate h then none
    else (assemble (.unit l :: r)).map (utf8 h ++ ·)
  | .unit h :: r =>
    if isHighSurrogate h || isLowSurrogate h then none else (assemble r).map (utf8 h ++ ·)

/-- The text that pieces spell. -/
def content? (ps : List Piece) : Option String := (assemble ps).bind Bytes.toString?

/-- A string after its opening quote. -/
def readString (bs : Bytes) : Option (Option String × Bytes) :=
  (readPieces bs).map fun (ps, r) => (content? ps, r)

/-! ## Numbers -/

/-- An ASCII digit. -/
def isDigit (b : UInt8) : Bool := 0x30 ≤ b && b ≤ 0x39

/-- The value of digits. -/
def digitsValue (ds : Bytes) : Nat := Decimal.value (ds.map fun b => Char.ofNat b.toNat)

/-- At least one digit. -/
def readDigits (bs : Bytes) : Option (Bytes × Bytes) :=
  match bs.takeWhile isDigit with
  | [] => none
  | ds => some (ds, bs.dropWhile isDigit)

/-- Digits without a leading zero, or a lone zero. -/
def readInteger (bs : Bytes) : Option (Bytes × Bytes) := do
  let (ds, r) ← readDigits bs
  match ds with
  | 0x30 :: _ :: _ => none
  | _ => return (ds, r)

/-- A fraction, if one is there: whether it was, and what follows. -/
def readFraction : Bytes → Option (Bool × Bytes)
  | 0x2E :: r => (readDigits r).map fun (_, r) => (true, r)
  | bs => some (false, bs)

/-- An exponent, if one is there: whether it was, and what follows. -/
def readExponent : Bytes → Option (Bool × Bytes)
  | e :: r =>
    if e = 0x65 ∨ e = 0x45 then
      match r with
      | 0x2B :: r => (readDigits r).map fun (_, r) => (true, r)
      | 0x2D :: r => (readDigits r).map fun (_, r) => (true, r)
      | r => (readDigits r).map fun (_, r) => (true, r)
    else some (false, e :: r)
  | [] => some (false, [])

/-- A number without its sign: the natural it is written as, unless it has more parts. -/
def readUnsigned (bs : Bytes) : Option (Option Nat × Bytes) := do
  let (ds, r) ← readInteger bs
  let (fraction, r) ← readFraction r
  let (exponent, r) ← readExponent r
  return (if fraction || exponent then none else some (digitsValue ds), r)

/-- A number. -/
def readNumber : Bytes → Option (Option Nat × Bytes)
  | 0x2D :: r => (readUnsigned r).map fun (_, r) => (none, r)
  | bs => readUnsigned bs

/-! ## Values -/

/-- A number or one of the three words. -/
def readScalar : Bytes → Option (Json × Bytes)
  | 0x6E :: 0x75 :: 0x6C :: 0x6C :: r => some (.null, r)
  | 0x74 :: 0x72 :: 0x75 :: 0x65 :: r => some (.bool true, r)
  | 0x66 :: 0x61 :: 0x6C :: 0x73 :: 0x65 :: r => some (.bool false, r)
  | bs => (readNumber bs).map fun (n, r) => (.number n, r)

mutual

/-- A value, blanks before it allowed. Each level of nesting and each item takes one from the
first argument. -/
def readValue : Nat → Bytes → Option (Json × Bytes)
  | 0, _ => none
  | n + 1, bs =>
    match skipBlank bs with
    | 0x22 :: r => (readString r).map fun (s, r) => (.string s, r)
    | 0x5B :: r =>
      match skipBlank r with
      | 0x5D :: r => some (.array [], r)
      | r => (readItems n r).map fun (js, r) => (.array js, r)
    | 0x7B :: r =>
      match skipBlank r with
      | 0x7D :: r => some (.object [], r)
      | r => (readMembers n r).map fun (ms, r) => (.object ms, r)
    | r => readScalar r

/-- The items of an array up to its closing bracket. -/
def readItems : Nat → Bytes → Option (List Json × Bytes)
  | 0, _ => none
  | n + 1, bs => do
    let (j, r) ← readValue n bs
    match skipBlank r with
    | 0x2C :: r => (readItems n r).map fun (js, r) => (j :: js, r)
    | 0x5D :: r => return ([j], r)
    | _ => none

/-- The members of an object up to its closing brace. -/
def readMembers : Nat → Bytes → Option (List (Option String × Json) × Bytes)
  | 0, _ => none
  | n + 1, bs => do
    match skipBlank bs with
    | 0x22 :: r =>
      let (key, r) ← readString r
      match skipBlank r with
      | 0x3A :: r =>
        let (j, r) ← readValue n r
        match skipBlank r with
        | 0x2C :: r => (readMembers n r).map fun (ms, r) => ((key, j) :: ms, r)
        | 0x7D :: r => return ([(key, j)], r)
        | _ => none
      | _ => none
    | _ => none

end

/-- The value that a text is, if it is one. -/
def read? (bs : Bytes) : Option Json :=
  match readValue (bs.length + 1) bs with
  | some (j, r) => if (skipBlank r).isEmpty then some j else none
  | none => none

end ReplicatedStore.Json
