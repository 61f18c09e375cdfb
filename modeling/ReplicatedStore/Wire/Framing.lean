import ReplicatedStore.Json.Basic
/-!
# Framing

A stream of bytes carries frames, each after its length in four bytes, the high byte first. A
length above the limit ends the stream.

* `length_writeLength`: a length takes four bytes.
* `readLength?_writeLength`: a written length is read back.
-/
namespace ReplicatedStore.Framing

/-- The largest frame. -/
def maxLength : Nat := 8388608

/-- A length in four bytes. -/
def writeLength (n : Nat) : Bytes :=
  [UInt8.ofNat (n / 16777216), UInt8.ofNat (n / 65536), UInt8.ofNat (n / 256), UInt8.ofNat n]

/-- The length at the front of a stream, and what follows it. -/
def readLength? : Bytes → Option (Nat × Bytes)
  | a :: b :: c :: d :: r =>
    some (a.toNat * 16777216 + b.toNat * 65536 + c.toNat * 256 + d.toNat, r)
  | _ => none

/-- A frame as it is sent; none if it is too long. -/
def write? (frame : Bytes) : Option Bytes :=
  if frame.length ≤ maxLength then some (writeLength frame.length ++ frame) else none

/-- What the front of a stream holds. -/
inductive Front where
  /-- A whole frame, and what follows it. -/
  | frame (content rest : Bytes)
  /-- Not yet a whole frame. -/
  | incomplete
  | tooLong
  deriving DecidableEq, Repr

/-- Look at the front of a stream. -/
def front (stream : Bytes) : Front :=
  match readLength? stream with
  | none => .incomplete
  | some (n, r) =>
    if maxLength < n then .tooLong
    else if r.length < n then .incomplete
    else .frame (r.take n) (r.drop n)

theorem length_writeLength (n : Nat) : (writeLength n).length = 4 := rfl

theorem readLength?_writeLength {n : Nat} (h : n ≤ maxLength) (r : Bytes) :
    readLength? (writeLength n ++ r) = some (n, r) := by
  unfold maxLength at h
  simp only [writeLength, readLength?, List.cons_append, List.nil_append, UInt8.toNat_ofNat',
    Option.some.injEq, Prod.mk.injEq, and_true]
  omega

end ReplicatedStore.Framing
