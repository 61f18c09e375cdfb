/-!
# JSON values

What a JSON text denotes, as far as a reader of records needs it. A number is kept when it is
written as a plain natural, a string when it is well formed; a value may hold others of either
kind, which no field accepts but which may stand in members that are ignored.
-/
namespace ReplicatedStore

/-- Text as it is stored and sent. -/
abbrev Bytes := List UInt8

namespace Bytes

/-- The bytes of a text in UTF-8. -/
def ofString (s : String) : Bytes := s.toByteArray.data.toList

/-- The text that bytes spell in UTF-8, if they do. -/
def toString? (bs : Bytes) : Option String := String.fromUTF8? ⟨bs.toArray⟩

theorem toString?_ofString (s : String) : toString? (ofString s) = some s := by
  have hv : ByteArray.IsValidUTF8 ⟨(ofString s).toArray⟩ := s.isValidUTF8
  rw [toString?, String.fromUTF8?, dif_pos hv]
  rfl

end Bytes

/-- A JSON value. -/
inductive Json where
  | null
  | bool (b : Bool)
  /-- A number; `none` when it has a sign, a fraction or an exponent. -/
  | number (n : Option Nat)
  /-- A string; `none` when it is not the text of any sequence of characters. -/
  | string (s : Option String)
  | array (items : List Json)
  /-- An object, its members in the order written. -/
  | object (members : List (Option String × Json))
  deriving Repr, Inhabited

namespace Json

/-- A natural. -/
def nat (n : Nat) : Json := .number (some n)

/-- A text. -/
def text (s : String) : Json := .string (some s)

/-- A value or `null`. -/
def option {α : Type} (f : α → Json) : Option α → Json
  | none => .null
  | some a => f a

/-- A list. -/
def list {α : Type} (f : α → Json) (l : List α) : Json := .array (l.map f)

/-- An object with the given members. -/
def record (members : List (String × Json)) : Json :=
  .object (members.map fun m => (some m.1, m.2))

/-- An object with one member: a tagged value. -/
def tagged (tag : String) (j : Json) : Json := .object [(some tag, j)]

end Json

end ReplicatedStore
