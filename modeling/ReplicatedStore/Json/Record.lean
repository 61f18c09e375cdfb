import ReplicatedStore.Json.Reader
/-!
# Records and tagged values in JSON

A record is an object with known members, in any order and among others that are ignored, or an
array of the members in their declared order. A known member may occur once. In an object an
optional member may be missing; in an array every member is there, except that one with a default
may be missing at the end.

A tagged value is a bare name, or an object with one member named for the tag.
-/
namespace ReplicatedStore.Json

/-- The known members of a record. -/
structure Record where
  /-- Whether the members were given by position. -/
  positional : Bool
  members : List (String × Json)

/-- The known members of an object; none if a name is not a text or a known one occurs twice. -/
def knownMembers? (names : List String) : List (Option String × Json) → Option (List (String × Json))
  | [] => some []
  | (none, _) :: _ => none
  | (some k, j) :: ms => do
    let known ← knownMembers? names ms
    if !names.contains k then return known
    else if known.any (·.1 == k) then none
    else return (k, j) :: known

/-- Read a value as a record with the given members. -/
def record? (names : List String) : Json → Option Record
  | .array items => if items.length ≤ names.length then some ⟨true, names.zip items⟩ else none
  | .object members => (knownMembers? names members).map (⟨false, ·⟩)
  | _ => none

namespace Record

/-- A member's value, if the member is there. -/
def find? (r : Record) (name : String) : Option Json :=
  (r.members.find? (·.1 == name)).map (·.2)

/-- A member that has to be there. -/
def required {α : Type} (r : Record) (name : String) (f : Json → Option α) : Option α :=
  (r.find? name).bind f

/-- A member that may be `null`, or missing from an object. -/
def optional {α : Type} (r : Record) (name : String) (f : Json → Option α) : Option (Option α) :=
  match r.find? name with
  | none => if r.positional then none else some none
  | some .null => some none
  | some j => (f j).map some

/-- A member with a default. -/
def withDefault {α : Type} (r : Record) (name : String) (d : α) (f : Json → Option α) : Option α :=
  match r.find? name with
  | none => some d
  | some j => f j

end Record

/-- The tag of a value and what it is put before; a bare name has nothing. -/
def variant? : Json → Option (String × Option Json)
  | .string (some tag) => some (tag, none)
  | .object [(some tag, j)] => some (tag, some j)
  | _ => none

/-- What a tag without contents may be put before. -/
def unit? : Option Json → Option Unit
  | none => some ()
  | some .null => some ()
  | some _ => none

/-- A word. -/
def word? : Json → Option Nat
  | .number (some n) => if n ≤ maxWord then some n else none
  | _ => none

/-- A truth value. -/
def bool? : Json → Option Bool
  | .bool b => some b
  | _ => none

/-- A text. -/
def text? : Json → Option String
  | .string s => s
  | _ => none

/-- A value or `null`. -/
def option? {α : Type} (f : Json → Option α) : Json → Option (Option α)
  | .null => some none
  | j => (f j).map some

/-- A list. -/
def list? {α : Type} (f : Json → Option α) : Json → Option (List α)
  | .array items => items.mapM f
  | _ => none

end ReplicatedStore.Json
