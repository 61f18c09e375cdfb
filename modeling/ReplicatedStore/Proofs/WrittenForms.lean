import ReplicatedStore.Proofs.Instants
import ReplicatedStore.Proofs.JsonWriting
import ReplicatedStore.Storage.Metadata
import ReplicatedStore.Wire.Image
/-!
# Written forms and reading them back

`Json.Form` is what a pair of a written form and a reader has to satisfy: every written form is
plain, and the reader gives back what was written, for values whose words are words. With the text
around it, that is `Json.Form.decode?_encode`.

The forms of what is stored: `Entry.form`, `Metadata.form`, `Image.form`.
-/
namespace ReplicatedStore

namespace Json

/-! ## Members -/

theorem Plain.record {ms : List (String × Json)} (h : ∀ m ∈ ms, Plain m.2) :
    Plain (.record ms) := by
  refine .object (fun m hm => ?_) (fun m hm => ?_) <;>
    obtain ⟨m, hmem, rfl⟩ := List.mem_map.1 hm
  · rfl
  · exact h m hmem

theorem Plain.option {α : Type} {f : α → Json} (h : ∀ a, Plain (f a)) (o : Option α) :
    Plain (.option f o) := by
  cases o with
  | none => exact .null
  | some a => exact h a

theorem Plain.list {α : Type} {f : α → Json} {l : List α} (h : ∀ a ∈ l, Plain (f a)) :
    Plain (.list f l) := by
  refine .array fun j hj => ?_
  obtain ⟨a, ha, rfl⟩ := List.mem_map.1 hj
  exact h a ha

theorem knownMembers?_record {names : List String} {ms : List (String × Json)}
    (hnames : ∀ m ∈ ms, m.1 ∈ names) (hnodup : (ms.map Prod.fst).Nodup) :
    knownMembers? names (ms.map fun m => (some m.1, m.2)) = some ms := by
  induction ms with
  | nil => rfl
  | cons m ms ih =>
    obtain ⟨hnew, hnodup⟩ := List.nodup_cons.1 hnodup
    have hname : names.contains m.1 = true := by simpa using hnames m (by simp)
    have hfresh : ms.any (·.1 == m.1) = false := by
      simp only [List.any_eq_false, beq_iff_eq]
      exact fun m' hm' he => hnew (he ▸ List.mem_map_of_mem hm')
    rw [List.map_cons, knownMembers?, ih (fun m' hm' => hnames m' (by simp [hm'])) hnodup]
    simp only [Option.bind_eq_bind, Option.bind_some, hname, hfresh, Bool.not_true,
      Bool.false_eq_true, if_false]
    rfl

/-- The members of a record are found again under their names. -/
theorem record?_record (names : List String) (hnodup : names.Nodup) {ms : List (String × Json)}
    (hnames : ms.map Prod.fst = names) :
    record? names (.record ms) = some ⟨false, ms⟩ := by
  subst hnames
  rw [Json.record, record?, knownMembers?_record (fun m hm => List.mem_map_of_mem hm) hnodup,
    Option.map_some]

theorem word?_nat {n : Nat} (h : n ≤ maxWord) : word? (.nat n) = some n := if_pos h

@[simp] theorem text?_text (s : String) : text? (.text s) = some s := rfl

namespace Record

variable {α : Type} {r : Record} {name : String} {f : Json → Option α}

theorem required_eq {j : Json} {a : α} (hj : r.find? name = some j) (ha : f j = some a) :
    r.required name f = some a := by
  rw [required, hj, Option.bind_some, ha]

theorem optional_eq (toJson : α → Json) {o : Option α} (hj : r.find? name = some (.option toJson o))
    (hnull : ∀ a, toJson a ≠ .null) (ho : ∀ a ∈ o, f (toJson a) = some a) :
    r.optional name f = some o := by
  rw [optional, hj]
  cases o with
  | none => rfl
  | some a =>
    rw [Json.option]
    split
    · rename_i he
      cases he
    · rename_i he
      exact absurd (Option.some.inj he) (hnull a)
    · rename_i he
      cases he
      rw [ho a rfl, Option.map_some]

theorem withDefault_eq {j : Json} {a d : α} (hj : r.find? name = some j) (ha : f j = some a) :
    r.withDefault name d f = some a := by
  rw [withDefault, hj]
  exact ha

end Record

theorem list?_list {α : Type} {toJson : α → Json} {f : Json → Option α} {l : List α}
    (h : ∀ a ∈ l, f (toJson a) = some a) : list? f (.list toJson l) = some l := by
  rw [Json.list, list?]
  induction l with
  | nil => rfl
  | cons a l ih =>
    rw [List.map_cons, List.mapM_cons]
    refine (bind_of_eq_some (h a (by simp)) _).trans ?_
    exact bind_of_eq_some (ih fun b hb => h b (by simp [hb])) _

/-! ## Forms -/

/-- A reader gives back what is written, for the values that satisfy a condition. -/
structure Form {α : Type} (toJson : α → Json) (ofJson? : Json → Option α) (P : α → Prop) :
    Prop where
  plain : ∀ a, Plain (toJson a)
  back : ∀ {a}, P a → ofJson? (toJson a) = some a

namespace Form

variable {α : Type} {toJson : α → Json} {ofJson? : Json → Option α} {P : α → Prop}

theorem decode?_encode (h : Form toJson ofJson? P) {a : α} (ha : P a) :
    decode? ofJson? (encode toJson a) = some a := by
  rw [decode?, encode, read?_write (h.plain a), Option.bind_some, h.back ha]

end Form

end Json

/-! ## Commands and entries -/

/-- Term and index are words. -/
structure Entry.Fits (e : Entry) : Prop where
  term : e.term ≤ maxWord
  index : e.index ≤ maxWord

theorem Operation.form : Json.Form Operation.toJson Operation.ofJson? fun _ => True where
  plain o := .text o.name
  back {o} _ := by cases o <;> decide

theorem Command.form : Json.Form Command.toJson Command.ofJson? fun _ => True where
  plain c := by
    refine .record fun m hm => ?_
    simp only [List.mem_cons, List.not_mem_nil, or_false] at hm
    rcases hm with rfl | rfl | rfl
    · exact Operation.form.plain _
    · exact .text _
    · exact .option .text _
  back {c} _ := by
    refine (bind_of_eq_some (Json.record?_record ["operation", "key", "value"] (by decide) rfl)
      _).trans ?_
    refine (bind_of_eq_some (Json.Record.required_eq rfl (Operation.form.back trivial)) _).trans ?_
    refine (bind_of_eq_some (Json.Record.required_eq rfl (Json.text?_text _)) _).trans ?_
    refine (bind_of_eq_some (Json.Record.optional_eq Json.text rfl (fun _ => ?_) fun _ _ => rfl)
      _).trans ?_
    · rintro ⟨⟩
    · rfl

theorem Entry.form : Json.Form Entry.toJson Entry.ofJson? Entry.Fits where
  plain e := by
    refine .record fun m hm => ?_
    simp only [List.mem_cons, List.not_mem_nil, or_false] at hm
    rcases hm with rfl | rfl | rfl
    · exact .nat _
    · exact .nat _
    · exact Command.form.plain _
  back {e} he := by
    refine (bind_of_eq_some (Json.record?_record ["term", "index", "command"] (by decide) rfl)
      _).trans ?_
    refine (bind_of_eq_some (Json.Record.required_eq rfl (Json.word?_nat he.term)) _).trans ?_
    refine (bind_of_eq_some (Json.Record.required_eq rfl (Json.word?_nat he.index)) _).trans ?_
    exact bind_of_eq_some (Json.Record.required_eq rfl (Command.form.back trivial)) _

/-! ## Metadata -/

/-- Term, vote and commit index are words. -/
structure Metadata.Fits (m : Metadata) : Prop where
  term : m.ballot.term ≤ maxWord
  vote : ∀ v ∈ m.ballot.vote, v ≤ maxWord
  commit : m.commit ≤ maxWord

theorem Metadata.form : Json.Form Metadata.toJson Metadata.ofJson? Metadata.Fits where
  plain m := by
    refine .record fun x hx => ?_
    simp only [List.mem_cons, List.not_mem_nil, or_false] at hx
    rcases hx with rfl | rfl | rfl
    · exact .nat _
    · exact .option .nat _
    · exact .nat _
  back {m} hm := by
    refine (bind_of_eq_some (Json.record?_record ["term", "voted_for", "commit_index"] (by decide)
      rfl) _).trans ?_
    refine (bind_of_eq_some (Json.Record.required_eq rfl (Json.word?_nat hm.term)) _).trans ?_
    refine (bind_of_eq_some (Json.Record.optional_eq Json.nat rfl (fun _ => ?_) fun v hv =>
      Json.word?_nat (hm.vote v hv)) _).trans ?_
    · rintro ⟨⟩
    · exact bind_of_eq_some (Json.Record.withDefault_eq rfl (Json.word?_nat hm.commit)) _

/-- Metadata are read back from their text. -/
theorem Metadata.read?_write {m : Metadata} (h : m.Fits) : Metadata.read? m.write = some m := by
  obtain ⟨s, hs⟩ := (Json.isText_writeIndented (Metadata.form.plain m)).exists_toString?
  refine (bind_of_eq_some hs _).trans ?_
  rw [Json.decode?, Metadata.write, Json.read?_writeIndented (Metadata.form.plain m),
    Option.bind_some, Metadata.form.back h]

/-! ## Images -/

/-- Entries, positions and the time are of the ranges that are written. -/
structure Image.Fits (i : Image) : Prop where
  entries : ∀ e ∈ i.entries, e.Fits
  lastIndex : i.lastIndex ≤ maxWord
  lastTerm : i.lastTerm ≤ maxWord
  createdAt : i.createdAt.Fits

theorem Image.form : Json.Form Image.toJson Image.ofJson? Image.Fits where
  plain i := by
    refine .record fun m hm => ?_
    simp only [List.mem_cons, List.not_mem_nil, or_false] at hm
    rcases hm with rfl | rfl | rfl | rfl
    · exact .list fun e _ => Entry.form.plain e
    · exact .nat _
    · exact .nat _
    · exact .text _
  back {i} hi := by
    refine (bind_of_eq_some (Json.record?_record
      ["entries", "last_included_index", "last_included_term", "created_at"] (by decide) rfl)
      _).trans ?_
    have hentries := Json.list?_list fun e he => Entry.form.back (hi.entries e he)
    refine (bind_of_eq_some (Json.Record.required_eq rfl hentries) _).trans ?_
    refine (bind_of_eq_some (Json.Record.required_eq rfl (Json.word?_nat hi.lastIndex)) _).trans ?_
    refine (bind_of_eq_some (Json.Record.required_eq rfl (Json.word?_nat hi.lastTerm)) _).trans ?_
    have htime : (Json.text i.createdAt.write).text?.bind Instant.read? = some i.createdAt := by
      rw [Json.text?_text, Option.bind_some, Instant.read?_write hi.createdAt]
    exact bind_of_eq_some (Json.Record.required_eq (f := fun j => j.text?.bind Instant.read?) rfl
      htime) _

end ReplicatedStore
