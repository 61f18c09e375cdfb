import Mathlib.Data.List.Induction
import ReplicatedStore.Proofs.Images
import ReplicatedStore.Proofs.JsonStrings
/-!
# What compaction keeps

A history is folded stretch by stretch, each image being where the next fold starts. However the
history is cut,

* the image is that of the whole history (`Image.foldl_fold`);
* its entries are the last writes of the live keys (`Image.mem_fold_iff`), in the order of the
  bytes of their keys (`Image.fold_ascending`);
* restoring it gives the contents that executing the history gives (`Image.execute_restoreInto`).

`image_of_stretches` puts them together. A put without a value leaves no trace in an image and
cannot be executed, so it is left out on both sides.
-/
namespace ReplicatedStore

/-! ## The order of keys

Texts are compared by code points, and their UTF-8 bytes are in the same order.
-/

namespace Bytes

theorem utf8EncodeChar_append_lt {c d : Char} (h : c < d) (x y : Bytes) :
    String.utf8EncodeChar c ++ x < String.utf8EncodeChar d ++ y := by
  have hlt : c.val.toNat < d.val.toNat := h
  have hd : d.val.toNat < 0x110000 := by
    have := d.valid
    simp only [UInt32.isValidChar, Nat.isValidChar] at this
    omega
  simp only [String.utf8EncodeChar]
  -- with both widths known, the first bytes that differ are in the order of the code points
  repeat' split
  all_goals
    simp (disch := omega) only [List.cons_append, List.nil_append, List.cons_lt_cons_iff,
      UInt8.lt_iff_toNat_lt, ← UInt8.toNat_inj, UInt8.toNat_ofNat', Nat.mod_eq_of_lt]
    omega

theorem nil_lt_utf8EncodeChar_append (c : Char) (x : Bytes) :
    [] < String.utf8EncodeChar c ++ x := by
  rw [String.utf8EncodeChar]
  repeat' split
  all_goals exact List.nil_lt_cons _ _

theorem flatMap_utf8EncodeChar_lt {cs ds : List Char} (h : cs < ds) :
    cs.flatMap String.utf8EncodeChar < ds.flatMap String.utf8EncodeChar := by
  induction cs generalizing ds with
  | nil =>
    cases ds with
    | nil => exact absurd h (List.not_lt_nil _)
    | cons d ds =>
      rw [List.flatMap_cons]
      exact nil_lt_utf8EncodeChar_append d _
  | cons c cs ih =>
    cases ds with
    | nil => exact absurd h (List.not_lt_nil _)
    | cons d ds =>
      rw [List.flatMap_cons, List.flatMap_cons]
      rcases List.cons_lt_cons_iff.1 h with hc | ⟨rfl, hcs⟩
      · exact utf8EncodeChar_append_lt hc _ _
      · exact List.append_left_lt (ih hcs)

/-- Keys in ascending order have ascending bytes. -/
theorem ofString_lt {s t : String} (h : compare s t = .lt) : ofString s < ofString t := by
  have hlt : s < t := compareOfLessAndEq_eq_lt.1 h
  rw [ofString_eq, ofString_eq]
  exact flatMap_utf8EncodeChar_lt (String.lt_iff.1 hlt)

end Bytes

/-! ## Last writes -/

namespace Image

/-- A delete of a key. -/
def IsDelete (k : String) (e : Entry) : Prop :=
  e.command.operation = .delete ∧ e.command.key = k

/-- The last put of `k` in `history` that carries a value, with no delete of `k` after it. -/
def LastWrite (k : String) (history : List Entry) (w : Entry) : Prop :=
  IsWrite k w ∧ ∃ before after, history = before ++ w :: after ∧
    ∀ e ∈ after, ¬ IsWrite k e ∧ ¬ IsDelete k e

/-- What one more entry does to the last write of a key. -/
theorem lastWrite_concat {k : String} {history : List Entry} {e w : Entry} :
    LastWrite k (history ++ [e]) w ↔
      (IsWrite k e ∧ w = e) ∨ (¬ IsWrite k e ∧ ¬ IsDelete k e ∧ LastWrite k history w) := by
  constructor
  · rintro ⟨hw, before, after, heq, hafter⟩
    rcases List.eq_nil_or_concat after with rfl | ⟨after, e', rfl⟩
    · obtain ⟨rfl, hwe⟩ := List.append_inj' heq rfl
      cases hwe
      exact .inl ⟨hw, rfl⟩
    · rw [List.concat_eq_append, ← List.cons_append, ← List.append_assoc] at heq
      obtain ⟨rfl, he⟩ := List.append_inj' heq rfl
      cases he
      obtain ⟨hnw, hnd⟩ := hafter e (by simp)
      exact .inr ⟨hnw, hnd, hw, before, after, rfl, fun x hx => hafter x (by simp [hx])⟩
  · rintro (⟨he, rfl⟩ | ⟨hnw, hnd, hw, before, after, rfl, hafter⟩)
    · exact ⟨he, history, [], rfl, by simp⟩
    · refine ⟨hw, before, after ++ [e], by simp, fun x hx => ?_⟩
      rcases List.mem_append.1 hx with hx | hx
      · exact hafter x hx
      · rw [List.mem_singleton.1 hx]
        exact ⟨hnw, hnd⟩

/-- What one more entry does to the entry under a key. -/
theorem get?_note {t : Table String Entry} {e w : Entry} {k : String} :
    (note t e).get? k = some w ↔
      (IsWrite k e ∧ w = e) ∨ (¬ IsWrite k e ∧ ¬ IsDelete k e ∧ t.get? k = some w) := by
  by_cases hk : k = e.command.key
  · subst hk
    unfold note IsWrite IsDelete
    cases ho : e.command.operation with
    | put => cases hv : e.command.value <;> simp [Table.get?_insert_self, eq_comm]
    | get => simp
    | delete => simp [Table.get?_erase_self]
  · have hw : ¬ IsWrite k e := fun h => hk h.2.1.symm
    have hd : ¬ IsDelete k e := fun h => hk h.2.symm
    have hget : (note t e).get? k = t.get? k := by
      unfold note
      split
      · exact Table.get?_insert_of_ne t e hk
      · rfl
      · exact Table.get?_erase_of_ne t hk
      · rfl
    simp [hget, hw, hd]

theorem get?_live_iff {k : String} {history : List Entry} {w : Entry} :
    (live history).get? k = some w ↔ LastWrite k history w := by
  induction history using List.reverseRecOn with
  | nil => simp [live, LastWrite, Table.get?_empty]
  | append_singleton history e ih =>
    rw [live_append, List.foldl_cons, List.foldl_nil, get?_note, lastWrite_concat, ih]

/-- **The entries of an image are the last writes of the live keys.** -/
theorem mem_fold_iff {history : List Entry} {e : Entry} :
    e ∈ fold [] history ↔ LastWrite e.command.key history e := by
  rw [fold_eq_values, List.nil_append, Table.mem_values]
  constructor
  · rintro ⟨k, hk⟩
    have hw := get?_live_iff.1 hk
    obtain ⟨-, rfl, -⟩ := hw.1
    exact hw
  · exact fun hw => ⟨_, get?_live_iff.2 hw⟩

/-- **An image is in the order of the bytes of its keys.** -/
theorem fold_ascending (history : List Entry) :
    (fold [] history).Pairwise fun a b =>
      Bytes.ofString a.command.key < Bytes.ofString b.command.key := by
  rw [fold_eq_values, List.nil_append, Table.values, List.pairwise_map]
  -- a binding stands under the key of its own entry
  have hkey := allWrites_live history
  refine (live history).sorted.imp_of_mem fun {a b} ha hb hab => ?_
  rw [(hkey a ha).2.1, (hkey b hb).2.1]
  exact Bytes.ofString_lt hab

/-- **A history may be cut anywhere, any number of times.** -/
theorem foldl_fold (stretches : List (List Entry)) (history : List Entry) :
    stretches.foldl fold (fold [] history) = fold [] (history ++ stretches.flatten) := by
  induction stretches generalizing history with
  | nil => simp
  | cons stretch rest ih =>
    rw [List.foldl_cons, fold_fold, ih, List.flatten_cons, List.append_assoc]

end Image

/-! ## Restoring onto any contents -/

/-- Drop all contents. -/
def Machine.clear (_ : Machine) : Machine := .empty

namespace Image

/-- Replace the contents of a machine by what an image stands for. -/
def restoreInto (entries : List Entry) (m : Machine) : Machine := entries.foldl replay m.clear

theorem restoreInto_eq (entries : List Entry) (m : Machine) :
    restoreInto entries m = restore entries := rfl

/-- A put without a value leaves no trace in the contents. -/
theorem replay_of_not_valued {e : Entry} (h : ¬ e.command.Valued) (m : Machine) :
    replay m e = m := by
  simp only [Command.Valued, Classical.not_imp, Option.not_isSome_iff_eq_none] at h
  simp [replay, h]

theorem foldl_replay_filter (history : List Entry) (m : Machine) :
    (history.filter (·.command.Valued)).foldl replay m = history.foldl replay m := by
  induction history generalizing m with
  | nil => rfl
  | cons e rest ih =>
    by_cases he : e.command.Valued
    · rw [List.filter_cons_of_pos (by simpa using he), List.foldl_cons, List.foldl_cons, ih]
    · rw [List.filter_cons_of_neg (by simpa using he), List.foldl_cons,
        replay_of_not_valued he, ih]

/-- **Restoring an image gives what executing its history gives**, whatever was there before. -/
theorem execute_restoreInto (history : List Entry) (m : Machine) :
    ∃ answers, m.clear.execute (history.filter (·.command.Valued)) =
      .ok (answers, restoreInto (fold [] history) m) := by
  have hvalued : ∀ e ∈ history.filter (·.command.Valued), e.command.Valued := by simp
  obtain ⟨answers, hex, -⟩ := Machine.execute_eq hvalued m.clear
  refine ⟨answers, ?_⟩
  rw [hex, foldl_replay_filter, restoreInto_eq, restore_fold]
  rfl

end Image

/-- **Compaction never changes the state.** However a history is cut into stretches, folding them
one after another gives the image of the whole history. Its entries are the last valued puts of
the keys that no delete has freed, in strictly ascending order of the keys' bytes, so there is one
for each such key. On any machine it is restored to the contents that clearing the machine and
executing the history gives, where puts without a value are passed over. -/
theorem image_of_stretches (stretches : List (List Entry)) :
    let history := stretches.flatten
    let image := stretches.foldl Image.fold []
    image = Image.fold [] history ∧
    (image.Pairwise fun a b =>
      Bytes.ofString a.command.key < Bytes.ofString b.command.key) ∧
    (∀ e, e ∈ image ↔ Image.LastWrite e.command.key history e) ∧
    ∀ m : Machine, ∃ answers,
      m.clear.execute (history.filter (·.command.Valued)) =
        .ok (answers, Image.restoreInto image m) := by
  intro history image
  have himage : image = Image.fold [] history := Image.foldl_fold stretches []
  rw [himage]
  exact ⟨rfl, Image.fold_ascending history, fun _ => Image.mem_fold_iff,
    Image.execute_restoreInto history⟩

/-- A write in an image goes with a later delete, and one of the same key takes its place. -/
example : [[⟨1, 1, .put "b" "1"⟩, ⟨1, 2, .put "a" "1"⟩],
    [⟨2, 3, .delete "b"⟩, ⟨2, 4, .put "a" "2"⟩]].foldl Image.fold [] =
      [⟨2, 4, .put "a" "2"⟩] := by
  decide +kernel

end ReplicatedStore
