import ReplicatedStore.Json.Writer
import ReplicatedStore.Proofs.JsonReading
/-!
# Strings in JSON texts

A text is escaped byte by byte. `Json.readString_escape` says that it is read back from between its
quotes, whatever comes after the closing quote.

A byte that is escaped is ASCII, so an escaped text is UTF-8 again (`Json.isText_escape`), and it
has no byte below 0x20 (`Json.le_of_mem_escape`).
-/
namespace ReplicatedStore

/-! ## UTF-8 -/

namespace Bytes

/-- The bytes are a text in UTF-8. -/
def IsText (bs : Bytes) : Prop := ∃ s, bs = ofString s

theorem ofString_eq (s : String) : ofString s = s.toList.flatMap String.utf8EncodeChar := by
  have h : s.toByteArray = s.toList.utf8Encode := by
    rw [← String.toByteArray_ofList, String.ofList_toList]
  rw [ofString, h]
  exact List.toList_data_toByteArray

theorem ofString_ofList (cs : List Char) :
    ofString (String.ofList cs) = cs.flatMap String.utf8EncodeChar := by
  rw [ofString_eq, String.toList_ofList]

theorem ofString_toString? {bs : Bytes} {s : String} (h : bs.toString? = some s) :
    ofString s = bs := by
  unfold toString? String.fromUTF8? at h
  split at h
  · cases h
    rfl
  · cases h

theorem toString?_eq_some_iff {bs : Bytes} {s : String} :
    bs.toString? = some s ↔ bs = ofString s :=
  ⟨fun h => (ofString_toString? h).symm, fun h => h ▸ toString?_ofString s⟩

namespace IsText

variable {a b : Bytes}

theorem nil : IsText [] := ⟨"", rfl⟩

theorem append (ha : IsText a) (hb : IsText b) : IsText (a ++ b) := by
  obtain ⟨s, rfl⟩ := ha
  obtain ⟨t, rfl⟩ := hb
  exact ⟨s ++ t, by simp [ofString]⟩

theorem exists_toString? (h : IsText a) : ∃ s, a.toString? = some s := by
  obtain ⟨s, rfl⟩ := h
  exact ⟨s, toString?_ofString s⟩

theorem flatMap {α : Type} {l : List α} {f : α → Bytes} (h : ∀ x ∈ l, IsText (f x)) :
    IsText (l.flatMap f) := by
  induction l with
  | nil => exact nil
  | cons x l ih =>
    rw [List.flatMap_cons]
    exact (h x (by simp)).append (ih fun y hy => h y (by simp [hy]))

end IsText

theorem utf8EncodeChar_ascii {c : Char} (h : c.toNat ≤ 127) :
    String.utf8EncodeChar c = [c.toNat.toUInt8] := by
  rw [String.utf8EncodeChar]
  exact if_pos h

theorem toNat_ofNat_ascii {n : Nat} (h : n ≤ 127) : (Char.ofNat n).toNat = n := by
  have hv : n.isValidChar := .inl (by omega)
  rw [Char.ofNat, dif_pos hv]
  rfl

/-- An ASCII byte is a text. -/
theorem isText_singleton {b : UInt8} (h : b.toNat ≤ 127) : IsText [b] := by
  refine ⟨String.ofList [Char.ofNat b.toNat], ?_⟩
  rw [ofString_ofList, List.flatMap_cons, List.flatMap_nil, List.append_nil,
    utf8EncodeChar_ascii (by rw [toNat_ofNat_ascii h]; exact h), toNat_ofNat_ascii h]
  simp

theorem isText_ascii {bs : Bytes} (h : ∀ b ∈ bs, b.toNat ≤ 127) : IsText bs := by
  have hflat : bs = bs.flatMap fun b => [b] := by simp
  rw [hflat]
  exact .flatMap fun b hb => isText_singleton (h b hb)

/-- A character outside ASCII has no ASCII byte. -/
theorem le_of_mem_utf8EncodeChar {c : Char} (h : 127 < c.toNat) {b : UInt8}
    (hb : b ∈ String.utf8EncodeChar c) : 128 ≤ b.toNat := by
  have hval : ¬ c.val.toNat ≤ 127 := Nat.not_le.2 h
  simp only [String.utf8EncodeChar, if_neg hval] at hb
  split at hb
  · simp only [List.mem_cons, List.not_mem_nil, or_false] at hb
    rcases hb with rfl | rfl <;> simp only [UInt8.toNat_ofNat'] <;> omega
  · split at hb
    · simp only [List.mem_cons, List.not_mem_nil, or_false] at hb
      rcases hb with rfl | rfl | rfl <;> simp only [UInt8.toNat_ofNat'] <;> omega
    · simp only [List.mem_cons, List.not_mem_nil, or_false] at hb
      rcases hb with rfl | rfl | rfl | rfl <;> simp only [UInt8.toNat_ofNat'] <;> omega

/-- A text that starts with an ASCII byte starts with that character. -/
theorem exists_toList_of_ofString {s : String} {b : UInt8} {bs : Bytes} (hb : b.toNat ≤ 127)
    (h : ofString s = b :: bs) : ∃ cs, s.toList = Char.ofNat b.toNat :: cs := by
  rw [ofString_eq] at h
  cases hs : s.toList with
  | nil =>
    rw [hs] at h
    cases h
  | cons c cs =>
    rw [hs, List.flatMap_cons] at h
    refine ⟨cs, ?_⟩
    rcases Nat.lt_or_ge 127 c.toNat with hlt | hle
    · -- the first byte of such a character is not ASCII
      have hne : String.utf8EncodeChar c ≠ [] := by
        rw [String.utf8EncodeChar]
        split
        · simp
        · split
          · simp
          · split <;> simp
      obtain ⟨b', bs', hc⟩ := List.exists_cons_of_ne_nil hne
      rw [hc, List.cons_append] at h
      cases h
      have := le_of_mem_utf8EncodeChar hlt (hc ▸ List.mem_cons_self)
      omega
    · rw [utf8EncodeChar_ascii hle, List.cons_append, List.nil_append, List.cons.injEq] at h
      obtain ⟨rfl, -⟩ := h
      rw [show c.toNat.toUInt8.toNat = c.toNat by simp; omega, Char.ofNat_toNat]

end Bytes

/-! ## Escaping -/

namespace Json

theorem hexUnit?_hexDigit : ∀ n < 32,
    hexUnit? 0x30 0x30 (hexDigit (n / 16)) (hexDigit (n % 16)) = some n := by
  decide

theorem utf8_ascii {n : Nat} (h : n ≤ 127) : utf8 n = [n.toUInt8] := by
  have hn := Bytes.toNat_ofNat_ascii h
  rw [utf8, Bytes.utf8EncodeChar_ascii (hn.symm ▸ h), hn]

/-- A control character has no part in a surrogate pair. -/
theorem assemble_unit {n : Nat} (h : n < 0x20) (ps : List Piece) :
    assemble (.unit n :: ps) = (assemble ps).map (n.toUInt8 :: ·) := by
  have hhigh : isHighSurrogate n = false := by simp [isHighSurrogate]; omega
  have hlow : isLowSurrogate n = false := by simp [isLowSurrogate]; omega
  have hbytes := utf8_ascii (n := n) (by omega)
  match ps with
  | [] => simp [assemble, hhigh, hlow, hbytes]
  | .byte c :: ps => simp [assemble, hhigh, hlow, hbytes]
  | .unit l :: ps => simp [assemble, hhigh, hlow, hbytes]

/-- A byte is read back from how it is escaped. -/
theorem exists_piece (b : UInt8) : ∃ p,
    (∀ r, readPieces (escape b ++ r) = (readPieces r).map fun x => (p :: x.1, x.2)) ∧
      ∀ ps, assemble (p :: ps) = (assemble ps).map (b :: ·) := by
  by_cases hshort : b = 0x22 ∨ b = 0x5C ∨ b = 0x08 ∨ b = 0x09 ∨ b = 0x0A ∨ b = 0x0C ∨ b = 0x0D
  · refine ⟨.byte b, fun r => ?_, fun ps => by rw [assemble]⟩
    rcases hshort with rfl | rfl | rfl | rfl | rfl | rfl | rfl <;>
      simp [escape, readPieces, shortEscape?] <;> cases readPieces r <;> rfl
  · simp only [not_or] at hshort
    obtain ⟨h1, h2, h3, h4, h5, h6, h7⟩ := hshort
    by_cases hlow : b < 0x20
    · refine ⟨.unit b.toNat, fun r => ?_, fun ps => ?_⟩
      · have hunit := hexUnit?_hexDigit b.toNat (UInt8.lt_iff_toNat_lt.1 hlow)
        simp [escape, h1, h2, h3, h4, h5, h6, h7, hlow, readPieces, hunit]
        cases readPieces r <;> rfl
      · rw [assemble_unit (UInt8.lt_iff_toNat_lt.1 hlow), Nat.toUInt8, UInt8.ofNat_toNat]
    · refine ⟨.byte b, fun r => ?_, fun ps => by rw [assemble]⟩
      simp only [escape, h1, h2, h3, h4, h5, h6, h7, hlow, if_false, List.singleton_append]
      exact readPieces_of_plain h1 hlow h2 r

theorem readPieces_escaped (bs r : Bytes) : ∃ ps,
    readPieces (bs.flatMap escape ++ 0x22 :: r) = some (ps, r) ∧ assemble ps = some bs := by
  induction bs with
  | nil => exact ⟨[], rfl, rfl⟩
  | cons b bs ih =>
    obtain ⟨ps, hread, hps⟩ := ih
    obtain ⟨p, hp, hb⟩ := exists_piece b
    refine ⟨p :: ps, ?_, ?_⟩
    · rw [List.flatMap_cons, List.append_assoc, hp, hread, Option.map_some]
    · rw [hb, hps, Option.map_some]

/-- **A text is read back from between its quotes.** -/
theorem readString_escape (s : String) (r : Bytes) :
    readString ((Bytes.ofString s).flatMap escape ++ 0x22 :: r) = some (some s, r) := by
  obtain ⟨ps, hread, hps⟩ := readPieces_escaped (Bytes.ofString s) r
  simp only [readString, hread, Option.map_some, content?, hps, Option.bind_some,
    Bytes.toString?_ofString]

theorem hexDigit_printable : ∀ n < 16, 0x20 ≤ (hexDigit n).toNat ∧ (hexDigit n).toNat ≤ 127 := by
  decide

theorem escape_of_le {b : UInt8} (h : 128 ≤ b.toNat) : escape b = [b] := by
  have hne : ∀ c : UInt8, c.toNat < 128 → b ≠ c := fun c hc he => by
    subst he
    omega
  have hlow : ¬ b < 0x20 := by
    rw [UInt8.lt_iff_toNat_lt]
    exact Nat.not_lt.2 (Nat.le_trans (by decide) h)
  simp only [escape, hne 0x22 (by decide), hne 0x5C (by decide), hne 0x08 (by decide),
    hne 0x09 (by decide), hne 0x0A (by decide), hne 0x0C (by decide), hne 0x0D (by decide), hlow,
    if_false]

/-- An escaped ASCII byte is written with printable ASCII. -/
theorem printable_of_mem_escape {b c : UInt8} (hb : b.toNat ≤ 127) (h : c ∈ escape b) :
    0x20 ≤ c.toNat ∧ c.toNat ≤ 127 := by
  by_cases hshort : b = 0x22 ∨ b = 0x5C ∨ b = 0x08 ∨ b = 0x09 ∨ b = 0x0A ∨ b = 0x0C ∨ b = 0x0D
  · rcases hshort with rfl | rfl | rfl | rfl | rfl | rfl | rfl <;>
      simp [escape] at h <;> rcases h with rfl | rfl <;> decide
  simp only [not_or] at hshort
  obtain ⟨h1, h2, h3, h4, h5, h6, h7⟩ := hshort
  by_cases hlow : b < 0x20
  · have hn : b.toNat < 32 := UInt8.lt_iff_toNat_lt.1 hlow
    simp only [escape, h1, h2, h3, h4, h5, h6, h7, hlow, if_true, if_false, List.mem_cons,
      List.not_mem_nil, or_false] at h
    rcases h with rfl | rfl | rfl | rfl | rfl | rfl
    iterate 4 decide
    · exact hexDigit_printable _ (by omega)
    · exact hexDigit_printable _ (by omega)
  · simp only [escape, h1, h2, h3, h4, h5, h6, h7, hlow, if_false, List.mem_singleton] at h
    subst h
    rw [UInt8.lt_iff_toNat_lt] at hlow
    exact ⟨Nat.not_lt.1 hlow, hb⟩

/-- No byte of an escaped text is below 0x20. -/
theorem le_of_mem_escape {b c : UInt8} (h : c ∈ escape b) : 0x20 ≤ c.toNat := by
  rcases Nat.lt_or_ge 127 b.toNat with hlt | hle
  · rw [escape_of_le hlt, List.mem_singleton] at h
    subst h
    omega
  · exact (printable_of_mem_escape hle h).1

theorem isText_escape {bs : Bytes} (h : Bytes.IsText bs) : Bytes.IsText (bs.flatMap escape) := by
  obtain ⟨s, rfl⟩ := h
  rw [Bytes.ofString_eq, List.flatMap_assoc]
  refine .flatMap fun c _ => ?_
  rcases Nat.lt_or_ge 127 c.toNat with hlt | hle
  · have hself : (String.utf8EncodeChar c).flatMap escape = String.utf8EncodeChar c := by
      have hmap : (String.utf8EncodeChar c).map escape =
          (String.utf8EncodeChar c).map fun b => [b] :=
        List.map_congr_left fun b hb => escape_of_le (Bytes.le_of_mem_utf8EncodeChar hlt hb)
      rw [List.flatMap_def, hmap, ← List.flatMap_def, List.flatMap_singleton']
    exact ⟨String.ofList [c], by rw [hself, Bytes.ofString_ofList]; simp⟩
  · rw [Bytes.utf8EncodeChar_ascii hle, List.flatMap_singleton]
    refine Bytes.isText_ascii fun b hb => (printable_of_mem_escape ?_ hb).2
    simp
    omega

theorem isText_writeString (s : String) : Bytes.IsText (writeString s) := by
  have hquote : Bytes.IsText [0x22] := Bytes.isText_singleton (by decide)
  exact (hquote.append (isText_escape ⟨s, rfl⟩)).append hquote

theorem le_of_mem_writeString {s : String} {b : UInt8} (h : b ∈ writeString s) :
    0x20 ≤ b.toNat := by
  simp only [writeString, List.cons_append, List.mem_cons, List.mem_append, List.mem_flatMap,
    List.not_mem_nil, or_false] at h
  rcases h with rfl | ⟨_, -, hb⟩ | rfl
  · decide
  · exact le_of_mem_escape hb
  · decide

end Json

end ReplicatedStore
