import ReplicatedStore.Proofs.JsonStrings
/-!
# Writing JSON and reading it back

The two layouts differ in the blanks they put before an item and after a colon (`Json.Layout`), so
what is proved of a layout is proved of both. A value all of whose numbers and strings have a value
is read back from its text, whatever follows it (`Json.readValue_render`).
-/
namespace ReplicatedStore.Json

/-! ## Numbers -/

theorem toNat_ascii {c : Char} (h : c.isDigit = true) : c.toNat.toUInt8.toNat = c.toNat := by
  have : c.toNat ≤ 57 := (Char.isDigit_iff_toNat.1 h).2
  simp
  omega

theorem isDigit_of_mem_digits {n : Nat} {b : UInt8} (h : b ∈ ascii (Decimal.digits n)) :
    isDigit b = true := by
  obtain ⟨c, hc, rfl⟩ := List.mem_map.1 h
  have hd : c.isDigit = true := Decimal.isDigit_of_mem_digits hc
  have hrange := Char.isDigit_iff_toNat.1 hd
  have hbyte := toNat_ascii hd
  simp only [isDigit, Bool.and_eq_true, decide_eq_true_eq, UInt8.le_iff_toNat_le, hbyte]
  exact hrange

theorem digitsValue_digits (n : Nat) : digitsValue (ascii (Decimal.digits n)) = n := by
  have hchars : (ascii (Decimal.digits n)).map (fun b => Char.ofNat b.toNat) =
      Decimal.digits n := by
    rw [ascii, List.map_map]
    refine (List.map_congr_left fun c hc => ?_).trans (List.map_id _)
    have hd : c.isDigit = true := Decimal.isDigit_of_mem_digits hc
    rw [Function.comp_apply, toNat_ascii hd, Char.ofNat_toNat, id]
  rw [digitsValue, hchars, Decimal.value_digits]

/-- Only zero is written with a zero at the front. -/
theorem eq_zero_of_digits {n : Nat} {ds : List Char} (h : Decimal.digits n = '0' :: ds) :
    n = 0 := by
  induction n using Nat.strongRecOn generalizing ds with
  | ind n ih =>
    rcases Nat.lt_or_ge n 10 with hlt | hge
    · have hone := h
      rw [Decimal.digits, Nat.toDigits_of_lt_base hlt, List.cons.injEq] at hone
      rw [← Decimal.value_digits n, h, ← hone.2]
      rfl
    · rw [Decimal.digits, Nat.toDigits_of_base_le (by decide) hge] at h
      obtain ⟨c, cs, hcs⟩ := List.exists_cons_of_ne_nil (Decimal.digits_ne_nil (n / 10))
      rw [Decimal.digits] at hcs
      rw [hcs, List.cons_append, List.cons.injEq] at h
      have := ih (n / 10) (by omega) (hcs.trans (by rw [h.1]))
      omega

/-- What may follow a number. -/
def Delimited (r : Bytes) : Prop :=
  ∀ b ∈ r.head?, isDigit b = false ∧ b ≠ 0x2E ∧ b ≠ 0x65 ∧ b ≠ 0x45

theorem readDigits_of_delimited {ds r : Bytes} (hds : ∀ b ∈ ds, isDigit b = true)
    (hr : Delimited r) (hne : ds ≠ []) : readDigits (ds ++ r) = some (ds, r) := by
  have htake : (ds ++ r).takeWhile isDigit = ds := by
    rw [List.takeWhile_append_of_pos hds]
    cases r with
    | nil => simp
    | cons b r => simp [(hr b rfl).1]
  have hdrop : (ds ++ r).dropWhile isDigit = r := by
    rw [List.dropWhile_append_of_pos hds]
    cases r with
    | nil => simp
    | cons b r => simp [(hr b rfl).1]
  rw [readDigits, htake, hdrop]
  split
  · exact absurd rfl hne
  · rfl

theorem readFraction_delimited {r : Bytes} (h : Delimited r) :
    readFraction r = some (false, r) := by
  cases r with
  | nil => rfl
  | cons b r =>
    rw [readFraction]
    intro r' he
    cases he
    exact (h _ rfl).2.1 rfl

theorem readExponent_delimited {r : Bytes} (h : Delimited r) :
    readExponent r = some (false, r) := by
  cases r with
  | nil => rfl
  | cons b r =>
    obtain ⟨-, -, hlower, hupper⟩ := h b rfl
    simp only [readExponent, hlower, hupper, or_self, if_false]

theorem readInteger_digits (n : Nat) {r : Bytes} (h : Delimited r) :
    readInteger (ascii (Decimal.digits n) ++ r) = some (ascii (Decimal.digits n), r) := by
  have hne : ascii (Decimal.digits n) ≠ [] := by
    simpa [ascii] using Decimal.digits_ne_nil n
  rw [readInteger, readDigits_of_delimited (fun _ hb => isDigit_of_mem_digits hb) h hne]
  simp only [Option.bind_eq_bind, Option.bind_some]
  split
  · rename_i b bs he
    obtain ⟨c, cs, hcs⟩ := List.exists_cons_of_ne_nil (Decimal.digits_ne_nil n)
    have hc : c.isDigit = true := Decimal.isDigit_of_mem_digits (n := n) (by simp [hcs])
    rw [hcs, ascii, List.map_cons, List.cons.injEq] at he
    have hzero : c = '0' := by
      rw [← Char.ofNat_toNat c, ← toNat_ascii hc, he.1]
      rfl
    rw [hzero] at hcs
    obtain rfl := eq_zero_of_digits hcs
    obtain rfl : cs = [] := (List.cons.inj hcs).2.symm
    cases he.2
  · rfl

theorem readUnsigned_digits (n : Nat) {r : Bytes} (h : Delimited r) :
    readUnsigned (ascii (Decimal.digits n) ++ r) = some (some n, r) := by
  simp [readUnsigned, readInteger_digits n h, readFraction_delimited h, readExponent_delimited h,
    digitsValue_digits]

theorem exists_digit_cons (n : Nat) : ∃ b bs, ascii (Decimal.digits n) = b :: bs ∧
    isDigit b = true := by
  obtain ⟨c, cs, hcs⟩ := List.exists_cons_of_ne_nil (Decimal.digits_ne_nil n)
  have hb : c.toNat.toUInt8 ∈ ascii (Decimal.digits n) := by simp [ascii, hcs]
  exact ⟨_, ascii cs, by simp [ascii, hcs], isDigit_of_mem_digits hb⟩

/-- A natural is read back, unless what follows goes on with it. -/
theorem readScalar_digits (n : Nat) {r : Bytes} (h : Delimited r) :
    readScalar (ascii (Decimal.digits n) ++ r) = some (.number (some n), r) := by
  have hunsigned := readUnsigned_digits n h
  obtain ⟨b, bs, hbs, hb⟩ := exists_digit_cons n
  rw [hbs, List.cons_append] at hunsigned ⊢
  rw [readScalar_cons (.inr hb), readNumber, hunsigned, Option.map_some]
  intro r' he
  cases he
  cases hb

/-! ## Layouts -/

/-- The blanks that a layout puts before an item at a level and after a colon. -/
structure Layout where
  line : Nat → Bytes
  gap : Bytes
  line_blank : ∀ level, ∀ b ∈ line level, isBlank b = true
  gap_blank : ∀ b ∈ gap, isBlank b = true

namespace Layout

/-- No blanks. -/
def compact : Layout := ⟨fun _ => [], [], by simp, by simp⟩

/-- A line for each item, two spaces a level. -/
def indented : Layout where
  line := newline
  gap := [0x20]
  line_blank level b hb := by
    rcases List.mem_cons.1 hb with rfl | hb
    · decide
    · rw [List.eq_of_mem_replicate hb]
      decide
  gap_blank b hb := by
    rw [List.mem_singleton.1 hb]
    decide

end Layout

mutual

/-- A value in a layout. -/
def render (l : Layout) (level : Nat) : Json → Bytes
  | .array [] => [0x5B, 0x5D]
  | .array (j :: js) => 0x5B :: renderItems l (level + 1) (j :: js) ++ l.line level ++ [0x5D]
  | .object [] => [0x7B, 0x7D]
  | .object (m :: ms) => 0x7B :: renderMembers l (level + 1) (m :: ms) ++ l.line level ++ [0x7D]
  | j => writeScalar j

/-- Items with commas between them. -/
def renderItems (l : Layout) (level : Nat) : List Json → Bytes
  | [] => []
  | [j] => l.line level ++ render l level j
  | j :: j' :: js => l.line level ++ render l level j ++ 0x2C :: renderItems l level (j' :: js)

/-- Members with commas between them. -/
def renderMembers (l : Layout) (level : Nat) : List (Option String × Json) → Bytes
  | [] => []
  | [(key, j)] => l.line level ++ writeKey key ++ 0x3A :: l.gap ++ render l level j
  | (key, j) :: m :: ms =>
    l.line level ++ writeKey key ++ 0x3A :: l.gap ++ render l level j ++
      0x2C :: renderMembers l level (m :: ms)

end

mutual

theorem render_indented (level : Nat) : (j : Json) → render .indented level j = writeAt level j
  | .null => rfl
  | .bool _ => rfl
  | .number _ => rfl
  | .string _ => rfl
  | .array [] => rfl
  | .array (j :: js) => by
    rw [render, writeAt, renderItems_indented (level + 1) (j :: js)]
    rfl
  | .object [] => rfl
  | .object (m :: ms) => by
    rw [render, writeAt, renderMembers_indented (level + 1) (m :: ms)]
    rfl

theorem renderItems_indented (level : Nat) : (js : List Json) →
    renderItems .indented level js = writeItemsAt level js
  | [] => rfl
  | [j] => by
    rw [renderItems, writeItemsAt, render_indented level j]
    rfl
  | j :: j' :: js => by
    rw [renderItems, writeItemsAt, render_indented level j, renderItems_indented level (j' :: js)]
    rfl

theorem renderMembers_indented (level : Nat) : (ms : List (Option String × Json)) →
    renderMembers .indented level ms = writeMembersAt level ms
  | [] => rfl
  | [(key, j)] => by
    rw [renderMembers, writeMembersAt, render_indented level j]
    rfl
  | (key, j) :: m :: ms => by
    rw [renderMembers, writeMembersAt, render_indented level j,
      renderMembers_indented level (m :: ms)]
    rfl

end

mutual

theorem render_compact (level : Nat) : (j : Json) → render .compact level j = write j
  | .null => rfl
  | .bool _ => rfl
  | .number _ => rfl
  | .string _ => rfl
  | .array [] => rfl
  | .array (j :: js) => by
    rw [render, write, renderItems_compact (level + 1) (j :: js)]
    simp [Layout.compact]
  | .object [] => rfl
  | .object (m :: ms) => by
    rw [render, write, renderMembers_compact (level + 1) (m :: ms)]
    simp [Layout.compact]

theorem renderItems_compact (level : Nat) : (js : List Json) →
    renderItems .compact level js = writeItems js
  | [] => rfl
  | [j] => by
    rw [renderItems, writeItems, render_compact level j]
    rfl
  | j :: j' :: js => by
    rw [renderItems, writeItems, render_compact level j, renderItems_compact level (j' :: js)]
    rfl

theorem renderMembers_compact (level : Nat) : (ms : List (Option String × Json)) →
    renderMembers .compact level ms = writeMembers ms
  | [] => rfl
  | [(key, j)] => by
    rw [renderMembers, writeMembers, render_compact level j]
    simp [Layout.compact]
  | (key, j) :: m :: ms => by
    rw [renderMembers, writeMembers, render_compact level j, renderMembers_compact level (m :: ms)]
    simp [Layout.compact]

end

/-! ## Reading back -/

/-- All numbers, strings and names of a value have a value themselves. -/
inductive Plain : Json → Prop where
  | null : Plain .null
  | bool (b : Bool) : Plain (.bool b)
  | nat (n : Nat) : Plain (.nat n)
  | text (s : String) : Plain (.text s)
  | array {js : List Json} : (∀ j ∈ js, Plain j) → Plain (.array js)
  | object {ms : List (Option String × Json)} :
    (∀ m ∈ ms, m.1.isSome = true) → (∀ m ∈ ms, Plain m.2) → Plain (.object ms)

variable {l : Layout} {n : Nat} {ws bs r : Bytes}

theorem readValue_blanks (h : ∀ b ∈ ws, isBlank b = true) :
    readValue n (ws ++ bs) = readValue n bs := by
  rw [← readValue_skipBlank, skipBlank_append h, readValue_skipBlank]

theorem readItems_blanks (h : ∀ b ∈ ws, isBlank b = true) :
    readItems n (ws ++ bs) = readItems n bs := by
  cases n with
  | zero => rfl
  | succ n => simp only [readItems, readValue_blanks h]

theorem readMembers_blanks (h : ∀ b ∈ ws, isBlank b = true) :
    readMembers n (ws ++ bs) = readMembers n bs := by
  cases n with
  | zero => rfl
  | succ n => simp only [readMembers, skipBlank_append h]

theorem readItems_skipBlank : readItems n (skipBlank bs) = readItems n bs := by
  cases n with
  | zero => rfl
  | succ n => simp only [readItems, readValue_skipBlank]

theorem readMembers_skipBlank : readMembers n (skipBlank bs) = readMembers n bs := by
  cases n with
  | zero => rfl
  | succ n => simp only [readMembers, skipBlank_skipBlank]

theorem Delimited.blanks (h : ∀ b ∈ ws, isBlank b = true) (hr : Delimited r) :
    Delimited (ws ++ r) := by
  cases ws with
  | nil => exact hr
  | cons b ws =>
    rintro c ⟨⟩
    have hb := h b (by simp)
    simp only [isBlank, Bool.or_eq_true, beq_iff_eq] at hb
    rcases hb with ((rfl | rfl) | rfl) | rfl <;> decide

theorem delimited_comma : Delimited (0x2C :: r) := by
  rintro b ⟨⟩
  decide

theorem delimited_bracket : Delimited (0x5D :: r) := by
  rintro b ⟨⟩
  decide

theorem delimited_brace : Delimited (0x7D :: r) := by
  rintro b ⟨⟩
  decide

/-- A value starts with neither a blank nor a closing bracket. -/
theorem exists_cons_of_render {j : Json} (h : Plain j) (level : Nat) :
    ∃ b bs, render l level j = b :: bs ∧ isBlank b = false ∧ b ≠ 0x5D := by
  cases h with
  | null => exact ⟨_, _, rfl, by decide, by decide⟩
  | bool b => cases b <;> exact ⟨_, _, rfl, by decide, by decide⟩
  | nat n =>
    obtain ⟨b, bs, hbs, hb⟩ := exists_digit_cons n
    refine ⟨b, bs, hbs, ?_, ?_⟩
    · rw [Bool.eq_false_iff]
      intro hblank
      simp only [isBlank, Bool.or_eq_true, beq_iff_eq] at hblank
      rcases hblank with ((rfl | rfl) | rfl) | rfl <;> cases hb
    · rintro rfl
      cases hb
  | text s => exact ⟨_, _, rfl, by decide, by decide⟩
  | @array js _ => cases js <;> exact ⟨_, _, rfl, by decide, by decide⟩
  | @object ms _ _ => cases ms <;> exact ⟨_, _, rfl, by decide, by decide⟩

/-- The text of a value is read back, whatever follows it. -/
def ReadsBack (l : Layout) (j : Json) : Prop :=
  ∀ level n r, (render l level j).length < n → (∀ x, j = .number x → Delimited r) →
    readValue n (render l level j ++ r) = some (j, r)

theorem readItems_renderItems {js : List Json} (hjs : ∀ j ∈ js, ReadsBack l j) (hne : js ≠ [])
    (level : Nat) (hws : ∀ b ∈ ws, isBlank b = true)
    (hn : (renderItems l level js).length + 1 < n) :
    readItems n (renderItems l level js ++ (ws ++ 0x5D :: r)) = some (js, r) := by
  induction js generalizing n with
  | nil => exact absurd rfl hne
  | cons j js ih =>
    obtain ⟨n, rfl⟩ : ∃ n', n = n' + 1 := ⟨n - 1, by omega⟩
    have hj := hjs j (by simp)
    cases js with
    | nil =>
      rw [renderItems, List.length_append] at hn
      rw [renderItems, List.append_assoc, readItems_blanks (l.line_blank level), readItems_eq_some]
      refine ⟨j, _, hj level n _ (by omega) fun _ _ => delimited_bracket.blanks hws, .inr ⟨?_, rfl⟩⟩
      rw [skipBlank_append hws, skipBlank_cons (by decide)]
    | cons j' js =>
      rw [renderItems, List.length_append, List.length_append, List.length_cons] at hn
      rw [renderItems, List.append_assoc, List.append_assoc, readItems_blanks (l.line_blank level),
        readItems_eq_some]
      refine ⟨j, _, hj level n _ (by omega) fun _ _ => delimited_comma,
        .inl ⟨_, j' :: js, skipBlank_cons (by decide) _, ?_, rfl⟩⟩
      exact ih (fun k hk => hjs k (by simp [hk])) (by simp) (by omega)

/-- A member is read back from its name and the text of its value. -/
theorem readMembers_writeKey {key : String} {j : Json} {r' : Bytes}
    {ms : List (Option String × Json)} (hv : readValue n bs = some (j, r))
    (hend : (∃ r₀ ms', skipBlank r = 0x2C :: r₀ ∧ readMembers n r₀ = some (ms', r') ∧
        ms = (some key, j) :: ms') ∨
      skipBlank r = 0x7D :: r' ∧ ms = [(some key, j)]) :
    readMembers (n + 1) (writeKey (some key) ++ 0x3A :: bs) = some (ms, r') := by
  rw [readMembers_eq_some]
  refine ⟨(Bytes.ofString key).flatMap escape ++ 0x22 :: 0x3A :: bs, some key, 0x3A :: bs, bs, j, r,
    ?_, readString_escape _ _, skipBlank_cons (by decide) _, hv, hend⟩
  simp [writeKey, writeString, skipBlank_cons (b := 0x22) (by decide)]

theorem readMembers_renderMembers {ms : List (Option String × Json)}
    (hkeys : ∀ m ∈ ms, m.1.isSome = true) (hms : ∀ m ∈ ms, ReadsBack l m.2) (hne : ms ≠ [])
    (level : Nat) (hws : ∀ b ∈ ws, isBlank b = true)
    (hn : (renderMembers l level ms).length + 1 < n) :
    readMembers n (renderMembers l level ms ++ (ws ++ 0x7D :: r)) = some (ms, r) := by
  induction ms generalizing n with
  | nil => exact absurd rfl hne
  | cons m ms ih =>
    obtain ⟨n, rfl⟩ : ∃ n', n = n' + 1 := ⟨n - 1, by omega⟩
    obtain ⟨key, hkey⟩ := Option.isSome_iff_exists.1 (hkeys m (by simp))
    obtain ⟨_, j⟩ := m
    subst hkey
    have hj : ReadsBack l j := hms _ List.mem_cons_self
    cases ms with
    | nil =>
      simp only [renderMembers, List.length_append, List.length_cons] at hn
      simp only [renderMembers, List.append_assoc, List.cons_append]
      rw [readMembers_blanks (l.line_blank level)]
      refine readMembers_writeKey (r := ws ++ 0x7D :: r) ?_ (.inr ⟨?_, rfl⟩)
      · rw [readValue_blanks l.gap_blank]
        exact hj level n _ (by omega) fun _ _ => delimited_brace.blanks hws
      · rw [skipBlank_append hws, skipBlank_cons (by decide)]
    | cons m' ms =>
      simp only [renderMembers, List.length_append, List.length_cons] at hn
      simp only [renderMembers, List.append_assoc, List.cons_append]
      rw [readMembers_blanks (l.line_blank level)]
      have hv := hj level n (0x2C :: (renderMembers l level (m' :: ms) ++ (ws ++ 0x7D :: r)))
        (by omega) fun _ _ => delimited_comma
      rw [← readValue_blanks l.gap_blank] at hv
      refine readMembers_writeKey hv (.inl ⟨_, m' :: ms, skipBlank_cons (by decide) _, ?_, rfl⟩)
      exact ih (fun m hm => hkeys m (by simp [hm])) (fun m hm => hms m (by simp [hm])) (by simp)
        (by omega)

theorem readsBack_nat (k : Nat) : ReadsBack l (.nat k) := by
  intro level n r hn hr
  obtain ⟨n, rfl⟩ : ∃ n', n = n' + 1 := ⟨n - 1, by omega⟩
  have hread := readScalar_digits k (hr _ rfl)
  obtain ⟨b, bs, hbs, hblank, -⟩ := exists_cons_of_render (l := l) (.nat k) level
  have hdigits : ascii (Decimal.digits k) = b :: bs := hbs
  obtain ⟨_, _, hdigits', hb⟩ := exists_digit_cons k
  rw [hdigits'] at hdigits
  cases hdigits
  rw [hbs, List.cons_append, readValue_eq_some, skipBlank_cons hblank]
  rw [hdigits', List.cons_append] at hread
  refine .inr (.inr (.inr ⟨?_, ?_, ?_, hread⟩)) <;>
  · rintro r' he
    cases he
    cases hb

theorem readsBack_text (s : String) : ReadsBack l (.text s) := by
  intro level n r hn _
  obtain ⟨n, rfl⟩ : ∃ n', n = n' + 1 := ⟨n - 1, by omega⟩
  rw [readValue_eq_some]
  refine .inl ⟨(Bytes.ofString s).flatMap escape ++ 0x22 :: r, some s, ?_, readString_escape s r,
    rfl⟩
  simp [text, render, writeScalar, writeString, skipBlank_cons (b := 0x22) (by decide)]

theorem readsBack_array {js : List Json} (hjs : ∀ j ∈ js, Plain j)
    (ih : ∀ j ∈ js, ReadsBack l j) : ReadsBack l (.array js) := by
  intro level n r hn _
  obtain ⟨n, rfl⟩ : ∃ n', n = n' + 1 := ⟨n - 1, by omega⟩
  rw [readValue_eq_some]
  cases js with
  | nil => exact .inr (.inl ⟨_, rfl, .inl ⟨rfl, rfl⟩⟩)
  | cons j js =>
    simp only [render, List.length_append, List.length_cons] at hn
    have hitems := readItems_renderItems (r := r) ih (by simp) (level + 1) (l.line_blank level)
      (n := n) (by omega)
    obtain ⟨b, bs, hbs, hblank, hne⟩ :=
      exists_cons_of_render (l := l) (hjs j (by simp)) (level + 1)
    have hstart : ∃ bs', renderItems l (level + 1) (j :: js) =
        l.line (level + 1) ++ b :: bs' := by
      cases js <;> simp [renderItems, hbs]
    obtain ⟨bs', hstart⟩ := hstart
    refine .inr (.inl ⟨renderItems l (level + 1) (j :: js) ++ (l.line level ++ 0x5D :: r), ?_,
      .inr ⟨_, ?_, readItems_skipBlank.trans hitems, rfl⟩⟩)
    · simp [render, skipBlank_cons (b := 0x5B) (by decide)]
    · rw [hstart, List.append_assoc, skipBlank_append (l.line_blank _), List.cons_append,
        skipBlank_cons hblank]
      rintro r' he
      cases he
      exact hne rfl

theorem readsBack_object {ms : List (Option String × Json)} (hkeys : ∀ m ∈ ms, m.1.isSome = true)
    (ih : ∀ m ∈ ms, ReadsBack l m.2) : ReadsBack l (.object ms) := by
  intro level n r hn _
  obtain ⟨n, rfl⟩ : ∃ n', n = n' + 1 := ⟨n - 1, by omega⟩
  rw [readValue_eq_some]
  cases ms with
  | nil => exact .inr (.inr (.inl ⟨_, rfl, .inl ⟨rfl, rfl⟩⟩))
  | cons m ms =>
    simp only [render, List.length_append, List.length_cons] at hn
    have hmembers := readMembers_renderMembers (r := r) hkeys ih (by simp) (level + 1)
      (l.line_blank level) (n := n) (by omega)
    have hstart : ∃ bs', renderMembers l (level + 1) (m :: ms) =
        l.line (level + 1) ++ 0x22 :: bs' := by
      cases ms <;> simp [renderMembers, writeKey, writeString]
    obtain ⟨bs', hstart⟩ := hstart
    refine .inr (.inr (.inl ⟨renderMembers l (level + 1) (m :: ms) ++ (l.line level ++ 0x7D :: r),
      ?_, .inr ⟨_, ?_, readMembers_skipBlank.trans hmembers, rfl⟩⟩))
    · simp [render, skipBlank_cons (b := 0x7B) (by decide)]
    · rw [hstart, List.append_assoc, skipBlank_append (l.line_blank _), List.cons_append,
        skipBlank_cons (by decide)]
      rintro r' he
      cases he

/-- **A plain value is read back from its text in either layout.** -/
theorem readValue_render {j : Json} (h : Plain j) : ReadsBack l j := by
  induction h with
  | null =>
    intro level n r hn _
    obtain ⟨n, rfl⟩ : ∃ n', n = n' + 1 := ⟨n - 1, by omega⟩
    rfl
  | bool b =>
    intro level n r hn _
    obtain ⟨n, rfl⟩ : ∃ n', n = n' + 1 := ⟨n - 1, by omega⟩
    cases b <;> rfl
  | nat k => exact readsBack_nat k
  | text s => exact readsBack_text s
  | array hjs ih => exact readsBack_array hjs ih
  | object hkeys _ ih => exact readsBack_object hkeys ih

/-- An object is read from the front of every text that starts with it. -/
theorem readValue_write {ms : List (Option String × Json)} (h : Plain (.object ms)) (r : Bytes) :
    readValue ((write (.object ms)).length + 1) (write (.object ms) ++ r) =
      some (.object ms, r) := by
  rw [← render_compact 0]
  refine readValue_render h 0 _ r (Nat.lt_succ_self _) ?_
  rintro x ⟨⟩

theorem read?_render {j : Json} (h : Plain j) (level : Nat) :
    read? (render l level j) = some j := by
  have hread : Delimited [] := by
    rintro b ⟨⟩
  have hvalue := readValue_render (l := l) h level ((render l level j).length + 1) []
    (Nat.lt_succ_self _) fun _ _ => hread
  rw [List.append_nil] at hvalue
  simp [read?, hvalue, skipBlank]

theorem read?_write {j : Json} (h : Plain j) : read? j.write = some j :=
  render_compact 0 j ▸ read?_render h 0

theorem read?_writeIndented {j : Json} (h : Plain j) : read? j.writeIndented = some j :=
  (congrArg read? (render_indented 0 j)).symm.trans (read?_render h 0)

/-! ## What texts are made of -/

/-- A property of texts that holds of all that a layout puts together. -/
structure Tiles (l : Layout) (P : Bytes → Prop) : Prop where
  append : ∀ {a b}, P a → P b → P (a ++ b)
  mark : ∀ b ∈ [0x5B, 0x5D, 0x7B, 0x7D, 0x2C, 0x3A], P [b]
  scalar : ∀ j, P (writeScalar j)
  line : ∀ level, P (l.line level)
  gap : P l.gap

namespace Tiles

variable {P : Bytes → Prop} (h : Tiles l P)
include h

theorem items {js : List Json} (hjs : ∀ j ∈ js, ∀ level, P (render l level j)) (hne : js ≠ [])
    (level : Nat) : P (renderItems l level js) := by
  induction js with
  | nil => exact absurd rfl hne
  | cons j js ih =>
    have hj := h.append (h.line level) (hjs j (by simp) level)
    cases js with
    | nil => exact hj
    | cons j' js =>
      have hrest := ih (fun k hk => hjs k (by simp [hk])) (by simp)
      exact h.append hj (h.append (h.mark 0x2C (by simp)) hrest)

theorem members {ms : List (Option String × Json)} (hms : ∀ m ∈ ms, ∀ level, P (render l level m.2))
    (hne : ms ≠ []) (level : Nat) : P (renderMembers l level ms) := by
  induction ms with
  | nil => exact absurd rfl hne
  | cons m ms ih =>
    obtain ⟨key, j⟩ := m
    have hkey : P (writeKey key) := h.scalar (.string (some (key.getD "")))
    have hcolon : P (0x3A :: l.gap) := h.append (h.mark 0x3A (by simp)) h.gap
    have hj := h.append (h.append (h.append (h.line level) hkey) hcolon)
      (hms (key, j) (by simp) level)
    cases ms with
    | nil => exact hj
    | cons m' ms =>
      have hrest := ih (fun m hm => hms m (by simp [hm])) (by simp)
      exact h.append hj (h.append (h.mark 0x2C (by simp)) hrest)

theorem value {j : Json} (hj : Plain j) (level : Nat) : P (render l level j) := by
  induction hj generalizing level with
  | null => exact h.scalar .null
  | bool b => exact h.scalar (.bool b)
  | nat n => exact h.scalar (.nat n)
  | text s => exact h.scalar (.text s)
  | @array js _ ih =>
    cases js with
    | nil => exact h.append (h.mark 0x5B (by simp)) (h.mark 0x5D (by simp))
    | cons j js =>
      have hitems := h.items ih (by simp) (level + 1)
      exact h.append (h.append (h.append (h.mark 0x5B (by simp)) hitems) (h.line level))
        (h.mark 0x5D (by simp))
  | @object ms _ _ ih =>
    cases ms with
    | nil => exact h.append (h.mark 0x7B (by simp)) (h.mark 0x7D (by simp))
    | cons m ms =>
      have hmembers := h.members ih (by simp) (level + 1)
      exact h.append (h.append (h.append (h.mark 0x7B (by simp)) hmembers) (h.line level))
        (h.mark 0x7D (by simp))

end Tiles

theorem isText_blanks (h : ∀ b ∈ ws, isBlank b = true) : Bytes.IsText ws := by
  refine Bytes.isText_ascii fun b hb => ?_
  have hblank := h b hb
  simp only [isBlank, Bool.or_eq_true, beq_iff_eq] at hblank
  rcases hblank with ((rfl | rfl) | rfl) | rfl <;> decide

theorem toNat_of_isDigit {b : UInt8} (h : isDigit b = true) : 0x30 ≤ b.toNat ∧ b.toNat ≤ 0x39 := by
  simpa [isDigit, UInt8.le_iff_toNat_le] using h

theorem isText_writeScalar (j : Json) : Bytes.IsText (writeScalar j) := by
  unfold writeScalar
  split
  · exact Bytes.isText_ascii (by simp)
  · exact Bytes.isText_ascii (by simp)
  · refine Bytes.isText_ascii fun b hb => ?_
    have := toNat_of_isDigit (isDigit_of_mem_digits hb)
    omega
  · exact isText_writeString _
  · exact Bytes.isText_ascii (by simp)

theorem le_of_mem_writeScalar {j : Json} : ∀ b ∈ writeScalar j, 0x20 ≤ b.toNat := by
  unfold writeScalar
  split
  · simp
  · simp
  · intro b hb
    have := toNat_of_isDigit (isDigit_of_mem_digits hb)
    omega
  · exact fun b hb => le_of_mem_writeString hb
  · simp

/-- A written value is UTF-8 in either layout. -/
theorem isText_render {j : Json} (h : Plain j) (level : Nat) :
    Bytes.IsText (render l level j) := by
  have htiles : Tiles l Bytes.IsText := {
    append := .append
    mark := fun b hb => Bytes.isText_singleton (by revert b; simp)
    scalar := isText_writeScalar
    line := fun level => isText_blanks (l.line_blank level)
    gap := isText_blanks l.gap_blank }
  exact htiles.value h level

theorem isText_write {j : Json} (h : Plain j) : Bytes.IsText j.write := by
  rw [← render_compact 0]
  exact isText_render h 0

theorem isText_writeIndented {j : Json} (h : Plain j) : Bytes.IsText j.writeIndented := by
  rw [writeIndented, ← render_indented 0]
  exact isText_render h 0

/-- A value without blanks is written on one line. -/
theorem le_of_mem_write {j : Json} (h : Plain j) : ∀ b ∈ j.write, 0x20 ≤ b.toNat := by
  have htiles : Tiles .compact fun bs => ∀ b ∈ bs, 0x20 ≤ b.toNat := {
    append := fun ha hb b hmem => (List.mem_append.1 hmem).elim (ha b) (hb b)
    mark := by simp
    scalar := fun _ => le_of_mem_writeScalar
    line := fun _ _ hb => by cases hb
    gap := fun _ hb => by cases hb }
  exact render_compact 0 j ▸ htiles.value h 0

end ReplicatedStore.Json
