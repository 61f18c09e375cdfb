import ReplicatedStore.Json.Reader
/-!
# Reading JSON from the front of a text

One inversion lemma for each of the three mutual readers says what they read
(`Json.readValue_eq_some`, `Json.readItems_eq_some`, `Json.readMembers_eq_some`).

`Json.readValue_append`: what was read from a text is read again from any longer text, with the
rest longer by as much. Only a number at the very end may go on.
-/
namespace ReplicatedStore.Json

/-! ## Blanks -/

theorem skipBlank_append {ws : Bytes} (h : ∀ b ∈ ws, isBlank b = true) (bs : Bytes) :
    skipBlank (ws ++ bs) = skipBlank bs :=
  List.dropWhile_append_of_pos h

theorem skipBlank_cons {b : UInt8} (h : isBlank b = false) (bs : Bytes) :
    skipBlank (b :: bs) = b :: bs := by
  simp [skipBlank, h]

theorem skipBlank_skipBlank (bs : Bytes) : skipBlank (skipBlank bs) = skipBlank bs := by
  induction bs with
  | nil => rfl
  | cons b bs ih =>
    cases hb : isBlank b with
    | true => simpa [skipBlank, hb] using ih
    | false => simp [skipBlank, hb]

/-- What stands after the blanks stays there in a longer text. -/
theorem skipBlank_append_of_ne_nil {bs : Bytes} (h : skipBlank bs ≠ []) (q : Bytes) :
    skipBlank (bs ++ q) = skipBlank bs ++ q := by
  rw [skipBlank, List.dropWhile_append, if_neg (by simpa [skipBlank] using h), skipBlank]

theorem skipBlank_append_cons {bs r : Bytes} {b : UInt8} (h : skipBlank bs = b :: r) (q : Bytes) :
    skipBlank (bs ++ q) = b :: (r ++ q) := by
  rw [skipBlank_append_of_ne_nil (by simp [h]), h, List.cons_append]

/-! ## Inversion -/

variable {n : Nat} {bs r : Bytes}

theorem readValue_skipBlank : readValue n (skipBlank bs) = readValue n bs := by
  cases n with
  | zero => simp [readValue]
  | succ n => simp only [readValue, skipBlank_skipBlank]

/-- What the reader of a value reads. -/
theorem readValue_eq_some {j : Json} : readValue (n + 1) bs = some (j, r) ↔
    (∃ r₀ s, skipBlank bs = 0x22 :: r₀ ∧ readString r₀ = some (s, r) ∧ j = .string s) ∨
    (∃ r₀, skipBlank bs = 0x5B :: r₀ ∧
      (skipBlank r₀ = 0x5D :: r ∧ j = .array [] ∨
        ∃ js, (∀ r', skipBlank r₀ ≠ 0x5D :: r') ∧ readItems n (skipBlank r₀) = some (js, r) ∧
          j = .array js)) ∨
    (∃ r₀, skipBlank bs = 0x7B :: r₀ ∧
      (skipBlank r₀ = 0x7D :: r ∧ j = .object [] ∨
        ∃ ms, (∀ r', skipBlank r₀ ≠ 0x7D :: r') ∧ readMembers n (skipBlank r₀) = some (ms, r) ∧
          j = .object ms)) ∨
    ((∀ r', skipBlank bs ≠ 0x22 :: r') ∧ (∀ r', skipBlank bs ≠ 0x5B :: r') ∧
      (∀ r', skipBlank bs ≠ 0x7B :: r') ∧ readScalar (skipBlank bs) = some (j, r)) := by
  rw [readValue]
  split
  · rename_i r₀ hbs
    simp only [hbs, List.cons.injEq, true_and]
    cases hs : readString r₀ <;> grind
  · rename_i r₀ hbs
    simp only [hbs, List.cons.injEq, true_and]
    split
    · rename_i r₁ hr
      grind
    · rename_i hr
      cases hs : readItems n (skipBlank r₀) <;> grind
  · rename_i r₀ hbs
    simp only [hbs, List.cons.injEq, true_and]
    split
    · rename_i r₁ hr
      grind
    · rename_i hr
      cases hs : readMembers n (skipBlank r₀) <;> grind
  · grind

/-- What the reader of items reads. -/
theorem readItems_eq_some {js : List Json} : readItems (n + 1) bs = some (js, r) ↔
    ∃ j r₁, readValue n bs = some (j, r₁) ∧
      ((∃ r₂ js', skipBlank r₁ = 0x2C :: r₂ ∧ readItems n r₂ = some (js', r) ∧ js = j :: js') ∨
        skipBlank r₁ = 0x5D :: r ∧ js = [j]) := by
  rw [readItems]
  cases hv : readValue n bs with
  | none => simp
  | some v =>
    obtain ⟨j, r₁⟩ := v
    simp only [Option.bind_eq_bind, Option.bind_some]
    split
    · rename_i r₂ hr
      cases hs : readItems n r₂ <;> grind
    · grind
    · grind

/-- What the reader of members reads. -/
theorem readMembers_eq_some {ms : List (Option String × Json)} :
    readMembers (n + 1) bs = some (ms, r) ↔
      ∃ r₀ key r₁ r₂ j r₃, skipBlank bs = 0x22 :: r₀ ∧ readString r₀ = some (key, r₁) ∧
        skipBlank r₁ = 0x3A :: r₂ ∧ readValue n r₂ = some (j, r₃) ∧
        ((∃ r₄ ms', skipBlank r₃ = 0x2C :: r₄ ∧ readMembers n r₄ = some (ms', r) ∧
            ms = (key, j) :: ms') ∨
          skipBlank r₃ = 0x7D :: r ∧ ms = [(key, j)]) := by
  rw [readMembers]
  split
  · rename_i r₀ hbs
    cases hs : readString r₀ with
    | none => grind
    | some p =>
      obtain ⟨key, r₁⟩ := p
      simp only [Option.bind_eq_bind, Option.bind_some]
      split
      · rename_i r₂ hcolon
        cases hv : readValue n r₂ with
        | none => grind
        | some v =>
          obtain ⟨j, r₃⟩ := v
          simp only [Option.bind_some]
          split
          · rename_i r₄ hcomma
            cases hm : readMembers n r₄ <;> grind
          · grind
          · grind
      · grind
  · grind

/-! ## Longer texts -/

theorem readPieces_of_shortEscape {e b : UInt8} (h : shortEscape? e = some b) (r : Bytes) :
    readPieces (0x5C :: e :: r) = (readPieces r).map fun p => (.byte b :: p.1, p.2) := by
  have hne : e ≠ 0x75 := by
    rintro rfl
    cases h
  rw [readPieces, h]
  · cases readPieces r <;> rfl
  · exact fun _ _ _ _ _ he _ => hne he

theorem readPieces_of_plain {b : UInt8} (hquote : b ≠ 0x22) (hlow : ¬ b < 0x20) (hback : b ≠ 0x5C)
    (r : Bytes) : readPieces (b :: r) = (readPieces r).map fun p => (.byte b :: p.1, p.2) := by
  rw [readPieces]
  · rw [if_neg (by simp [hlow, hback])]
    cases readPieces r <;> rfl
  · exact hquote
  · exact fun _ _ _ _ _ h _ => hback h
  · exact fun _ _ h _ => hback h

variable {q : Bytes}

theorem readPieces_append {ps : List Piece} (h : readPieces bs = some (ps, r)) :
    readPieces (bs ++ q) = some (ps, r ++ q) := by
  fun_induction readPieces bs generalizing ps with
  | case1 => cases h
  | case2 r₀ =>
    cases h
    simp [readPieces]
  | case3 a b c d r₀ ih =>
    simp only [List.cons_append, readPieces, bind, Option.bind_eq_some_iff] at h ⊢
    obtain ⟨u, hu, ⟨ps', r'⟩, hp, he⟩ := h
    cases he
    exact ⟨u, hu, _, ih hp, rfl⟩
  | case4 e r₀ _ ih =>
    simp only [bind, Option.bind_eq_some_iff] at h
    obtain ⟨b, hb, ⟨ps', r'⟩, hp, he⟩ := h
    cases he
    rw [List.cons_append, List.cons_append, readPieces_of_shortEscape hb, ih hp, Option.map_some]
  | case5 b r₀ => cases h
  | case6 b r₀ hquote _ _ hplain ih =>
    simp only [bind, Option.bind_eq_some_iff] at h
    obtain ⟨⟨ps', r'⟩, hp, he⟩ := h
    cases he
    rw [not_or] at hplain
    rw [List.cons_append, readPieces_of_plain hquote hplain.1 hplain.2, ih hp, Option.map_some]

theorem readString_append {s : Option String} (h : readString bs = some (s, r)) :
    readString (bs ++ q) = some (s, r ++ q) := by
  rw [readString, Option.map_eq_some_iff] at h
  obtain ⟨⟨ps, r₁⟩, hp, he⟩ := h
  cases he
  rw [readString, readPieces_append hp, Option.map_some]

theorem readDigits_append {ds : Bytes} (h : readDigits bs = some (ds, r)) (hr : r ≠ []) :
    bs ≠ [] ∧ readDigits (bs ++ q) = some (ds, r ++ q) := by
  have hparts : ds = bs.takeWhile isDigit ∧ ds ≠ [] ∧ bs.dropWhile isDigit = r := by
    unfold readDigits at h
    split at h
    · cases h
    · rename_i hne
      cases h
      exact ⟨rfl, hne, rfl⟩
  obtain ⟨rfl, hne, rfl⟩ := hparts
  have hlength : (bs.takeWhile isDigit).length ≠ bs.length := fun he => by
    have hall := congrArg List.length (List.takeWhile_append_dropWhile (p := isDigit) (l := bs))
    rw [List.length_append] at hall
    exact hr (List.length_eq_zero_iff.1 (by omega))
  have htake : (bs ++ q).takeWhile isDigit = bs.takeWhile isDigit := by
    rw [List.takeWhile_append, if_neg hlength]
  have hdrop : (bs ++ q).dropWhile isDigit = bs.dropWhile isDigit ++ q := by
    rw [List.dropWhile_append, if_neg (by simpa using hr)]
  refine ⟨fun he => hr (by rw [he, List.dropWhile_nil]), ?_⟩
  unfold readDigits
  rw [htake, hdrop]
  split
  · rename_i hnil
    exact absurd hnil hne
  · rfl

theorem readInteger_append {ds : Bytes} (h : readInteger bs = some (ds, r)) (hr : r ≠ []) :
    readInteger (bs ++ q) = some (ds, r ++ q) := by
  simp only [readInteger, bind, Option.bind_eq_some_iff] at h ⊢
  obtain ⟨⟨ds', r'⟩, hd, he⟩ := h
  have hkept : r' = r := by
    split at he
    · cases he
    · cases he
      rfl
  subst hkept
  refine ⟨(ds', r' ++ q), (readDigits_append hd hr).2, ?_⟩
  split at he
  · cases he
  · cases he
    rfl

/-- The digits of a fraction or of an exponent, noted as there. -/
theorem map_readDigits_append {f : Bool}
    (h : (readDigits bs).map (fun p => (true, p.2)) = some (f, r)) (hr : r ≠ []) :
    (readDigits (bs ++ q)).map (fun p => (true, p.2)) = some (f, r ++ q) := by
  obtain ⟨⟨ds, r'⟩, hd, he⟩ := Option.map_eq_some_iff.1 h
  cases he
  rw [(readDigits_append hd hr).2, Option.map_some]

theorem readFraction_append {f : Bool} (h : readFraction bs = some (f, r)) (hr : r ≠ []) :
    bs ≠ [] ∧ readFraction (bs ++ q) = some (f, r ++ q) := by
  unfold readFraction at h
  split at h
  · refine ⟨by simp, map_readDigits_append h hr⟩
  · rename_i hdot
    cases h
    refine ⟨hr, ?_⟩
    rw [readFraction]
    intro r' hbs
    obtain ⟨b, bs', rfl⟩ := List.exists_cons_of_ne_nil hr
    cases hbs
    exact hdot _ rfl

theorem readExponent_append {e : Bool} (h : readExponent bs = some (e, r)) (hr : r ≠ []) :
    bs ≠ [] ∧ readExponent (bs ++ q) = some (e, r ++ q) := by
  cases bs with
  | nil =>
    cases h
    exact absurd rfl hr
  | cons b bs =>
    refine ⟨by simp, ?_⟩
    simp only [readExponent, List.cons_append] at h ⊢
    split at h
    · rename_i hb
      rw [if_pos hb]
      split at h
      · exact map_readDigits_append h hr
      · exact map_readDigits_append h hr
      · rename_i hplus hminus
        have hne : bs ≠ [] := by
          rintro rfl
          cases h
        obtain ⟨c, bs, rfl⟩ := List.exists_cons_of_ne_nil hne
        have hdigits := map_readDigits_append (q := q) h hr
        rw [List.cons_append] at hdigits ⊢
        split
        · rename_i he
          cases he
          exact absurd rfl (hplus _)
        · rename_i he
          cases he
          exact absurd rfl (hminus _)
        · exact hdigits
    · rename_i hb
      cases h
      rw [if_neg hb, List.cons_append]

theorem readUnsigned_append {x : Option Nat} (h : readUnsigned bs = some (x, r)) (hr : r ≠ []) :
    readUnsigned (bs ++ q) = some (x, r ++ q) := by
  simp only [readUnsigned, bind, Option.bind_eq_some_iff] at h ⊢
  obtain ⟨⟨ds, r₁⟩, hi, ⟨f, r₂⟩, hf, ⟨e, r₃⟩, he, hx⟩ := h
  cases hx
  obtain ⟨hr₂, he'⟩ := readExponent_append (q := q) he hr
  obtain ⟨hr₁, hf'⟩ := readFraction_append (q := q) hf hr₂
  exact ⟨_, readInteger_append hi hr₁, _, hf', _, he', rfl⟩

theorem readNumber_append {x : Option Nat} (h : readNumber bs = some (x, r)) (hr : r ≠ []) :
    readNumber (bs ++ q) = some (x, r ++ q) := by
  unfold readNumber at h
  split at h
  · obtain ⟨⟨y, r'⟩, hu, he⟩ := Option.map_eq_some_iff.1 h
    cases he
    rw [List.cons_append, readNumber, readUnsigned_append hu hr, Option.map_some]
  · rename_i hsign
    cases bs with
    | nil => cases h
    | cons b bs =>
      have hunsigned := readUnsigned_append (q := q) h hr
      rw [List.cons_append] at hunsigned ⊢
      rw [readNumber, hunsigned]
      intro r' he
      cases he
      exact hsign _ rfl

/-- A number starts with a digit or a sign. -/
theorem exists_cons_of_readNumber {x : Option Nat × Bytes} (h : readNumber bs = some x) :
    ∃ b bs', bs = b :: bs' ∧ (b = 0x2D ∨ isDigit b = true) := by
  unfold readNumber at h
  split at h
  · exact ⟨_, _, rfl, .inl rfl⟩
  · cases bs with
    | nil => cases h
    | cons b bs =>
      refine ⟨b, bs, rfl, .inr ?_⟩
      cases hb : isDigit b with
      | true => rfl
      | false => simp [readUnsigned, readInteger, readDigits, hb] at h

/-- What starts with no letter is read as a number. -/
theorem readScalar_cons {b : UInt8} (h : b = 0x2D ∨ isDigit b = true) (bs : Bytes) :
    readScalar (b :: bs) = (readNumber (b :: bs)).map fun p => (.number p.1, p.2) := by
  have hletter : ∀ c : UInt8, c ≠ 0x2D → isDigit c = false → b ≠ c := by
    rintro c hc hd rfl
    rcases h with rfl | h
    · exact hc rfl
    · rw [hd] at h
      cases h
  rw [readScalar]
  · intro r he
    cases he
    exact hletter 0x6E (by decide) (by decide) rfl
  · intro r he
    cases he
    exact hletter 0x74 (by decide) (by decide) rfl
  · intro r he
    cases he
    exact hletter 0x66 (by decide) (by decide) rfl

theorem readScalar_append {j : Json} (h : readScalar bs = some (j, r))
    (hj : r ≠ [] ∨ ∀ x, j ≠ .number x) : readScalar (bs ++ q) = some (j, r ++ q) := by
  unfold readScalar at h
  split at h
  · cases h
    rfl
  · cases h
    rfl
  · cases h
    rfl
  · obtain ⟨⟨x, r'⟩, hx, he⟩ := Option.map_eq_some_iff.1 h
    cases he
    have hr : r ≠ [] := hj.resolve_right fun hne => hne x rfl
    have hnumber := readNumber_append (q := q) hx hr
    obtain ⟨b, bs, rfl, hb⟩ := exists_cons_of_readNumber hx
    rw [List.cons_append] at hnumber ⊢
    rw [readScalar_cons hb, hnumber, Option.map_some]

@[simp] theorem readValue_nil : readValue n [] = none := by
  cases n with
  | zero => rfl
  | succ n => rfl

@[simp] theorem readItems_nil : readItems n [] = none := by
  cases n with
  | zero => rfl
  | succ n => simp [readItems]

@[simp] theorem readMembers_nil : readMembers n [] = none := by
  cases n with
  | zero => rfl
  | succ n => rfl

/-- A longer text starts as it did. -/
theorem append_ne_cons {bs : Bytes} {b : UInt8} (hbs : bs ≠ []) (h : ∀ r, bs ≠ b :: r)
    (q r : Bytes) : bs ++ q ≠ b :: r := by
  obtain ⟨c, bs, rfl⟩ := List.exists_cons_of_ne_nil hbs
  rintro he
  cases he
  exact h _ rfl

/-- The three readers read the same from a longer text, with more fuel. -/
theorem read_append (q : Bytes) (n : Nat) :
    (∀ bs j r, readValue n bs = some (j, r) → (r ≠ [] ∨ ∀ x, j ≠ .number x) →
      ∀ m ≥ n, readValue m (bs ++ q) = some (j, r ++ q)) ∧
    (∀ bs js r, readItems n bs = some (js, r) →
      ∀ m ≥ n, readItems m (bs ++ q) = some (js, r ++ q)) ∧
    (∀ bs ms r, readMembers n bs = some (ms, r) →
      ∀ m ≥ n, readMembers m (bs ++ q) = some (ms, r ++ q)) := by
  induction n with
  | zero => refine ⟨?_, ?_, ?_⟩ <;> intro bs x r h <;> cases h
  | succ n ih =>
    obtain ⟨hvalue, hitems, hmembers⟩ := ih
    -- inside an array or an object something always follows a number
    have hinner : ∀ {b : UInt8} {bs j r r'}, readValue n bs = some (j, r) →
        skipBlank r = b :: r' → ∀ m ≥ n, readValue m (bs ++ q) = some (j, r ++ q) :=
      fun hv hb => hvalue _ _ _ hv (.inl fun he => by subst he; cases hb)
    refine ⟨fun bs j r h hj m hm => ?_, fun bs js r h m hm => ?_, fun bs ms r h m hm => ?_⟩ <;>
      obtain ⟨m, rfl⟩ : ∃ m', m = m' + 1 := ⟨m - 1, by omega⟩
    · rw [readValue_eq_some] at h ⊢
      rcases h with ⟨r₀, s, hq, hs, rfl⟩ | ⟨r₀, hq, ⟨hc, rfl⟩ | ⟨js, hne, hi, rfl⟩⟩ |
        ⟨r₀, hq, ⟨hc, rfl⟩ | ⟨ms, hne, hi, rfl⟩⟩ | ⟨h1, h2, h3, hs⟩
      · exact .inl ⟨_, s, skipBlank_append_cons hq q, readString_append hs, rfl⟩
      · exact .inr (.inl ⟨_, skipBlank_append_cons hq q, .inl ⟨skipBlank_append_cons hc q, rfl⟩⟩)
      · have hnil : skipBlank r₀ ≠ [] := fun he => by simp [he] at hi
        refine .inr (.inl ⟨_, skipBlank_append_cons hq q, .inr ⟨js, ?_, ?_, rfl⟩⟩)
        · rw [skipBlank_append_of_ne_nil hnil]
          exact append_ne_cons hnil hne q
        · rw [skipBlank_append_of_ne_nil hnil]
          exact hitems _ _ _ hi m (by omega)
      · exact .inr (.inr (.inl ⟨_, skipBlank_append_cons hq q,
          .inl ⟨skipBlank_append_cons hc q, rfl⟩⟩))
      · have hnil : skipBlank r₀ ≠ [] := fun he => by simp [he] at hi
        refine .inr (.inr (.inl ⟨_, skipBlank_append_cons hq q, .inr ⟨ms, ?_, ?_, rfl⟩⟩))
        · rw [skipBlank_append_of_ne_nil hnil]
          exact append_ne_cons hnil hne q
        · rw [skipBlank_append_of_ne_nil hnil]
          exact hmembers _ _ _ hi m (by omega)
      · have hnil : skipBlank bs ≠ [] := fun he => by
          rw [he] at hs
          cases hs
        rw [skipBlank_append_of_ne_nil hnil]
        exact .inr (.inr (.inr ⟨append_ne_cons hnil h1 q, append_ne_cons hnil h2 q,
          append_ne_cons hnil h3 q, readScalar_append hs hj⟩))
    · rw [readItems_eq_some] at h ⊢
      obtain ⟨j, r₁, hv, ⟨r₂, js', hc, hi, rfl⟩ | ⟨hc, rfl⟩⟩ := h
      · exact ⟨j, _, hinner hv hc m (by omega), .inl ⟨_, js', skipBlank_append_cons hc q,
          hitems _ _ _ hi m (by omega), rfl⟩⟩
      · exact ⟨j, _, hinner hv hc m (by omega), .inr ⟨skipBlank_append_cons hc q, rfl⟩⟩
    · rw [readMembers_eq_some] at h ⊢
      obtain ⟨r₀, key, r₁, r₂, j, r₃, hq, hs, hcolon, hv, ⟨r₄, ms', hc, hi, rfl⟩ | ⟨hc, rfl⟩⟩ := h
      · exact ⟨_, key, _, _, j, _, skipBlank_append_cons hq q, readString_append hs,
          skipBlank_append_cons hcolon q, hinner hv hc m (by omega),
          .inl ⟨_, ms', skipBlank_append_cons hc q, hmembers _ _ _ hi m (by omega), rfl⟩⟩
      · exact ⟨_, key, _, _, j, _, skipBlank_append_cons hq q, readString_append hs,
          skipBlank_append_cons hcolon q, hinner hv hc m (by omega),
          .inr ⟨skipBlank_append_cons hc q, rfl⟩⟩

/-- **What was read from a text is read from every longer one.** -/
theorem readValue_append {j : Json} {m : Nat} (h : readValue n bs = some (j, r))
    (hj : r ≠ [] ∨ ∀ x, j ≠ .number x) (hm : n ≤ m) (q : Bytes) :
    readValue m (bs ++ q) = some (j, r ++ q) :=
  (read_append q n).1 bs j r h hj m hm

theorem readValue_mono {j : Json} {m : Nat} (h : readValue n bs = some (j, r))
    (hj : r ≠ [] ∨ ∀ x, j ≠ .number x) (hm : n ≤ m) : readValue m bs = some (j, r) := by
  simpa using readValue_append h hj hm []

/-- A text that goes on after its value holds none. -/
theorem read?_append_eq_none {j : Json} (h : readValue n bs = some (j, r))
    (hj : r ≠ [] ∨ ∀ x, j ≠ .number x) (hn : n ≤ bs.length + 1) (hrest : skipBlank (r ++ q) ≠ []) :
    read? (bs ++ q) = none := by
  have hlonger := readValue_append (m := (bs ++ q).length + 1) h hj (by simp; omega) q
  simp only [read?, hlonger, List.isEmpty_iff]
  exact if_neg hrest

theorem readScalar_ne_object {ms : List (Option String × Json)} :
    readScalar bs ≠ some (.object ms, r) := by
  intro h
  unfold readScalar at h
  split at h
  · cases h
  · cases h
  · cases h
  · obtain ⟨_, _, he⟩ := Option.map_eq_some_iff.1 h
    cases he

theorem exists_brace_of_object {ms : List (Option String × Json)}
    (h : readValue n bs = some (.object ms, r)) : ∃ r₀, skipBlank bs = 0x7B :: r₀ := by
  cases n with
  | zero => cases h
  | succ n =>
    rcases readValue_eq_some.1 h with ⟨_, _, _, _, he⟩ | ⟨_, _, ⟨_, he⟩ | ⟨_, _, _, he⟩⟩ |
      ⟨r₀, hbrace, _⟩ | ⟨_, _, _, hs⟩
    · cases he
    · cases he
    · cases he
    · exact ⟨r₀, hbrace⟩
    · exact absurd hs readScalar_ne_object

/-- **An object that is cut short holds no value.** -/
theorem read?_cut_eq_none {ms : List (Option String × Json)}
    (h : readValue n (bs ++ q) = some (.object ms, [])) (hq : q ≠ []) : read? bs = none := by
  rw [read?]
  split
  · rename_i j r hread
    -- such a value would be read from the whole text too, with the cut-off part after it
    have hnumber : r ≠ [] ∨ ∀ x, j ≠ .number x := by
      refine .inr ?_
      rintro x rfl
      obtain ⟨r₀, hbrace⟩ := exists_brace_of_object h
      rcases readValue_eq_some.1 hread with ⟨_, _, _, _, he⟩ | ⟨_, _, ⟨_, he⟩ | ⟨_, _, _, he⟩⟩ |
        ⟨_, _, ⟨_, he⟩ | ⟨_, _, _, he⟩⟩ | ⟨_, _, hne, hs⟩
      iterate 5 cases he
      have hnil : skipBlank bs ≠ [] := fun he => by
        rw [he] at hs
        cases hs
      rw [skipBlank_append_of_ne_nil hnil] at hbrace
      exact append_ne_cons hnil hne q r₀ hbrace
    have hwhole := readValue_append hread hnumber (Nat.le_max_left _ n) q
    rw [readValue_mono h (.inr (by simp)) (Nat.le_max_right _ _)] at hwhole
    simp only [Option.some.injEq, Prod.mk.injEq] at hwhole
    exact absurd (List.append_eq_nil_iff.1 hwhole.2.symm).2 hq
  · rfl

end ReplicatedStore.Json
