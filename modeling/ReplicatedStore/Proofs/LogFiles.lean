import ReplicatedStore.Proofs.WrittenForms
import ReplicatedStore.Storage.LogFile
/-!
# The text of a log, whole and torn

A log is read line by line (`LogFile.read?_line`, `LogFile.read?_last`), so whole lines are read
whatever follows them. What follows decides about the rest:

* `LogFile.read?_write`: nothing follows, and the entries are read.
* `LogFile.read?_unfinished`: an entry follows whose line is not ended; it is read with the others.
* `LogFile.read?_joined`: another line follows directly on such an entry; nothing is read.
* `LogFile.read?_torn`: a part of an entry follows; nothing is read.
-/
namespace ReplicatedStore.LogFile

/-- The text of an entry. -/
def record (e : Entry) : Bytes := Json.encode Entry.toJson e

variable {e : Entry} {es : List Entry} {line rest : Bytes}

@[simp] theorem write_nil : write [] = [] := rfl

theorem write_cons (e : Entry) (es : List Entry) :
    write (e :: es) = record e ++ 0x0A :: write es := by
  simp [write, record]

theorem write_append (es es' : List Entry) : write (es ++ es') = write es ++ write es' :=
  List.flatMap_append

/-- An entry is one line. -/
theorem newline_notMem_record : 0x0A ∉ record e := fun h =>
  absurd (Json.le_of_mem_write (Entry.form.plain e) _ h) (by decide)

theorem exists_record (e : Entry) : ∃ bs, record e = 0x7B :: bs := ⟨_, rfl⟩

theorem record_ne_nil : record e ≠ [] := by
  obtain ⟨bs, h⟩ := exists_record e
  rw [h]
  exact List.cons_ne_nil _ _

/-! ## Lines -/

theorem read?_line (h : 0x0A ∉ line) (rest : Bytes) :
    read? (line ++ 0x0A :: rest) =
      (readLine? line).bind fun o => (read? rest).map fun es => o.toList ++ es := by
  rw [read?, splitOn_append h, List.mapM_cons]
  cases readLine? line with
  | none => rfl
  | some o =>
    rw [read?]
    cases (splitOn 0x0A rest).mapM readLine? with
    | none => rfl
    | some os => cases o <;> rfl

theorem read?_last (h : 0x0A ∉ line) : read? line = (readLine? line).map Option.toList := by
  rw [read?, splitOn_of_notMem h, List.mapM_cons]
  cases readLine? line with
  | none => rfl
  | some o => cases o <;> rfl

theorem readLine?_nil : readLine? [] = some none :=
  bind_of_eq_some (Bytes.toString?_eq_some_iff.2 (show [] = Bytes.ofString "" from rfl)) _

/-- A line that starts with a brace is not blank. -/
theorem all_isBlank_eq_false {s : String} (h : Bytes.ofString s = 0x7B :: line) :
    s.toList.all Blank.isBlank = false := by
  obtain ⟨cs, hcs⟩ := Bytes.exists_toList_of_ofString (by decide) h
  rw [hcs, List.all_cons]
  exact Bool.and_eq_false_imp.2 fun hblank => absurd hblank (by decide)

theorem readLine?_brace (h : Bytes.IsText (0x7B :: line)) :
    readLine? (0x7B :: line) = (Json.decode? Entry.ofJson? (0x7B :: line)).map some := by
  obtain ⟨s, hs⟩ := h
  have htext : Bytes.toString? (0x7B :: line) = some s := Bytes.toString?_eq_some_iff.2 hs
  refine (bind_of_eq_some htext _).trans ?_
  rw [all_isBlank_eq_false hs.symm]
  cases Json.decode? Entry.ofJson? (0x7B :: line) <;> rfl

theorem readLine?_eq_none (h : Json.read? (0x7B :: line) = none) :
    readLine? (0x7B :: line) = none := by
  cases htext : Bytes.toString? (0x7B :: line) with
  | none => rw [readLine?, htext]; rfl
  | some s =>
    have hs := Bytes.toString?_eq_some_iff.1 htext
    rw [readLine?_brace ⟨s, hs⟩, Json.decode?, h]
    rfl

theorem readLine?_record (h : e.Fits) : readLine? (record e) = some (some e) := by
  obtain ⟨bs, hbs⟩ := exists_record e
  have htext : Bytes.IsText (record e) := Json.isText_write (Entry.form.plain e)
  have hdecode : Json.decode? Entry.ofJson? (record e) = some e := Entry.form.decode?_encode h
  rw [hbs] at htext hdecode ⊢
  rw [readLine?_brace htext, hdecode, Option.map_some]

theorem exists_readValue_record (e : Entry) : ∃ ms, ∀ r,
    Json.readValue ((record e).length + 1) (record e ++ r) = some (.object ms, r) :=
  ⟨_, Json.readValue_write (Entry.form.plain e)⟩

/-- An entry that is cut short is no line. -/
theorem readLine?_cut {p q : Bytes} (hrecord : record e = p ++ q) (hp : p ≠ []) (hq : q ≠ []) :
    readLine? p = none := by
  obtain ⟨b, p, rfl⟩ := List.exists_cons_of_ne_nil hp
  obtain ⟨bs, hbs⟩ := exists_record e
  obtain ⟨ms, hread⟩ := exists_readValue_record e
  have hwhole := hread []
  rw [List.append_nil, hrecord] at hwhole
  rw [hbs, List.cons_append, List.cons.injEq] at hrecord
  obtain ⟨rfl, -⟩ := hrecord
  exact readLine?_eq_none (Json.read?_cut_eq_none hwhole hq)

/-- An entry with more behind it is no line. -/
theorem readLine?_record_append {q : Bytes} (hq : q.head? = some 0x7B) :
    readLine? (record e ++ q) = none := by
  obtain ⟨q, rfl⟩ : ∃ q', q = 0x7B :: q' := by
    cases q with
    | nil => cases hq
    | cons b q =>
      cases hq
      exact ⟨q, rfl⟩
  obtain ⟨bs, hbs⟩ := exists_record e
  obtain ⟨ms, hread⟩ := exists_readValue_record e
  have hwhole := hread []
  rw [List.append_nil] at hwhole
  have hnone := Json.read?_append_eq_none (q := 0x7B :: q) hwhole (.inr (by simp)) (Nat.le_refl _)
    (by simp [Json.skipBlank_cons (b := 0x7B) (by decide)])
  rw [hbs, List.cons_append] at hnone ⊢
  exact readLine?_eq_none hnone

/-! ## Whole lines and what follows them -/

/-- What follows whole lines is read on its own. -/
theorem read?_write_append (h : ∀ e ∈ es, e.Fits) (rest : Bytes) :
    read? (write es ++ rest) = (read? rest).map fun es' => es ++ es' := by
  induction es with
  | nil => simp
  | cons e es ih =>
    rw [write_cons, List.append_assoc, List.cons_append, read?_line newline_notMem_record,
      readLine?_record (h e (by simp)), Option.bind_some, ih fun e' he' => h e' (by simp [he']),
      Option.map_map]
    rfl

theorem read?_nil : read? [] = some [] := by
  rw [read?_last (by simp), readLine?_nil]
  rfl

/-- **Whole lines are read.** -/
theorem read?_write (h : ∀ e ∈ es, e.Fits) : read? (write es) = some es := by
  have hread := read?_write_append h []
  rwa [List.append_nil, read?_nil, Option.map_some, List.append_nil] at hread

/-- **An entry without the end of its line is read with the lines before it.** -/
theorem read?_unfinished (h : ∀ e ∈ es, e.Fits) (he : e.Fits) :
    read? (write es ++ record e) = some (es ++ [e]) := by
  rw [read?_write_append h, read?_last newline_notMem_record, readLine?_record he]
  rfl

/-- **Lines that are put behind such an entry make the log unreadable.** -/
theorem read?_joined (h : ∀ e ∈ es, e.Fits) (e : Entry) {later : List Entry} (hlater : later ≠ []) :
    read? (write es ++ record e ++ write later) = none := by
  obtain ⟨e', later, rfl⟩ := List.exists_cons_of_ne_nil hlater
  rw [List.append_assoc, read?_write_append h, write_cons, ← List.append_assoc, read?_line,
    readLine?_record_append rfl]
  · rfl
  · simp [newline_notMem_record]

/-- **A part of an entry makes the log unreadable.** -/
theorem read?_torn (h : ∀ e ∈ es, e.Fits) {p q : Bytes} (hrecord : record e = p ++ q) (hp : p ≠ [])
    (hq : q ≠ []) : read? (write es ++ p) = none := by
  have hline : 0x0A ∉ p := fun hmem =>
    newline_notMem_record (e := e) (hrecord ▸ List.mem_append_left q hmem)
  rw [read?_write_append h, read?_last hline, readLine?_cut hrecord hp hq]
  rfl

/-- The front of written entries: whole lines, then at most the text of one more entry. -/
theorem exists_take_write (es : List Entry) (k : Nat) : ∃ n p,
    (write es).take k = write (es.take n) ++ p ∧
      (p = [] ∨ ∃ e q, es[n]? = some e ∧ p ≠ [] ∧ record e = p ++ q) := by
  induction es generalizing k with
  | nil => exact ⟨0, [], by simp, .inl rfl⟩
  | cons e es ih =>
    rw [write_cons]
    rcases Nat.lt_or_ge (record e).length k with hlt | hle
    · obtain ⟨n, p, htake, hp⟩ := ih (k - (record e).length - 1)
      refine ⟨n + 1, p, ?_, hp⟩
      have hrest : k - (record e).length = (k - (record e).length - 1) + 1 := by omega
      rw [List.take_append, List.take_of_length_le (Nat.le_of_lt hlt), hrest, List.take_succ_cons,
        htake, List.take_succ_cons, write_cons]
      simp
    · refine ⟨0, (record e).take k, ?_, ?_⟩
      · rw [List.take_append_of_le_length hle]
        simp
      · rcases Nat.eq_zero_or_pos k with rfl | hpos
        · exact .inl (List.take_zero)
        · refine .inr ⟨e, (record e).drop k, rfl, ?_, (List.take_append_drop _ _).symm⟩
          simp only [ne_eq, List.take_eq_nil_iff, not_or]
          exact ⟨by omega, record_ne_nil⟩

end ReplicatedStore.LogFile
