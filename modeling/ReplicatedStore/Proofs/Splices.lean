import Mathlib.Data.Nat.Find
import ReplicatedStore.Proofs.RequestedLogs
/-!
# What a request makes of a log

The entries of a request are placed one by one, and each of them may be skipped, found, put in the
place of others or added at the end. The result has one description all the same: the log up to
some position, and the request's entries from there on (`Replica.splice`).

That position is the first one above the base where log and request hold different terms
(`Replica.Clashes`), and without one the position after the end of the log. Before it, every entry
is skipped or found, so placing may as well begin there (`placeAll_of_keeps`). From there on
everything is added (`placeAll_end`), after the rest of the log has gone if there was a clash
(`placeAll_clash`). What is spliced holds the whole request, so that to place it once more changes
nothing (`takeEntries_exactly`).
-/
namespace ReplicatedStore

namespace Replica

variable {r r' : Replica} {i j k : Nat} {e : Entry} {es : List Entry} {change : Option LogChange}

/-! ## Splices -/

/-- The log below a position, and entries under the positions from there on. -/
def splice (r : Replica) (k : Nat) (es : List Entry) : Replica :=
  { r with log := r.log.take (k - r.snapshotIndex - 1) ++ renumber k es }

theorem length_take_below (hk : k ≤ r.snapshotIndex + r.log.length + 1) :
    (r.log.take (k - r.snapshotIndex - 1)).length = k - r.snapshotIndex - 1 :=
  List.length_take_of_le (by omega)

theorem splice_nil (hk : r.snapshotIndex + r.log.length < k) : r.splice k [] = r := by
  rw [splice, renumber, List.append_nil, List.take_of_length_le (by omega)]

/-- A splice after a splice continues it. -/
theorem splice_splice (hbase : r.snapshotIndex < k) (hk : k ≤ r.snapshotIndex + r.log.length + 1) :
    (r.splice k [e]).splice (k + 1) es = r.splice k (e :: es) := by
  have hlen := length_take_below hk
  simp only [splice, renumber]
  rw [List.take_of_length_le (by rw [List.length_append, hlen, List.length_singleton]; omega),
    List.append_assoc, List.singleton_append]

theorem entryAt?_splice_of_lt (hk : k ≤ r.snapshotIndex + r.log.length + 1) (hj : j < k) :
    (r.splice k es).entryAt? j = r.entryAt? j := by
  have hlen := length_take_below hk
  unfold entryAt? splice
  split
  · rfl
  · next hlt =>
    simp only at hlt ⊢
    rw [List.getElem?_append_left (by omega), List.getElem?_take_of_lt (by omega)]

theorem entryAt?_splice_of_ge (hbase : r.snapshotIndex < k)
    (hk : k ≤ r.snapshotIndex + r.log.length + 1) (hj : k ≤ j) :
    (r.splice k es).entryAt? j = es[j - k]?.map fun e => { e with index := j } := by
  have hlen := length_take_below hk
  have hlt : (r.splice k es).snapshotIndex < j := Nat.lt_of_lt_of_le hbase hj
  rw [entryAt?_of_lt hlt]
  simp only [splice]
  rw [List.getElem?_append_right (by omega), hlen, getElem?_renumber,
    show j - r.snapshotIndex - 1 - (k - r.snapshotIndex - 1) = j - k by omega,
    show k + (j - k) = j by omega]

theorem Numbered.splice (h : r.Numbered) (hbase : r.snapshotIndex < k)
    (hk : k ≤ r.snapshotIndex + r.log.length + 1) : (r.splice k es).Numbered := by
  intro n e hn
  have hentry : (r.splice k es).entryAt? (r.snapshotIndex + n + 1) = some e := by
    have hlt : (r.splice k es).snapshotIndex < r.snapshotIndex + n + 1 :=
      Nat.lt_succ_of_le (Nat.le_add_right _ _)
    rw [entryAt?_of_lt hlt, ← hn]
    simp only [Replica.splice]
    congr 1
    omega
  rcases Nat.lt_or_ge (r.snapshotIndex + n + 1) k with hlt | hge
  · rw [entryAt?_splice_of_lt hk hlt] at hentry
    exact h.index_entryAt? hentry
  · rw [entryAt?_splice_of_ge hbase hk hge] at hentry
    obtain ⟨e', -, rfl⟩ := Option.map_eq_some_iff.1 hentry
    rfl

theorem Numbered.lastIndex_splice (h : r.Numbered) (hbase : r.snapshotIndex < k)
    (hk : k ≤ r.snapshotIndex + r.log.length + 1) :
    (r.splice k es).lastIndex + 1 = k + es.length := by
  rw [(h.splice hbase hk).lastIndex_eq]
  simp only [Replica.splice, List.length_append, List.length_take, length_renumber]
  omega

/-! ## Placing entries -/

/-- The log holds the entries from a position on, up to another: each is below its base or stands in
it in the same term. -/
def Keeps (r : Replica) (i : Nat) (es : List Entry) (k : Nat) : Prop :=
  ∀ (n : Nat) (e : Entry), es[n]? = some e → i + n < k →
    i + n ≤ r.snapshotIndex ∨ ∃ held, r.entryAt? (i + n) = some held ∧ held.term = e.term

/-- Placing what the log holds already leaves only the rest to be placed. -/
theorem placeAll_of_keeps (h : r.Keeps i es k) (hi : i ≤ k) :
    r.placeAll i change es = r.placeAll k change (es.drop (k - i)) := by
  induction es generalizing i with
  | nil => rw [List.drop_nil]; rfl
  | cons e es ih =>
    rcases Nat.eq_or_lt_of_le hi with rfl | hlt
    · rw [Nat.sub_self, List.drop_zero]
    · have hplace : r.place i e change = (r, change) := by
        unfold place
        have hkept := h 0 e rfl hlt
        rw [Nat.add_zero] at hkept
        rcases hkept with hbelow | ⟨held, hheld, hterm⟩
        · exact if_pos hbelow
        · rw [if_neg (Nat.not_le.2 (lt_of_entryAt? hheld))]
          simp only [hheld, hterm, if_true]
      have hrest : r.Keeps (i + 1) es k := by
        intro n e' hn hnk
        rw [show i + 1 + n = i + (n + 1) by omega] at hnk ⊢
        exact h (n + 1) e' hn hnk
      rw [placeAll, hplace, show k - i = k - (i + 1) + 1 by omega, List.drop_succ_cons]
      exact ih hrest hlt

/-- After its end a log takes every entry, and the first one is reported if nothing was before. -/
theorem placeAll_end (h : r.Numbered) (hk : k = r.lastIndex + 1) :
    r.placeAll k change es =
      (r.splice k es, if es = [] then change else change <|> some (.appended k)) := by
  induction es generalizing r k change with
  | nil =>
    have hlast := h.lastIndex_eq
    rw [placeAll, splice_nil (by omega), if_pos rfl]
  | cons e es ih =>
    have hlast := h.lastIndex_eq
    have hplace : r.place k e change = (r.splice k [e], change <|> some (.appended k)) := by
      have hnone : r.entryAt? k = none := by
        rw [entryAt?_of_lt (by omega), List.getElem?_eq_none_iff]
        omega
      rw [place, if_neg (by omega), hnone, splice, List.take_of_length_le (by omega)]
      rfl
    have hnext : k + 1 = (r.splice k [e]).lastIndex + 1 := by
      rw [h.lastIndex_splice (by omega) (by omega)]
      rfl
    rw [placeAll, hplace, if_neg (List.cons_ne_nil _ _)]
    simp only
    rw [ih (h.splice (by omega) (by omega)) hnext, splice_splice (by omega) (by omega)]
    congr 1
    split
    · rfl
    · cases change <;> rfl

/-- An entry of another term puts an end to the log, and takes the entries after it along. -/
theorem placeAll_clash (h : r.Numbered) {held : Entry} (hheld : r.entryAt? k = some held)
    (hterm : held.term ≠ e.term) :
    r.placeAll k change (e :: es) = (r.splice k (e :: es), some .rewritten) := by
  have hbase := lt_of_entryAt? hheld
  have hlast := h.lastIndex_eq
  have hle := h.le_lastIndex hheld
  have hplace : r.place k e change = (r.splice k [e], some .rewritten) := by
    rw [place, if_neg (by omega), hheld]
    simp only [if_neg hterm, truncate, if_pos hbase, splice, renumber]
  have hnext : k + 1 = (r.splice k [e]).lastIndex + 1 := by
    rw [h.lastIndex_splice hbase (by omega)]
    rfl
  rw [placeAll, hplace]
  simp only
  rw [placeAll_end (h.splice hbase (by omega)) hnext, splice_splice hbase (by omega)]
  congr 1
  split <;> rfl

/-! ## Requests -/

section Requests

variable {q : AppendRequest}

/-- The request fits on to the log: what comes before its entries is covered by an image, or stands
in the log in the term that it says. -/
def Joins (r : Replica) (q : AppendRequest) : Prop :=
  q.prevIndex ≤ r.snapshotIndex ∨ (r.entryAt? q.prevIndex).map (·.term) = some q.prevTerm

/-- Log and request hold entries of different terms at a position. -/
def Clashes (r : Replica) (q : AppendRequest) (k : Nat) : Prop :=
  q.prevIndex < k ∧ ∃ held e, r.entryAt? k = some held ∧
    q.entries[k - q.prevIndex - 1]? = some e ∧ held.term ≠ e.term

/-- The lowest position of a clash. -/
def FirstClash (r : Replica) (q : AppendRequest) (k : Nat) : Prop :=
  r.Clashes q k ∧ ∀ j < k, ¬ r.Clashes q j

/-- What the log is after a request that fits on, and what is reported of it. If they clash, the log
is as before below the first clash, and as in the request from there on; if not, the entries beyond
its end have been added. -/
structure Spliced (r r' : Replica) (q : AppendRequest) (change : Option LogChange) : Prop where
  clash : ∀ k, r.FirstClash q k →
    r'.log = r.log.take (k - r.snapshotIndex - 1) ++
      renumber k (q.entries.drop (k - q.prevIndex - 1)) ∧
    change = some .rewritten
  extended : (∀ k, ¬ r.Clashes q k) →
    r'.log = r.log ++ renumber (r.lastIndex + 1) (q.entries.drop (r.lastIndex - q.prevIndex)) ∧
    change = if r.lastIndex < q.prevIndex + q.entries.length then some (.appended (r.lastIndex + 1))
      else none

theorem SameLog.joins_iff (hs : SameLog r r') : r'.Joins q ↔ r.Joins q := by
  simp only [Joins, hs.base, hs.entryAt?_eq]

theorem SameLog.clashes_iff (hs : SameLog r r') : r'.Clashes q k ↔ r.Clashes q k := by
  simp only [Clashes, hs.entryAt?_eq]

theorem SameLog.spliced {r₁ : Replica} (hs : SameLog r r₁) (h : Spliced r₁ r' q change) :
    Spliced r r' q change := by
  obtain ⟨hclash, hextended⟩ := h
  simp only [FirstClash, hs.clashes_iff, hs.log, hs.base, hs.lastIndex_eq] at hclash hextended
  exact ⟨hclash, hextended⟩

theorem Numbered.anchors_iff (h : r.Numbered) :
    r.anchors q.prevIndex q.prevTerm = true ↔ r.Joins q := by
  simp only [anchors, Joins, Bool.or_eq_true, Bool.and_eq_true, decide_eq_true_eq,
    Option.map_eq_some_iff]
  constructor
  · rintro (hbelow | ⟨hle, hterm⟩)
    · exact .inl hbelow
    · rcases Nat.lt_or_ge r.snapshotIndex q.prevIndex with hlt | hge
      · obtain ⟨e, he⟩ := h.exists_entryAt? hlt hle
        exact .inr ⟨e, he, termAt_of_entryAt? he ▸ hterm⟩
      · exact .inl hge
  · rintro (hbelow | ⟨e, he, hterm⟩)
    · exact .inl hbelow
    · exact .inr ⟨h.le_lastIndex he, termAt_of_entryAt? he ▸ hterm⟩

theorem Joins.prevIndex_le (hq : r.Joins q) (h : r.Numbered) : q.prevIndex ≤ r.lastIndex := by
  have hlast := h.lastIndex_eq
  rcases hq with hbelow | hheld
  · omega
  · obtain ⟨e, he, -⟩ := Option.map_eq_some_iff.1 hheld
    exact h.le_lastIndex he

/-! ## Where they part -/

/-- The log up to a position, and what the request holds from there on. -/
def spliceAt (r : Replica) (q : AppendRequest) (k : Nat) : Replica :=
  r.splice k (q.entries.drop (k - (q.prevIndex + 1)))

/-- Log and request part at a position: it is above the base and the start of the request, not
beyond the end of the log, and the log holds what the request does below it. Placing the entries
comes to a splice there. -/
structure Parting (r : Replica) (q : AppendRequest) (k : Nat) (change : Option LogChange) :
    Prop where
  above : r.snapshotIndex < k
  follows : q.prevIndex < k
  inside : k ≤ r.snapshotIndex + r.log.length + 1
  keeps : r.Keeps (q.prevIndex + 1) q.entries k
  placed : r.placeAll (q.prevIndex + 1) none q.entries = (r.spliceAt q k, change)
  spliced : Spliced r (r.spliceAt q k) q change

/-- Up to a position with no clash before it, the log holds the entries of the request. -/
theorem Numbered.keeps (h : r.Numbered) (hk : k ≤ r.lastIndex + 1)
    (hno : ∀ j < k, ¬ r.Clashes q j) : r.Keeps (q.prevIndex + 1) q.entries k := by
  intro n e hn hnk
  rcases Nat.lt_or_ge r.snapshotIndex (q.prevIndex + 1 + n) with hlt | hge
  · obtain ⟨held, hheld⟩ := h.exists_entryAt? hlt (by omega)
    refine .inr ⟨held, hheld, Classical.byContradiction fun hne => ?_⟩
    refine hno _ hnk ⟨by omega, held, e, hheld, ?_, hne⟩
    rw [show q.prevIndex + 1 + n - q.prevIndex - 1 = n by omega, hn]
  · exact .inl hge

theorem FirstClash.unique (hk : r.FirstClash q k) (hj : r.FirstClash q j) : j = k := by
  rcases Nat.lt_trichotomy j k with hlt | heq | hgt
  · exact absurd hj.1 (hk.2 j hlt)
  · exact heq
  · exact absurd hk.1 (hj.2 k hgt)

/-- With a clash, they part at the first one. -/
theorem FirstClash.parting (hk : r.FirstClash q k) (h : r.Numbered) :
    r.Parting q k (some .rewritten) := by
  have hclash := hk.1
  obtain ⟨hprev, held, e, hheld, he, hterm⟩ := hclash
  have hlast := h.lastIndex_eq
  have hle := h.le_lastIndex hheld
  have hkeeps := h.keeps (by omega) hk.2
  refine ⟨lt_of_entryAt? hheld, hprev, by omega, hkeeps, ?_, ?_, ?_⟩
  · obtain ⟨hlen, rfl⟩ := List.getElem?_eq_some_iff.1 he
    rw [placeAll_of_keeps hkeeps hprev, spliceAt, Nat.sub_succ', List.drop_eq_getElem_cons hlen,
      placeAll_clash h hheld hterm]
  · intro j hj
    obtain rfl := hk.unique hj
    exact ⟨rfl, rfl⟩
  · exact fun hno => absurd hk.1 (hno k)

/-- Without a clash, they part after the end of the log. -/
theorem Joins.parting (hq : r.Joins q) (h : r.Numbered) (hno : ∀ k, ¬ r.Clashes q k) :
    ∃ change, r.Parting q (r.lastIndex + 1) change := by
  have hlast := h.lastIndex_eq
  have hprev := hq.prevIndex_le h
  have hkeeps := h.keeps (Nat.le_refl _) fun j _ => hno j
  refine ⟨_, by omega, by omega, by omega, hkeeps,
    (placeAll_of_keeps hkeeps (by omega)).trans (placeAll_end h rfl), ?_, fun _ => ⟨?_, ?_⟩⟩
  · exact fun k hk => absurd hk.1 (hno k)
  · rw [spliceAt, splice, List.take_of_length_le (by omega), Nat.add_sub_add_right]
  · simp only [List.drop_eq_nil_iff]
    split <;> split <;> first | rfl | omega

/-- A request that fits on parts from the log somewhere. -/
theorem Joins.exists_parting (hq : r.Joins q) (h : r.Numbered) :
    ∃ k change, r.Parting q k change := by
  classical
  by_cases hclash : ∃ k, r.Clashes q k
  · have hfirst : r.FirstClash q (Nat.find hclash) :=
      ⟨Nat.find_spec hclash, fun _ hj => Nat.find_min hclash hj⟩
    exact ⟨_, _, hfirst.parting h⟩
  · exact ⟨_, hq.parting h fun k hk => hclash ⟨k, hk⟩⟩

namespace Parting

theorem numbered (hk : r.Parting q k change) (h : r.Numbered) : (r.spliceAt q k).Numbered :=
  h.splice hk.above hk.inside

/-- The spliced log reaches the end of the request. -/
theorem le_lastIndex (hk : r.Parting q k change) (h : r.Numbered) :
    q.prevIndex + q.entries.length ≤ (r.spliceAt q k).lastIndex := by
  have hlast : (r.spliceAt q k).lastIndex + 1 = _ := h.lastIndex_splice hk.above hk.inside
  have hfollows := hk.follows
  rw [List.length_drop] at hlast
  omega

/-- The request fits on to the spliced log too. -/
theorem joins (hk : r.Parting q k change) (hq : r.Joins q) : (r.spliceAt q k).Joins q := by
  rcases hq with hbelow | hheld
  · exact .inl hbelow
  · exact .inr ((entryAt?_splice_of_lt hk.inside hk.follows).symm ▸ hheld)

/-- The spliced log holds all that the request does. -/
theorem keeps_all (hk : r.Parting q k change) : (r.spliceAt q k).Keeps (q.prevIndex + 1) q.entries
    (q.prevIndex + 1 + q.entries.length) := by
  intro n e hn hlt
  rcases Nat.lt_or_ge (q.prevIndex + 1 + n) k with hnk | hkn
  · rw [spliceAt, entryAt?_splice_of_lt hk.inside hnk]
    exact hk.keeps n e hn hnk
  · have hfollows := hk.follows
    refine .inr ⟨{ e with index := q.prevIndex + 1 + n }, ?_, rfl⟩
    rw [spliceAt, entryAt?_splice_of_ge hk.above hk.inside hkn, List.getElem?_drop,
      show k - (q.prevIndex + 1) + (q.prevIndex + 1 + n - k) = n by omega, hn]
    rfl

end Parting

/-! ## Taking requests -/

/-- A request that fits on is taken, if its positions are words. -/
theorem takeEntries_joined (h : r.Numbered) (hterm : r.term ≤ q.term) (hq : r.Joins q)
    (hroom : q.prevIndex + q.entries.length ≤ maxWord)
    {r₁ : Replica} {advanced : Bool}
    (hplaced : (r.accept q.term q.leader).placeAll (q.prevIndex + 1) none q.entries = (r₁, change))
    (hfollowed : r₁.followCommit q.leaderCommit (q.prevIndex + q.entries.length) =
      (r', advanced)) :
    r.takeEntries q = .ok (r', ⟨true, true, change, advanced⟩) := by
  have hs := sameLog_accept r q.term q.leader
  rw [takeEntries]
  simp only [if_neg (Nat.not_lt.2 hterm), hs.anchors_eq, h.anchors_iff.2 hq, Bool.not_true,
    Bool.false_eq_true, if_false, Word.add_eq_ok_iff.2 ⟨hroom, rfl⟩, hplaced]
  exact bind_eq_ok.2 ⟨_, rfl, by rw [hfollowed]; rfl⟩

/-- A follower that knows the sender as its leader changes nothing about its part. -/
theorem accept_self {term : Nat} {leader : NodeId} (hrole : r.role = .follower)
    (hterm : r.term = term) (hleader : r.leader = some leader) : r.accept term leader = r := by
  rw [accept, if_neg (by simp [hrole, hterm]), ← hleader]

/-- A request that has been taken changes nothing any more. -/
theorem takeEntries_again (h : r.Numbered) (hq : r.Joins q)
    (hroom : q.prevIndex + q.entries.length ≤ maxWord)
    (haccept : r.accept q.term q.leader = r) (hterm : r.term = q.term)
    (hkeeps : r.Keeps (q.prevIndex + 1) q.entries (q.prevIndex + 1 + q.entries.length))
    (hcommit : min q.leaderCommit (q.prevIndex + q.entries.length) ≤ r.commitIndex) :
    r.takeEntries q = .ok (r, ⟨true, true, none, false⟩) := by
  have hplaced : r.placeAll (q.prevIndex + 1) none q.entries = (r, none) := by
    rw [placeAll_of_keeps hkeeps (by omega), List.drop_of_length_le (by omega)]
    rfl
  have hfollowed : r.followCommit q.leaderCommit (q.prevIndex + q.entries.length) =
      (r, false) := by
    rw [followCommit]
    exact if_neg (by omega)
  exact takeEntries_joined h (by omega) hq hroom (haccept.symm ▸ hplaced) hfollowed

/-- **A request of a term that is not old, exactly.** It is taken just if it fits on to the log, and
changes neither the log nor the commit index if it does not. If it does, its entries are spliced in,
the commit index goes as far as the leader's and the request allow, and to take the request once
more changes nothing. -/
theorem takeEntries_exactly (h : r.Numbered) (hterm : r.term ≤ q.term)
    (hroom : r.Joins q → q.prevIndex + q.entries.length ≤ maxWord) :
    ∃ r' o, r.takeEntries q = .ok (r', o) ∧ (o.success = true ↔ r.Joins q) ∧
      (o.success = false → r'.log = r.log ∧ r'.commitIndex = r.commitIndex) ∧
      (o.success = true → Spliced r r' q o.change ∧
        r'.commitIndex =
          max r.commitIndex (min q.leaderCommit (q.prevIndex + q.entries.length)) ∧
        r'.takeEntries q = .ok (r', ⟨true, true, none, false⟩)) := by
  have hs := sameLog_accept r q.term q.leader
  by_cases hq : r.Joins q
  · have ha := h.of_sameLog hs
    have hqa := hs.joins_iff.2 hq
    obtain ⟨k, change, hk⟩ := hqa.exists_parting ha
    obtain ⟨hrole, hterm'⟩ := accept_spec hterm q.leader
    have htaken := takeEntries_joined h hterm hq (hroom hq) hk.placed
      (Prod.ext (followCommit_eq (hk.le_lastIndex ha)) rfl)
    refine ⟨_, _, htaken, iff_of_true rfl hq, nofun, fun _ => ⟨?_, ?_, ?_⟩⟩
    · exact hs.spliced ⟨hk.spliced.clash, hk.spliced.extended⟩
    · exact congrArg (max · _) hs.commit
    · refine takeEntries_again ?_ ?_ (hroom hq) (accept_self hrole hterm' rfl) hterm' ?_
        (Nat.le_max_right _ _)
      · exact hk.numbered ha
      · exact hk.joins hqa
      · exact hk.keeps_all
  · have hrefused : r.anchors q.prevIndex q.prevTerm = false :=
      Bool.eq_false_iff.2 fun ha => hq (h.anchors_iff.1 ha)
    exact ⟨_, _, takeEntries_refused hterm hrefused, iff_of_false nofun hq,
      fun _ => ⟨hs.log, hs.commit⟩, nofun⟩

/-- A follower with an image of two entries, and three entries after it, which the next leader does
not hold all. -/
def straying : Replica :=
  { create 2 [1, 2, 3] {} with
    term := 2
    log := [⟨1, 3, .put "a" "x"⟩, ⟨2, 4, .put "b" "y"⟩, ⟨2, 5, .delete "a"⟩]
    snapshotIndex := 2
    snapshotTerm := 1
    commitIndex := 3
    lastApplied := 3 }

/-- What that leader sends it: from below its image to above its end. -/
def straightening : AppendRequest where
  term := 3
  leader := 1
  prevIndex := 1
  prevTerm := 1
  entries := [⟨1, 2, .get "a"⟩, ⟨1, 3, .put "a" "x"⟩, ⟨3, 4, .put "c" "z"⟩, ⟨3, 5, .get "c"⟩,
    ⟨3, 6, .delete "c"⟩]
  leaderCommit := 5

/-- The two clash at position 4. -/
theorem takeEntries_exactly_straying :
    straying.Numbered ∧ straying.term ≤ straightening.term ∧ straying.Joins straightening ∧
      ∃ r' o, straying.takeEntries straightening = .ok (r', o) ∧ o.success = true ∧
        r'.log = [⟨1, 3, .put "a" "x"⟩, ⟨3, 4, .put "c" "z"⟩, ⟨3, 5, .get "c"⟩,
          ⟨3, 6, .delete "c"⟩] ∧
        o.change = some .rewritten ∧ r'.commitIndex = 5 ∧
        r'.takeEntries straightening = .ok (r', ⟨true, true, none, false⟩) := by
  have hnumbered : straying.Numbered := by
    rintro (_ | _ | _ | k) e he <;> cases he <;> rfl
  have hterm : straying.term ≤ straightening.term := by decide
  have hjoins : straying.Joins straightening := .inl (by decide)
  have hclash : straying.FirstClash straightening 4 := by
    refine ⟨⟨by decide, _, _, rfl, rfl, by decide⟩, ?_⟩
    rintro j hj ⟨-, held, e, hheld, he, hterms⟩
    have hbase : 2 < j := lt_of_entryAt? hheld
    obtain rfl : j = 3 := by omega
    cases hheld
    cases he
    exact hterms rfl
  obtain ⟨r', o, hrun, hsuccess, -, htaken⟩ :=
    takeEntries_exactly hnumbered hterm fun _ => by decide
  have hgranted := hsuccess.2 hjoins
  obtain ⟨hspliced, hcommit, hagain⟩ := htaken hgranted
  obtain ⟨hlog, hchange⟩ := hspliced.clash 4 hclash
  exact ⟨hnumbered, hterm, hjoins, r', o, hrun, hgranted, hlog, hchange, hcommit, hagain⟩

end Requests

end Replica

end ReplicatedStore
