import Mathlib.Data.List.TakeWhile
import ReplicatedStore.Proofs.CheckedArithmetic
import ReplicatedStore.Proofs.Faltering
/-!
# What a member has applied

A member applies what is committed in batches. A batch counts as applied when it is taken from the
log, before its first entry is executed, and it ends at an entry that cannot be executed. So the
rest of such a batch is never executed, although it counts as applied, and the next batch starts
behind it (`corrupt_entry_skips`).

Nothing else is skipped (`applied_in_batches`): what a member executes are entries of its log, each
at most once and in order, and where one is missing, the batch came upon an entry before it that
could not be executed. As long as no call has failed on an entry, whatever writes have failed, every
entry was executed up to the one that counts as applied last.
-/
namespace ReplicatedStore

/-- In a list in order, whatever is not taken comes at or behind something that ended the taking. -/
theorem mem_takeWhile_or {α : Type} {R : α → α → Prop} {p : α → Bool} {l : List α}
    (hl : l.Pairwise R) {x : α} (hx : x ∈ l) :
    x ∈ l.takeWhile p ∨ ∃ y ∈ l, p y = false ∧ (y = x ∨ R y x) ∧ ∀ z ∈ l.takeWhile p, R z y := by
  induction l with
  | nil => cases hx
  | cons a l ih =>
    obtain ⟨hfirst, hl⟩ := List.pairwise_cons.1 hl
    cases ha : p a with
    | false =>
      rw [List.takeWhile_cons_of_neg (by simp [ha])]
      exact .inr ⟨a, List.mem_cons_self, ha, (List.mem_cons.1 hx).imp Eq.symm (hfirst x), nofun⟩
    | true =>
      rw [List.takeWhile_cons_of_pos ha]
      rcases List.mem_cons.1 hx with rfl | hx
      · exact .inl List.mem_cons_self
      · rcases ih hl hx with htaken | ⟨y, hy, hend, hyx, hbefore⟩
        · exact .inl (List.mem_cons_of_mem _ htaken)
        · refine .inr ⟨y, List.mem_cons_of_mem _ hy, hend, hyx, fun z hz => ?_⟩
          rcases List.mem_cons.1 hz with rfl | hz
          · exact hfirst y hy
          · exact hbefore z hz

/-! ## Stretches of a log -/

namespace Replica

variable {r r' : Replica} {i j k : Nat} {e : Entry} {es : List Entry}

/-- The entries after a position, up to another. -/
def between (r : Replica) (i j : Nat) : List Entry :=
  (List.range' (i + 1) (j - i)).filterMap r.entryAt?

theorem between_self (r : Replica) (i : Nat) : r.between i i = [] := by
  rw [between, Nat.sub_self]
  rfl

theorem between_append (r : Replica) (hij : i ≤ j) (hjk : j ≤ k) :
    r.between i j ++ r.between j k = r.between i k := by
  have hstart : j + 1 = i + 1 + (j - i) := by omega
  rw [between, between, between, ← List.filterMap_append, hstart, List.range'_append_1,
    show j - i + (k - j) = k - i by omega]

/-- Only what is held in the stretch counts. -/
theorem between_congr (h : ∀ n, i < n → r'.entryAt? n = r.entryAt? n) :
    r'.between i j = r.between i j := by
  refine List.filterMap_congr fun n hn => h n ?_
  exact Nat.lt_of_succ_le (List.mem_range'_1.1 hn).1

theorem Numbered.mem_between (h : r.Numbered) :
    e ∈ r.between i j ↔ i < e.index ∧ e.index ≤ j ∧ r.entryAt? e.index = some e := by
  simp only [between, List.mem_filterMap, List.mem_range'_1]
  constructor
  · rintro ⟨n, hn, he⟩
    obtain rfl := h.index_entryAt? he
    exact ⟨by omega, by omega, he⟩
  · rintro ⟨hi, hj, he⟩
    exact ⟨e.index, by omega, he⟩

/-- Inside the log, a stretch has an entry at every position. -/
theorem Numbered.index_between (h : r.Numbered) (hi : r.snapshotIndex ≤ i) (hj : j ≤ r.lastIndex) :
    (r.between i j).map (·.index) = List.range' (i + 1) (j - i) := by
  have hindex : ∀ n ∈ List.range' (i + 1) (j - i), (r.entryAt? n).map (·.index) = some n := by
    intro n hn
    rw [List.mem_range'_1] at hn
    obtain ⟨e, he⟩ := h.exists_entryAt? (i := n) (by omega) (by omega)
    rw [he, Option.map_some, h.index_entryAt? he]
  rw [between, List.map_filterMap, List.filterMap_congr hindex, List.filterMap_some]

theorem Numbered.rising_between (h : r.Numbered) (hi : r.snapshotIndex ≤ i)
    (hj : j ≤ r.lastIndex) : (r.between i j).Pairwise fun e e' => e.index < e'.index := by
  rw [← List.pairwise_map (f := fun e : Entry => e.index), h.index_between hi hj]
  exact List.pairwise_lt_range'

/-! ## Batches -/

/-- The entries that are executed of a stretch that is applied at once: those before the first that
cannot be. -/
def batch (r : Replica) (i j : Nat) : List Entry :=
  (r.between i j).takeWhile fun e => e.command.Valued

/-- What is executed from a position to another, batch by batch. -/
inductive Batches (r : Replica) (i : Nat) : List Entry → Nat → Prop
  | none : Batches r i [] i
  | more {es : List Entry} {j k : Nat} :
      Batches r i es j → j ≤ k → Batches r i (es ++ r.batch j k) k

/-- A position was passed over: an entry at or below it cannot be executed, and from there to the
position nothing was. -/
def PassedOver (r : Replica) (i : Nat) (es : List Entry) (n : Nat) : Prop :=
  ∃ e, i < e.index ∧ e.index ≤ n ∧ r.entryAt? e.index = some e ∧ ¬ e.command.Valued ∧
    ∀ e' ∈ es, e'.index < e.index ∨ n < e'.index

/-- In a batch, an entry is missing only behind one that cannot be executed. -/
theorem Numbered.batch_cases (h : r.Numbered) (hi : r.snapshotIndex ≤ i) (hj : j ≤ r.lastIndex)
    {n : Nat} (hin : i < n) (hnj : n ≤ j) :
    (∃ e ∈ r.batch i j, e.index = n) ∨ r.PassedOver i (r.batch i j) n := by
  obtain ⟨e, he⟩ := h.exists_entryAt? (i := n) (by omega) (by omega)
  obtain rfl := h.index_entryAt? he
  have hmem : e ∈ r.between i j := h.mem_between.2 ⟨hin, hnj, he⟩
  rcases mem_takeWhile_or (p := fun e => e.command.Valued) (h.rising_between hi hj) hmem with
    htaken | ⟨c, hc, hbad, hce, hbefore⟩
  · exact .inl ⟨e, htaken, rfl⟩
  · obtain ⟨hic, -, hentry⟩ := h.mem_between.1 hc
    have hle : c.index ≤ e.index := hce.elim (fun heq => heq ▸ Nat.le_refl _) Nat.le_of_lt
    exact .inr ⟨c, hic, hle, hentry, of_decide_eq_false hbad, fun z hz => .inl (hbefore z hz)⟩

namespace Batches

theorem le (h : r.Batches i es j) : i ≤ j := by
  induction h with
  | none => exact Nat.le_refl i
  | more _ hjk ih => exact Nat.le_trans ih hjk

/-- Batches are taken from the log in order, and nothing is taken twice. -/
theorem sublist (h : r.Batches i es j) : es.Sublist (r.between i j) := by
  induction h with
  | none => exact List.nil_sublist _
  | more h hjk ih =>
    rw [← r.between_append h.le hjk]
    exact ih.append (List.takeWhile_sublist _)

/-- An entry is missing only behind one that cannot be executed. -/
theorem cases_at (h : r.Batches i es j) (hr : r.Numbered) (hi : r.snapshotIndex ≤ i)
    (hj : j ≤ r.lastIndex) {n : Nat} (hin : i < n) (hnj : n ≤ j) :
    (∃ e ∈ es, e.index = n) ∨ r.PassedOver i es n := by
  induction h with
  | none => omega
  | @more es j k h hjk ih =>
    have hij := h.le
    rcases Nat.lt_or_ge j n with hlt | hge
    · -- the position is in the last batch, and all before that is below it
      rcases hr.batch_cases (Nat.le_trans hi hij) hj hlt hnj with
        ⟨e, he, hindex⟩ | ⟨c, hjc, hcn, hc, hbad, hbefore⟩
      · exact .inl ⟨e, List.mem_append_right _ he, hindex⟩
      · refine .inr ⟨c, by omega, hcn, hc, hbad, fun e he => ?_⟩
        rcases List.mem_append.1 he with he | he
        · obtain ⟨-, hej, -⟩ := hr.mem_between.1 (h.sublist.subset he)
          exact .inl (by omega)
        · exact hbefore e he
    · -- what comes in the last batch is above the position
      rcases ih (by omega) hge with ⟨e, he, hindex⟩ | ⟨c, hic, hcn, hc, hbad, hbefore⟩
      · exact .inl ⟨e, List.mem_append_left _ he, hindex⟩
      · refine .inr ⟨c, hic, hcn, hc, hbad, fun e he => ?_⟩
        rcases List.mem_append.1 he with he | he
        · exact hbefore e he
        · obtain ⟨hje, -⟩ := hr.mem_between.1 ((List.takeWhile_sublist _).subset he)
          exact .inr (by omega)

end Batches

/-! ## The log behind what is applied -/

/-- What is committed counts as applied, and the log behind that is as it was. -/
structure Settles (r r' : Replica) : Prop where
  regular : r'.Regular
  applied : r'.lastApplied = r.commitIndex
  committed : r'.commitIndex = r.commitIndex
  last : r'.lastIndex = r.lastIndex
  behind : ∀ n, r'.lastApplied < n → r'.entryAt? n = r.entryAt? n

theorem Regular.settles_takeCommitted (h : r.Regular) : r.Settles r.takeCommitted.1 where
  regular := h.takeCommitted
  applied := Nat.max_eq_right h.committed
  committed := rfl
  last := rfl
  behind _ _ := rfl

/-- A compaction takes nothing from behind what is applied. -/
theorem Settles.compact (h : r.Settles r') {through : Nat} {r'' : Replica} {removed : List Entry}
    (run : r'.compact through = .ok (r'', removed)) : r.Settles r'' := by
  have hregular := h.regular.compact run
  obtain ⟨-, rfl⟩ | ⟨-, n, -, hlen, hn, rfl⟩ := h.regular.sourced.compact_cases run
  · exact h
  · refine ⟨hregular, h.applied, h.committed, ?_, fun i hi => ?_⟩
    · rw [← h.last, hregular.sourced.lastIndex_eq, h.regular.sourced.lastIndex_eq]
      simp only [List.length_drop]
      omega
    · exact (entryAt?_drop rfl rfl (Nat.lt_of_le_of_lt hn hi)).trans (h.behind i hi)

end Replica

/-! ## Applying -/

namespace Member

section Taken

variable {δ : Type}

/-- The entries of a stretch that the machine takes, one after another. -/
def taken (m : Member δ) : List Entry → List Entry
  | [] => []
  | e :: es =>
    match m.applyEntry e with
    | (m, none) => e :: m.taken es
    | (_, some _) => []

variable [Disk δ]

/-- The entries that the machine takes when the member applies what is committed. -/
def executed (m : Member δ) : List Entry :=
  match m.write (.commit m.replica.commitIndex) with
  | (_, some _) => []
  | (m, none) => taken { m with replica := m.replica.takeCommitted.1 } m.replica.takeCommitted.2

end Taken

variable {m₀ m m' : Member MemoryDisk} {now : Instant} {failure : Option ServiceError}
variable {e : Entry} {es : List Entry} {ends : List (Option ServiceError)}

/-- The call failed on an entry, not on a write. -/
def FailedOnEntry (failure : Option ServiceError) : Prop := ∃ err, failure = some (.consensus err)

/-- The machine takes entries as long as they can be executed. -/
theorem taken_eq (m : Member MemoryDisk) (es : List Entry) :
    m.taken es = es.takeWhile fun e => e.command.Valued := by
  induction es generalizing m with
  | nil => rfl
  | cons e es ih =>
    have hvalued := applyEntry_eq_none m e
    obtain ⟨m₁, err, happ⟩ : ∃ m₁ err, m.applyEntry e = (m₁, err) := ⟨_, _, rfl⟩
    rw [happ] at hvalued
    rw [taken, happ]
    cases err with
    | none =>
      have hgood : e.command.Valued := hvalued.1 rfl
      rw [List.takeWhile_cons_of_pos (by simpa using hgood), ← ih m₁]
    | some err =>
      have hbad : ¬ e.command.Valued := fun hv => Option.some_ne_none _ (hvalued.2 hv)
      rw [List.takeWhile_cons_of_neg (by simpa using hbad)]

/-- An entry that the machine does not take leaves it as it was. -/
theorem machine_applyEntry (m : Member MemoryDisk) (e : Entry) :
    (m.applyEntry e).1.machine =
      if (m.applyEntry e).2 = none then Image.replay m.machine e else m.machine := by
  cases happ : m.machine.apply e with
  | ok result =>
    obtain ⟨answer, machine⟩ := result
    obtain ⟨-, rfl⟩ := Machine.apply_ok happ
    simp only [applyEntry, happ, if_true]
    split <;> rfl
  | error err =>
    simp only [applyEntry, happ, reduceCtorEq, if_false]
    split <;> rfl

/-- The machine becomes what the entries that it takes make of it. -/
theorem machine_applyAll (m : Member MemoryDisk) (es : List Entry) :
    (m.applyAll es).1.machine = (m.taken es).foldl Image.replay m.machine := by
  induction es generalizing m with
  | nil => rfl
  | cons e es ih =>
    have hmachine := machine_applyEntry m e
    obtain ⟨m₁, err, happ⟩ : ∃ m₁ err, m.applyEntry e = (m₁, err) := ⟨_, _, rfl⟩
    rw [happ] at hmachine
    rw [applyAll, taken, happ]
    cases err with
    | none =>
      rw [if_pos rfl] at hmachine
      rw [List.foldl_cons, ← hmachine]
      exact ih m₁
    | some err => exact hmachine

/-- A compaction moves the base, and leaves the machine alone. -/
theorem takeImage_compacts (run : m.takeImage now = .ok (m', failure)) :
    (∃ removed, m.replica.compact m.replica.lastApplied = .ok (m'.replica, removed)) ∧
      m'.machine = m.machine := by
  unfold takeImage at run
  obtain ⟨⟨r, removed⟩, hr, run⟩ := bind_eq_ok.1 run
  simp only at run
  split at run
  · cases run
    exact ⟨⟨removed, hr⟩, rfl⟩
  · split at run
    · next m₁ err hw =>
      cases run
      obtain ⟨rfl, -⟩ := Prod.mk.inj hw
      exact ⟨⟨removed, hr⟩, rfl⟩
    · next m₁ hw =>
      obtain ⟨rfl, -⟩ := Prod.mk.inj hw
      split at run
      · next m₂ err hw' =>
        cases run
        obtain ⟨rfl, -⟩ := Prod.mk.inj hw'
        exact ⟨⟨removed, hr⟩, rfl⟩
      · next m₂ hw' =>
        cases run
        obtain ⟨rfl, -⟩ := Prod.mk.inj hw'
        exact ⟨⟨removed, hr⟩, rfl⟩

/-- A compaction comes back. -/
theorem exists_takeImage (h : m.replica.Regular) (now : Instant) :
    ∃ m' failure, m.takeImage now = .ok (m', failure) := by
  cases hr : m.replica.compact m.replica.lastApplied with
  | error f => exact absurd hr (h.compact_goes _)
  | ok result =>
    unfold takeImage
    rw [hr]
    simp only [bind, Except.bind]
    split
    · exact ⟨_, _, rfl⟩
    · split
      · exact ⟨_, _, rfl⟩
      · split <;> exact ⟨_, _, rfl⟩

/-- When the commit index is written, a batch counts as applied, and is executed up to the first
entry that cannot be. -/
theorem executed_of_write (h : m.replica.Regular) {m₁ : Member MemoryDisk}
    (hw : m.write (.commit m.replica.commitIndex) = (m₁, none)) : ∃ m₂ err,
    applyAll { m₁ with replica := m₁.replica.takeCommitted.1 } m₁.replica.takeCommitted.2 =
      (m₂, err) ∧
    m.executed = m.replica.batch m.replica.lastApplied m.replica.commitIndex ∧
    m₂.machine = m.executed.foldl Image.replay m.machine ∧ m.replica.Settles m₂.replica ∧
    (err = none →
      m.executed = m.replica.between m.replica.lastApplied m.replica.commitIndex) := by
  have hexecuted : m.executed = m.replica.batch m.replica.lastApplied m.replica.commitIndex := by
    rw [executed, hw]
    obtain rfl := write_ok hw
    exact taken_eq _ _
  obtain rfl := write_ok hw
  obtain ⟨m₂, err, happ, hcore, -, hiff, -⟩ := applyAll_cases { m with
      replica := m.replica.takeCommitted.1
      disk := { m.disk with
        tried := m.disk.tried + 1
        contents := m.disk.contents.after (.commit m.replica.commitIndex) } }
    m.replica.takeCommitted.2
  have hmachine := congrArg (fun p => p.1.machine) happ
  rw [machine_applyAll, taken_eq] at hmachine
  have hr : m₂.replica = m.replica.takeCommitted.1 := (core_eq_iff.1 hcore).1
  rw [hexecuted]
  refine ⟨m₂, err, happ, rfl, hmachine.symm, hr ▸ h.settles_takeCommitted, fun hnone => ?_⟩
  exact List.takeWhile_eq_self_iff.2 fun e he => decide_eq_true (hiff.1 hnone e he)

/-- What a call to apply does. It fails at once if the commit index cannot be written. Else a whole
batch counts as applied, its entries are executed up to the first that cannot be, and if there is
one, the call fails on it. -/
theorem applyCommitted_cases (h : m.replica.Regular)
    (run : m.applyCommitted now = .ok (m', failure)) :
    (m.executed = [] ∧ m'.machine = m.machine ∧ m'.replica = m.replica) ∨
      (m.executed = m.replica.batch m.replica.lastApplied m.replica.commitIndex ∧
        m'.machine = m.executed.foldl Image.replay m.machine ∧ m.replica.Settles m'.replica ∧
        (¬ FailedOnEntry failure →
          m.executed = m.replica.between m.replica.lastApplied m.replica.commitIndex)) := by
  unfold applyCommitted at run
  split at run
  · next m₁ err hw =>
    cases run
    have hexecuted : m.executed = [] := by rw [executed, hw]
    obtain ⟨rfl, -⟩ := Prod.mk.inj hw
    exact .inl ⟨hexecuted, rfl, rfl⟩
  · next m₁ hw =>
    obtain ⟨m₂, err, happ, hexecuted, hmachine, hsettles, hwhole⟩ := executed_of_write h hw
    refine .inr ⟨hexecuted, ?_⟩
    simp only at run
    split at run
    · next hempty =>
      rw [List.isEmpty_iff.1 hempty] at happ
      cases happ
      cases run
      exact ⟨hmachine, hsettles, fun _ => hwhole rfl⟩
    · rw [happ] at run
      cases err with
      | some err =>
        cases run
        exact ⟨hmachine, hsettles, fun hnot => absurd ⟨err, rfl⟩ hnot⟩
      | none =>
        simp only at run
        split at run
        · obtain ⟨⟨removed, hcompact⟩, hsame⟩ := takeImage_compacts run
          exact ⟨hsame.trans hmachine, hsettles.compact hcompact, fun _ => hwhole rfl⟩
        · cases run
          exact ⟨hmachine, hsettles, fun _ => hwhole rfl⟩

/-- A call to apply comes back. -/
theorem exists_applyCommitted (h : m.replica.Regular) (now : Instant) :
    ∃ m' failure, m.applyCommitted now = .ok (m', failure) := by
  unfold applyCommitted
  split
  · exact ⟨_, _, rfl⟩
  · next m₁ hw =>
    obtain ⟨m₂, err, happ, -, -, hsettles, -⟩ := executed_of_write h hw
    simp only
    split
    · exact ⟨_, _, rfl⟩
    · rw [happ]
      cases err with
      | some err => exact ⟨_, _, rfl⟩
      | none =>
        simp only
        split
        · exact exists_takeImage hsettles.regular now
        · exact ⟨_, _, rfl⟩

/-! ## Runs -/

/-- A member whose commit index moves up inside its log, and which applies what is committed, in any
order and on a disk that fails as it likes: the entries that its machine has taken, and how the
calls have ended. -/
inductive Applying (m₀ : Member MemoryDisk) :
    Member MemoryDisk → List Entry → List (Option ServiceError) → Prop
  | start : Applying m₀ m₀ [] []
  | commits {m : Member MemoryDisk} {es : List Entry} {ends : List (Option ServiceError)}
      (n : Nat) : Applying m₀ m es ends → m.replica.commitIndex ≤ n → n ≤ m.replica.lastIndex →
      Applying m₀ { m with replica := { m.replica with commitIndex := n } } es ends
  | applies {m m' : Member MemoryDisk} {es : List Entry} {ends : List (Option ServiceError)}
      {now : Instant} {failure : Option ServiceError} : Applying m₀ m es ends →
      m.applyCommitted now = .ok (m', failure) →
      Applying m₀ m' (es ++ m.executed) (ends ++ [failure])

/-- How far a run has come. -/
structure Progress (m₀ m : Member MemoryDisk) (es : List Entry)
    (ends : List (Option ServiceError)) : Prop where
  regular : m.replica.Regular
  bounded : m.replica.commitIndex ≤ m.replica.lastIndex
  last : m.replica.lastIndex = m₀.replica.lastIndex
  behind : ∀ n, m.replica.lastApplied < n → m.replica.entryAt? n = m₀.replica.entryAt? n
  batches : m₀.replica.Batches m₀.replica.lastApplied es m.replica.lastApplied
  machine : m.machine = es.foldl Image.replay m₀.machine
  whole : (∀ failure ∈ ends, ¬ FailedOnEntry failure) →
    es = m₀.replica.between m₀.replica.lastApplied m.replica.lastApplied

theorem Progress.applies (h : Progress m₀ m es ends)
    (run : m.applyCommitted now = .ok (m', failure)) :
    Progress m₀ m' (es ++ m.executed) (ends ++ [failure]) := by
  rcases applyCommitted_cases h.regular run with
    ⟨hnone, hmachine, hreplica⟩ | ⟨hbatch, hmachine, hs, hwhole⟩
  · rw [hnone, List.append_nil]
    refine ⟨?_, ?_, ?_, ?_, ?_, hmachine.trans h.machine, fun hends => ?_⟩
    all_goals rw [hreplica]
    · exact h.regular
    · exact h.bounded
    · exact h.last
    · exact h.behind
    · exact h.batches
    · exact h.whole fun failure hf => hends failure (List.mem_append_left _ hf)
  · have hstretch : ∀ j, m.replica.between m.replica.lastApplied j =
        m₀.replica.between m.replica.lastApplied j := fun j => Replica.between_congr h.behind
    have hcommitted := h.regular.committed
    refine ⟨hs.regular, ?_, hs.last.trans h.last, fun n hn => ?_, ?_, ?_, fun hends => ?_⟩
    · rw [hs.committed, hs.last]
      exact h.bounded
    · have happlied := hs.applied
      rw [hs.behind n hn]
      exact h.behind n (by omega)
    · rw [hs.applied, hbatch, Replica.batch, hstretch]
      exact h.batches.more hcommitted
    · rw [hmachine, h.machine, List.foldl_append]
    · rw [hs.applied, hwhole (hends failure (by simp)), hstretch,
        h.whole fun failure hf => hends failure (List.mem_append_left _ hf)]
      exact m₀.replica.between_append h.batches.le hcommitted

theorem Applying.progress (h : Applying m₀ m es ends)
    (hr : m₀.replica.Regular) (hc : m₀.replica.commitIndex ≤ m₀.replica.lastIndex) :
    Progress m₀ m es ends := by
  induction h with
  | start =>
    have hnothing := m₀.replica.between_self m₀.replica.lastApplied
    exact ⟨hr, hc, rfl, fun _ _ => rfl, .none, rfl, fun _ => hnothing.symm⟩
  | commits n _ hle hlast ih =>
    refine ⟨⟨ih.regular.sourced.congr rfl rfl, ih.regular.applied, ?_⟩, hlast, ih.last, ih.behind,
      ih.batches, ih.machine, ih.whole⟩
    exact Nat.le_trans ih.regular.committed hle
  | applies _ run ih => exact ih.applies run

/-- **What a member has applied.** Let the commit index move and calls be made in any order, also
calls that fail. What the machine has executed are entries of the log, in order, behind what was
applied before and up to what counts as applied now. One is missing only where a call has failed on
an entry at or before it, so that if no call has, whatever writes failed, there is one at every
position. And the next call always comes back. -/
theorem applied_in_batches (run : Applying m₀ m es ends)
    (hr : m₀.replica.Regular) (hc : m₀.replica.commitIndex ≤ m₀.replica.lastIndex) :
    m.machine = es.foldl Image.replay m₀.machine ∧
      es.Sublist (m₀.replica.between m₀.replica.lastApplied m.replica.lastApplied) ∧
      (∀ n, m₀.replica.lastApplied < n → n ≤ m.replica.lastApplied →
        (∃ e ∈ es, e.index = n) ∨ m₀.replica.PassedOver m₀.replica.lastApplied es n) ∧
      ((∀ failure ∈ ends, ¬ FailedOnEntry failure) → es.map (·.index) =
        List.range' (m₀.replica.lastApplied + 1)
          (m.replica.lastApplied - m₀.replica.lastApplied)) ∧
      ∀ now, ∃ m' failure, m.applyCommitted now = .ok (m', failure) := by
  have h := run.progress hr hc
  have hnumbered := hr.sourced.numbered
  have hlast : m.replica.lastApplied ≤ m₀.replica.lastIndex :=
    Nat.le_trans h.regular.committed (Nat.le_trans h.bounded (Nat.le_of_eq h.last))
  refine ⟨h.machine, h.batches.sublist,
    fun n hn hle => h.batches.cases_at hnumbered hr.applied hlast hn hle, fun hends => ?_,
    exists_applyCommitted h.regular⟩
  rw [h.whole hends, hnumbered.index_between hr.applied hlast]

/-! ## A batch that is broken off

A follower of three whose log has a put without a value in the second place. The first write to its
disk fails. -/

namespace Stumbling

def first : Entry := ⟨1, 1, .put "a" "1"⟩

def corrupt : Entry := ⟨1, 2, ⟨.put, "b", none⟩⟩

def third : Entry := ⟨1, 3, .put "c" "3"⟩

def last : Entry := ⟨1, 4, .put "d" "4"⟩

/-- The follower when one entry is committed and none is applied. -/
def member : Member MemoryDisk :=
  { blank ⟨2, [1, 3], {}⟩ { fails := fun n _ => n == 0 } with
    replica := { Replica.create 2 [1, 3, 2] {} with
      term := 1
      log := [first, corrupt, third, last]
      commitIndex := 1 } }

/-- The follower when so much is committed and applied, after so many writes. -/
def reaching (commit applied tried : Nat) (contents : DiskContents) (machine : Machine) :
    Member MemoryDisk :=
  { member with
    replica := { member.replica with commitIndex := commit, lastApplied := applied }
    disk := { member.disk with tried := tried, contents := contents }
    machine := machine }

/-- It has executed the first entry. -/
def begun (commit : Nat) : Member MemoryDisk :=
  reaching commit 1 2 { commit := 1 } (.ofList [("a", "1")])

/-- It has come upon the second. -/
def brokenOff (commit : Nat) : Member MemoryDisk :=
  reaching commit 3 3 { commit := 3 } (.ofList [("a", "1")])

/-- It has executed the last. -/
def resumed : Member MemoryDisk :=
  reaching 4 4 4 { commit := 4 } (.ofList [("a", "1"), ("d", "4")])

def refusal : ServiceError := .storage .diskFull

def cause : ServiceError := .consensus (.corruptEntry 2 "PUT b carries no value")

theorem regular : member.replica.Regular := by
  have hlined : Lined 0 member.replica.log := by
    rintro (_ | _ | _ | _ | k) e he <;> cases he <;> rfl
  exact ⟨⟨hlined, fun e he => hlined.placeable (by decide) he⟩, by decide, by decide⟩

theorem applying_begun : Applying member (begun 1) [first] [some refusal, none] := by
  have hrefused : member.applyCommitted (.ofMillis 0) =
      .ok (reaching 1 0 1 {} .empty, some refusal) := rfl
  have hrun : (reaching 1 0 1 {} .empty).applyCommitted (.ofMillis 0) = .ok (begun 1, none) := rfl
  exact .applies (.applies .start hrefused) hrun

theorem applying_brokenOff :
    Applying member (brokenOff 3) [first] [some refusal, none, some cause] := by
  have hrun : (begun 3).applyCommitted (.ofMillis 0) = .ok (brokenOff 3, some cause) := rfl
  exact .applies (.commits 3 applying_begun (by decide) (by decide)) hrun

theorem applying_resumed :
    Applying member resumed [first, last] [some refusal, none, some cause, none] := by
  have hrun : (brokenOff 4).applyCommitted (.ofMillis 0) = .ok (resumed, none) := rfl
  exact .applies (.commits 4 applying_brokenOff (by decide) (by decide)) hrun

end Stumbling

/-- The follower of `Stumbling`: in order, until a call has failed on an entry. The third entry was
passed over because of the second. -/
theorem applied_in_batches_stumbling :
    Stumbling.member.replica.Regular ∧
      Stumbling.member.replica.commitIndex ≤ Stumbling.member.replica.lastIndex ∧
      Applying Stumbling.member (Stumbling.begun 1) [Stumbling.first]
        [some Stumbling.refusal, none] ∧
      [Stumbling.first].map (·.index) = List.range' 1 1 ∧
      Applying Stumbling.member Stumbling.resumed [Stumbling.first, Stumbling.last]
        [some Stumbling.refusal, none, some Stumbling.cause, none] ∧
      Stumbling.member.replica.PassedOver 0 [Stumbling.first, Stumbling.last] 3 := by
  have hbounded : Stumbling.member.replica.commitIndex ≤ Stumbling.member.replica.lastIndex := by
    decide
  obtain ⟨-, -, -, hwhole, -⟩ :=
    applied_in_batches Stumbling.applying_begun Stumbling.regular hbounded
  obtain ⟨-, -, hcases, -⟩ :=
    applied_in_batches Stumbling.applying_resumed Stumbling.regular hbounded
  refine ⟨Stumbling.regular, hbounded, Stumbling.applying_begun, hwhole ?_,
    Stumbling.applying_resumed, (hcases 3 (by decide) (by decide)).resolve_left (by decide)⟩
  simp [FailedOnEntry, Stumbling.refusal]

/-- **A corrupt entry has others skipped.** The follower of `Stumbling` comes upon an entry that
cannot be executed, and counts the whole batch as applied, although it has executed only the first
entry. When the next entry is committed, that one is executed, and the third never is. -/
theorem corrupt_entry_skips : ∃ m m', Stumbling.member.replica.Regular ∧
    Stumbling.member.replica.commitIndex ≤ Stumbling.member.replica.lastIndex ∧
    Stumbling.member.replica.lastApplied = 0 ∧
    Applying Stumbling.member m [Stumbling.first]
      [some Stumbling.refusal, none, some Stumbling.cause] ∧
    Stumbling.first.index = 1 ∧ m.replica.lastApplied = 3 ∧
    Applying Stumbling.member m' [Stumbling.first, Stumbling.last]
      [some Stumbling.refusal, none, some Stumbling.cause, none] ∧
    [Stumbling.first, Stumbling.last].map (·.index) = [1, 4] ∧ m'.replica.lastApplied = 4 ∧
    Stumbling.third.command.Valued ∧ m'.machine.get? "c" = none :=
  ⟨_, _, Stumbling.regular, by decide, rfl, Stumbling.applying_brokenOff, rfl, rfl,
    Stumbling.applying_resumed, rfl, rfl, by decide, rfl⟩

end Member

end ReplicatedStore
