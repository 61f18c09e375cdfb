import ReplicatedStore.Proofs.TornWrites
/-!
# Files answer as memory does

A disk in a directory keeps its metadata in one record behind a remembered copy, skips a commit
index that it has already, keeps its log as text, and is opened again at any time. None of that
shows. `FileDisk.Says f c` says that the files of a disk stand for given contents; every write keeps
it (`Says.write`), and opening the directory again gives back the very same disk (`Says.reopen`).

So whatever is written, and however often the directory is opened in between, each read answers as
it does on a disk in memory that takes the same writes (`files_answer_as_memory`).
-/
namespace ReplicatedStore

/-- What is done with a disk. -/
inductive DiskUse where
  | write (w : DiskWrite)
  /-- The directory is opened again. -/
  | reopen

namespace DiskUse

/-- The words, entries and times that are written are of the ranges that are written. -/
def Fits : DiskUse → Prop
  | write w => w.Fits
  | reopen => True

/-- The image that is written, if one is. -/
def image? : DiskUse → Option Image
  | write (.image i) => some i
  | _ => none

/-- Use a disk in a directory. -/
def onFiles (f : FileDisk) : DiskUse → Except IoError FileDisk
  | write w =>
    match f.write w with
    | (f, none) => .ok f
    | (_, some e) => .error e
  | reopen => FileDisk.ofDirectory f.directory

/-- Use a disk in memory, which is not opened again. -/
def inMemory (d : MemoryDisk) : DiskUse → MemoryDisk
  | write w => (d.write w).1
  | reopen => d

end DiskUse

/-- Two disks answer every read alike. -/
structure Disk.Alike {δ ε : Type} [Disk δ] [Disk ε] (d : δ) (e : ε) : Prop where
  ballot : Disk.readBallot d = Disk.readBallot e
  log : Disk.readLog d = Disk.readLog e
  commit : Disk.readCommit d = Disk.readCommit e
  image : Disk.readImage d = Disk.readImage e

/-! ## What the files stand for -/

/-- The files that stand for contents. -/
def FileDisk.Kept.ofContents (c : DiskContents) : FileDisk.Kept :=
  ⟨⟨c.ballot, c.commit⟩, c.image, LogFile.write c.log⟩

theorem FileDisk.Kept.after_ofContents (c : DiskContents) (w : DiskWrite) :
    (Kept.ofContents c).after w = Kept.ofContents (c.after w) := by
  cases w with
  | append es => simp [Kept.ofContents, Kept.after, metadataAfter, DiskContents.after,
      LogFile.write_append]
  | _ => rfl

namespace FileDisk

/-- The files of a disk, and the metadata that it remembers, stand for contents. -/
structure Says (f : FileDisk) (c : DiskContents) : Prop where
  holds : Holds f.directory (.ofContents c)
  metadata : f.metadata = ⟨c.ballot, c.commit⟩
  entries : ∀ e ∈ c.log, e.Fits

theorem says_empty : Says ⟨.empty, {}⟩ {} := ⟨holds_empty, rfl, by simp⟩

namespace Says

variable {f : FileDisk} {c : DiskContents} (h : f.Says c)
include h

theorem eq : f = ⟨f.directory, (Kept.ofContents c).metadata⟩ := by
  rw [show (Kept.ofContents c).metadata = f.metadata from h.metadata.symm]

/-- **Every write is taken**, and means what it means in memory. -/
theorem write {w : DiskWrite} (hw : w.Fits) :
    ∃ f', f.write w = (f', none) ∧ f'.Says (c.after w) := by
  obtain ⟨d', hwrite, hd'⟩ := h.holds.write hw
  rw [← h.eq] at hwrite
  rw [Kept.after_ofContents] at hwrite hd'
  refine ⟨_, hwrite, hd', rfl, ?_⟩
  cases w with
  | append es => exact fun e he => (List.mem_append.1 he).elim (h.entries e) (hw e)
  | replace es => exact hw
  | clear => simp [DiskContents.after]
  | ballot _ | commit _ | image _ => exact h.entries

/-- **Opening the directory again gives back the same disk.** -/
theorem reopen : ofDirectory f.directory = .ok f := by
  rw [h.holds.ofDirectory_eq, ← h.eq]

/-- The reads of a disk in memory with these contents. -/
theorem alike {d : MemoryDisk} (hd : d.contents = c) (hu : d.unreadable = false) :
    Disk.Alike f d := by
  subst hd
  rw [h.eq]
  refine ⟨?_, ?_, h.holds.readCommit_eq _, h.holds.readImage_eq _⟩
  · rw [h.holds.readBallot_eq]
    simp [Disk.readBallot, hu, Kept.ofContents]
  · rw [h.holds.readLog_eq]
    simp [Kept.ofContents, LogFile.read?_write h.entries, Disk.readLog]

/-- One use of the disk. -/
theorem use {u : DiskUse} (hu : u.Fits) {d : MemoryDisk} (hd : d.contents = c)
    (hfails : ∀ n w, d.fails n w = false) :
    ∃ f', u.onFiles f = .ok f' ∧ f'.Says (u.inMemory d).contents := by
  subst hd
  cases u with
  | write w =>
    obtain ⟨f', hwrite, hf'⟩ := h.write hu
    refine ⟨f', by simp only [DiskUse.onFiles, hwrite], ?_⟩
    simpa [DiskUse.inMemory, MemoryDisk.write, hfails] using hf'
  | reopen => exact ⟨f, h.reopen, h⟩

end Says

end FileDisk

/-! ## Runs -/

namespace MemoryDisk

/-- A disk in memory that takes every write and can be read. -/
structure Sound (d : MemoryDisk) : Prop where
  writes : ∀ n w, d.fails n w = false
  reads : d.unreadable = false

theorem Sound.use {d : MemoryDisk} (h : d.Sound) (u : DiskUse) : (u.inMemory d).Sound := by
  cases u with
  | write w =>
    simp only [DiskUse.inMemory, MemoryDisk.write, h.writes, Bool.false_eq_true, if_false]
    exact ⟨h.writes, h.reads⟩
  | reopen => exact h

/-- The image is the last one that was written. -/
theorem Sound.image_uses {d : MemoryDisk} (h : d.Sound) (us : List DiskUse) :
    (us.foldl DiskUse.inMemory d).contents.image =
      ((us.filterMap DiskUse.image?).getLast?.or d.contents.image) := by
  induction us generalizing d with
  | nil => rfl
  | cons u us ih =>
    rw [List.foldl_cons, ih (h.use u)]
    cases u with
    | reopen => rfl
    | write w =>
      simp only [DiskUse.inMemory, MemoryDisk.write, h.writes, Bool.false_eq_true, if_false]
      cases w with
      | image i => cases hl : (us.filterMap DiskUse.image?).getLast? <;>
          simp [DiskUse.image?, DiskContents.after, List.getLast?_cons, hl]
      | _ => rfl

end MemoryDisk

theorem FileDisk.Says.uses {f : FileDisk} {d : MemoryDisk} (h : f.Says d.contents) (hd : d.Sound)
    {us : List DiskUse} (hus : ∀ u ∈ us, u.Fits) :
    ∃ f', us.foldlM DiskUse.onFiles f = .ok f' ∧ f'.Says (us.foldl DiskUse.inMemory d).contents ∧
      (us.foldl DiskUse.inMemory d).Sound := by
  induction us generalizing f d with
  | nil => exact ⟨f, rfl, h, hd⟩
  | cons u us ih =>
    obtain ⟨f₁, hu, hf₁⟩ := h.use (hus u (by simp)) rfl hd.writes
    obtain ⟨f', hrun, hf'⟩ := ih hf₁ (hd.use u) fun u' hu' => hus u' (by simp [hu'])
    refine ⟨f', ?_, hf'⟩
    rw [List.foldlM_cons, hu]
    exact hrun

/-- **A disk in files answers as a disk in memory.** It starts in an empty directory; every write
is taken and every reopening succeeds, and afterwards each read answers as it does in memory after
the same writes. The image that is read is the last one that was written. -/
theorem files_answer_as_memory {us : List DiskUse} (h : ∀ u ∈ us, u.Fits) :
    ∃ f, us.foldlM DiskUse.onFiles ⟨.empty, {}⟩ = .ok f ∧
      Disk.Alike f (us.foldl DiskUse.inMemory {}) ∧
      Disk.readImage f = .ok (us.filterMap DiskUse.image?).getLast? := by
  have hsound : MemoryDisk.Sound {} := ⟨fun _ _ => rfl, rfl⟩
  obtain ⟨f, hrun, hf, hd⟩ := FileDisk.says_empty.uses (d := {}) hsound h
  have halike := hf.alike rfl hd.reads
  refine ⟨f, hrun, halike, ?_⟩
  rw [halike.image]
  simp [Disk.readImage, hsound.image_uses us]

/-! ### Texts that need escapes, and the last instant of a year with four digits -/

/-- What is written covers every instant of the years 0 to 9999. -/
theorem Instant.fits_of_years {t : Instant}
    (first : (⟨0, 1, 1⟩ : Calendar.Date).number * 86400 ≤ t.second)
    (last : t.second < (⟨10000, 1, 1⟩ : Calendar.Date).number * 86400)
    (nano : t.nano < 1000000000) : t.Fits := by
  have hfirst : (⟨0, 1, 1⟩ : Calendar.Date).number = -719528 := by decide
  have hlast : (⟨10000, 1, 1⟩ : Calendar.Date).number = 2932897 := by decide
  have hmin : (⟨Calendar.minYear, 1, 1⟩ : Calendar.Date).number = -96465292 := by decide
  have hmax : (⟨Calendar.maxYear + 1, 1, 1⟩ : Calendar.Date).number = 95026237 := by decide
  refine ⟨?_, .inl nano⟩
  rw [Instant.inRange, hmin, hmax, Bool.and_eq_true, decide_eq_true_eq, decide_eq_true_eq]
  omega

namespace Scribbled

def entry : Entry := ⟨maxWord, 1, .put "a\n\x22\\" "\x00é😀"⟩

def image : Image := ⟨[entry], maxWord, 0, ⟨253402300799, 999999999⟩⟩

def uses : List DiskUse :=
  [.write (.ballot ⟨maxWord, some 2⟩), .write (.append [entry]), .write (.commit 1), .reopen,
    .write (.image image), .write (.commit 1), .write .clear, .reopen,
    .write (.append [entry, entry]), .write (.commit 0), .reopen]

theorem fits : ∀ u ∈ uses, u.Fits := by
  have hentry : entry.Fits := ⟨Nat.le_refl _, by decide⟩
  have himage : image.Fits := by
    refine ⟨fun e he => ?_, Nat.le_refl _, by decide, Instant.fits_of_years ?_ ?_ ?_⟩
    · rw [List.mem_singleton.1 he]
      exact hentry
    all_goals decide
  simp only [uses, List.mem_cons, List.not_mem_nil, or_false, forall_eq_or_imp, forall_eq,
    DiskUse.Fits, DiskWrite.Fits, and_true, true_and]
  exact ⟨⟨Nat.le_refl _, by simp [maxWord]⟩, hentry, by decide, himage, by decide,
    ⟨hentry, hentry⟩, by decide⟩

end Scribbled

theorem files_answer_as_memory_scribbled : (∀ u ∈ Scribbled.uses, u.Fits) ∧
    ∃ f, Scribbled.uses.foldlM DiskUse.onFiles ⟨.empty, {}⟩ = .ok f ∧
      Disk.readBallot f = .ok ⟨0, none⟩ ∧ Disk.readCommit f = .ok 0 ∧
      Disk.readLog f = .ok [Scribbled.entry, Scribbled.entry] ∧
      Disk.readImage f = .ok (some Scribbled.image) := by
  obtain ⟨f, hrun, halike, himage⟩ := files_answer_as_memory Scribbled.fits
  exact ⟨Scribbled.fits, f, hrun, halike.ballot, halike.commit, halike.log, himage⟩

end ReplicatedStore
