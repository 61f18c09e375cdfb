import ReplicatedStore.Proofs.LogFiles
import ReplicatedStore.Storage.FileDisk
/-!
# Writes that are cut short

A crash can end a write at any byte of any of its steps; a renaming and a removal take effect or do
not (`Directory.Cut`). What the files of a directory say is a `FileDisk.Kept`, and a write that is
cut short leaves one of few of them (`FileDisk.Kept.Partly`): a file that is replaced is the old one
or the new one, a log that is appended to has a part of the new lines.

`crash_consistency` says what is read after the crash, and `torn_line_unreadable` is a crash after
which the log is not read.
-/
namespace ReplicatedStore

/-! ## Cuts -/

/-- A step of which at most `k` bytes reach the disk. -/
def FileStep.upTo (k : Nat) : FileStep → FileStep
  | .create name content => .create name (content.take k)
  | .append name content => .append name (content.take k)
  | s => s

namespace Directory

/-- What steps leave of a directory when they are cut short. -/
inductive Cut : Directory → List FileStep → Directory → Prop where
  /-- Between two steps. -/
  | between (d : Directory) (ss : List FileStep) : Cut d ss d
  /-- In the middle of a step. -/
  | inside {d d' : Directory} {s : FileStep} (ss : List FileStep) (k : Nat) :
    d.step (s.upTo k) = .ok d' → Cut d (s :: ss) d'
  /-- Later. -/
  | later {d d' d'' : Directory} {s : FileStep} {ss : List FileStep} :
    d.step s = .ok d' → Cut d' ss d'' → Cut d (s :: ss) d''

/-- A directory that holds nothing but files. -/
def Flat (d : Directory) : Prop := ∀ name, d.get? name ≠ some .folder

/-- Two directories differ at most in the given names. -/
def AgreesBut (names : List String) (d d' : Directory) : Prop :=
  ∀ name, name ∉ names → d'.get? name = d.get? name

section Flat

variable {d d' : Directory} {name temporary : String} {content : Bytes}

theorem Flat.insert (h : d.Flat) (name : String) (content : Bytes) :
    Flat (d.insert name (.file content)) := by
  intro name'
  by_cases he : name' = name
  · subst he
    rw [Table.get?_insert_self]
    rintro ⟨⟩
  · rw [Table.get?_insert_of_ne _ _ he]
    exact h name'

theorem Flat.erase (h : d.Flat) (name : String) : Flat (d.erase name) := by
  intro name'
  by_cases he : name' = name
  · subst he
    rw [Table.get?_erase_self]
    rintro ⟨⟩
  · rw [Table.get?_erase_of_ne _ he]
    exact h name'

theorem Flat.step_create (h : d.Flat) (name : String) (content : Bytes) :
    d.step (.create name content) = .ok (d.insert name (.file content)) := by
  rw [step]
  split
  · rename_i hf
    exact absurd hf (h name)
  · rfl

theorem Flat.step_remove (h : d.Flat) (name : String) :
    d.step (.remove name) = .ok (d.erase name) := by
  rw [step]
  split
  · rename_i hf
    exact absurd hf (h name)
  · rfl

/-- The content of a file, nothing if it is not there. -/
def text (d : Directory) (name : String) : Bytes :=
  match d.get? name with
  | some (.file content) => content
  | _ => []

theorem Flat.step_append (h : d.Flat) (name : String) (content : Bytes) :
    d.step (.append name content) = .ok (d.insert name (.file (d.text name ++ content))) := by
  rw [step, text]
  split
  · rename_i hf
    exact absurd hf (h name)
  · rename_i old hf
    rw [hf]
  · rename_i hf
    rw [hf]
    rfl

theorem Flat.step_rename (h : d.Flat) (hf : d.get? temporary = some (.file content))
    (name : String) :
    d.step (.rename temporary name) = .ok ((d.erase temporary).insert name (.file content)) := by
  rw [step, hf]
  cases hn : d.get? name with
  | none => rfl
  | some item =>
    cases item with
    | file _ => rfl
    | folder => exact absurd hn (h name)

/-- A file that is being replaced is the old one or the new one. -/
theorem Flat.cut_replace (h : d.Flat) (hne : name ≠ temporary)
    (hcut : Cut d (replaceSteps name temporary content) d') :
    d'.Flat ∧ d.AgreesBut [name, temporary] d' ∧
      (d'.get? name = d.get? name ∨ d'.get? name = some (.file content)) := by
  have hcreated : ∀ content', Flat (d.insert temporary (.file content')) ∧
      d.AgreesBut [name, temporary] (d.insert temporary (.file content')) ∧
      (d.insert temporary (.file content')).get? name = d.get? name := fun content' =>
    ⟨h.insert temporary content',
      fun n hn => Table.get?_insert_of_ne _ _ (by simp at hn; exact hn.2),
      Table.get?_insert_of_ne _ _ hne⟩
  have hrenamed : ∀ {d₁ : Directory},
      step (d.insert temporary (.file content)) (.rename temporary name) = .ok d₁ → d₁.Flat ∧
        d.AgreesBut [name, temporary] d₁ ∧ d₁.get? name = some (.file content) := by
    intro d₁ hstep
    rw [(hcreated content).1.step_rename (Table.get?_insert_self _ _ _)] at hstep
    cases hstep
    refine ⟨((hcreated content).1.erase temporary).insert name content, fun n hn => ?_,
      Table.get?_insert_self _ _ _⟩
    simp only [List.mem_cons, List.not_mem_nil, or_false, not_or] at hn
    rw [Table.get?_insert_of_ne _ _ hn.1, Table.get?_erase_of_ne _ hn.2,
      Table.get?_insert_of_ne _ _ hn.2]
  cases hcut with
  | between => exact ⟨h, fun _ _ => rfl, .inl rfl⟩
  | inside _ k hstep =>
    rw [FileStep.upTo, h.step_create] at hstep
    cases hstep
    obtain ⟨hflat, hagree, hname⟩ := hcreated (content.take k)
    exact ⟨hflat, hagree, .inl hname⟩
  | later hstep hcut =>
    rw [h.step_create] at hstep
    cases hstep
    cases hcut with
    | between =>
      obtain ⟨hflat, hagree, hname⟩ := hcreated content
      exact ⟨hflat, hagree, .inl hname⟩
    | inside _ k hstep =>
      obtain ⟨hflat, hagree, hname⟩ := hrenamed hstep
      exact ⟨hflat, hagree, .inr hname⟩
    | later hstep hcut =>
      obtain ⟨hflat, hagree, hname⟩ := hrenamed hstep
      cases hcut
      exact ⟨hflat, hagree, .inr hname⟩

/-- A file is replaced when all steps are taken. -/
theorem Flat.run_replace (h : d.Flat) (name temporary : String) (content : Bytes) :
    ∃ d', d.run (replaceSteps name temporary content) = (d', none) ∧ d'.Flat ∧
      d.AgreesBut [name, temporary] d' ∧ d'.get? name = some (.file content) := by
  have hcreated := h.insert temporary content
  refine ⟨((d.insert temporary (.file content)).erase temporary).insert name (.file content), ?_,
    (hcreated.erase temporary).insert name content, fun n hn => ?_, Table.get?_insert_self _ _ _⟩
  · simp only [replaceSteps, run, h.step_create,
      hcreated.step_rename (Table.get?_insert_self _ _ _)]
  · simp only [List.mem_cons, List.not_mem_nil, or_false, not_or] at hn
    rw [Table.get?_insert_of_ne _ _ hn.1, Table.get?_erase_of_ne _ hn.2,
      Table.get?_insert_of_ne _ _ hn.2]

end Flat

end Directory

/-! ## What a disk holds -/

/-- The words and the entries of a write are of the ranges that are written. -/
def DiskWrite.Fits : DiskWrite → Prop
  | .ballot b => b.term ≤ maxWord ∧ ∀ v ∈ b.vote, v ≤ maxWord
  | .append entries => ∀ e ∈ entries, e.Fits
  | .replace entries => ∀ e ∈ entries, e.Fits
  | .commit index => index ≤ maxWord
  | .image i => i.Fits
  | .clear => True

namespace FileDisk

/-- What the files of a directory say; of the log its text. -/
structure Kept where
  metadata : Metadata := {}
  image : Option Image := none
  log : Bytes := []

/-- What the files say after a write. -/
def Kept.after (k : Kept) (w : DiskWrite) : Kept where
  metadata := metadataAfter k.metadata w
  image :=
    match w with
    | .image i => some i
    | _ => k.image
  log :=
    match w with
    | .append entries => k.log ++ LogFile.write entries
    | .replace entries => LogFile.write entries
    | .clear => []
    | _ => k.log

/-- The files that are read. -/
def files : List String := [metadataFile, imageFile, logFile]

/-- The log is whole lines. -/
def Kept.Lines (k : Kept) (es : List Entry) : Prop :=
  (∀ e ∈ es, e.Fits) ∧ k.log = LogFile.write es

/-- The files of a directory say what is given. -/
structure Holds (d : Directory) (k : Kept) : Prop where
  flat : d.Flat
  metadata : d.get? metadataFile = some (.file k.metadata.write) ∨
    d.get? metadataFile = none ∧ k.metadata = {}
  words : k.metadata.Fits
  image : d.get? imageFile = k.image.map fun i => .file (Json.encode Image.toJson i)
  ranges : ∀ i ∈ k.image, i.Fits
  log : d.text logFile = k.log

variable {d d' : Directory} {m : Metadata} {k : Kept}

theorem Metadata.fits_default : Metadata.Fits {} := ⟨by decide, by simp, by decide⟩

theorem metadataAfter_fits {w : DiskWrite} (hm : m.Fits) (hw : w.Fits) :
    (metadataAfter m w).Fits := by
  cases w with
  | ballot b => exact ⟨hw.1, hw.2, hm.commit⟩
  | commit n => exact ⟨hm.term, hm.vote, hw⟩
  | clear => exact Metadata.fits_default
  | append _ => exact hm
  | replace _ => exact hm
  | image _ => exact hm

theorem holds_empty : Holds .empty {} where
  flat _ := by rintro ⟨⟩
  metadata := .inr ⟨rfl, rfl⟩
  words := Metadata.fits_default
  image := rfl
  ranges _ := by rintro ⟨⟩
  log := rfl

theorem text_file {name : String} {content : Bytes} (h : d.get? name = some (.file content)) :
    d.text name = content := by
  rw [Directory.text, h]

/-! ### Reading -/

theorem load_none {α : Type} {name : String} (hf : d.get? name = none) (a : α)
    (read? : Bytes → Option α) : load ⟨d, m⟩ name a read? = .ok a := by
  rw [load, Directory.read, hf]
  rfl

theorem load_file {α : Type} {name : String} {content : Bytes}
    (hf : d.get? name = some (.file content)) (a : α) (read? : Bytes → Option α) :
    load ⟨d, m⟩ name a read? = (read? content).elim (.error .invalidData) .ok := by
  rw [load, Directory.read, hf]
  cases hr : read? content <;> simp only [bind, Except.bind, hr] <;> rfl

namespace Holds

section

variable (h : Holds d k) (m : Metadata)
include h

theorem readMetadata_eq : readMetadata ⟨d, m⟩ = .ok k.metadata := by
  rcases h.metadata with hm | ⟨hm, he⟩
  · rw [readMetadata, load_file hm, Metadata.read?_write h.words]
    rfl
  · rw [readMetadata, load_none hm, he]

theorem ofDirectory_eq : ofDirectory d = .ok ⟨d, k.metadata⟩ := by
  rw [ofDirectory, h.readMetadata_eq]
  rfl

theorem readBallot_eq : Disk.readBallot (⟨d, m⟩ : FileDisk) = .ok k.metadata.ballot := by
  show (readMetadata ⟨d, m⟩ >>= fun m => pure m.ballot) = _
  rw [h.readMetadata_eq]
  rfl

theorem readCommit_eq : Disk.readCommit (⟨d, m⟩ : FileDisk) = .ok k.metadata.commit := by
  show (readMetadata ⟨d, m⟩ >>= fun m => pure m.commit) = _
  rw [h.readMetadata_eq]
  rfl

theorem readImage_eq : Disk.readImage (⟨d, m⟩ : FileDisk) = .ok k.image := by
  have himage := h.image
  cases hi : k.image with
  | none =>
    rw [hi] at himage
    exact load_none himage _ _
  | some x =>
    rw [hi] at himage
    refine (load_file himage _ _).trans ?_
    rw [Image.form.decode?_encode (h.ranges x hi)]
    rfl

theorem readLog_eq : Disk.readLog (⟨d, m⟩ : FileDisk) =
    (LogFile.read? k.log).elim (.error .invalidData) .ok := by
  rw [← h.log]
  cases hf : d.get? logFile with
  | none =>
    rw [Directory.text, hf, LogFile.read?_nil]
    exact load_none hf _ _
  | some item =>
    cases item with
    | file content =>
      rw [Directory.text, hf]
      exact load_file hf _ _
    | folder => exact absurd hf (h.flat logFile)

end

/-! ### One file changes -/

section

variable (h : Holds d k) (hflat : d'.Flat)
include h hflat

theorem congr (hagree : ∀ n ∈ files, d'.get? n = d.get? n) : Holds d' k where
  flat := hflat
  metadata := by
    rw [hagree metadataFile (by simp [files])]
    exact h.metadata
  words := h.words
  image := (hagree imageFile (by simp [files])).trans h.image
  ranges := h.ranges
  log := by
    rw [Directory.text, hagree logFile (by simp [files]), ← Directory.text]
    exact h.log

theorem withMetadata {m' : Metadata} (hw : m'.Fits)
    (hfile : d'.get? metadataFile = some (.file m'.write) ∨
      d'.get? metadataFile = none ∧ m' = {})
    (hagree : ∀ n ∈ files, n ≠ metadataFile → d'.get? n = d.get? n) :
    Holds d' { k with metadata := m' } where
  flat := hflat
  metadata := hfile
  words := hw
  image := (hagree imageFile (by simp [files]) (by decide)).trans h.image
  ranges := h.ranges
  log := by
    rw [Directory.text, hagree logFile (by simp [files]) (by decide), ← Directory.text]
    exact h.log

theorem withImage {i : Image} (hi : i.Fits)
    (hfile : d'.get? imageFile = some (.file (Json.encode Image.toJson i)))
    (hagree : ∀ n ∈ files, n ≠ imageFile → d'.get? n = d.get? n) :
    Holds d' { k with image := some i } where
  flat := hflat
  metadata := by
    rw [hagree metadataFile (by simp [files]) (by decide)]
    exact h.metadata
  words := h.words
  image := hfile
  ranges := by
    rintro _ ⟨⟩
    exact hi
  log := by
    rw [Directory.text, hagree logFile (by simp [files]) (by decide), ← Directory.text]
    exact h.log

theorem withLog {text : Bytes} (htext : d'.text logFile = text)
    (hagree : ∀ n ∈ files, n ≠ logFile → d'.get? n = d.get? n) :
    Holds d' { k with log := text } where
  flat := hflat
  metadata := by
    rw [hagree metadataFile (by simp [files]) (by decide)]
    exact h.metadata
  words := h.words
  image := (hagree imageFile (by simp [files]) (by decide)).trans h.image
  ranges := h.ranges
  log := htext

end

end Holds

/-! ### Writes, whole and cut short -/

/-- What the files can say after a write that is cut short. -/
inductive Kept.Partly (k : Kept) : DiskWrite → Kept → Prop where
  | before (w : DiskWrite) : Partly k w k
  | after (w : DiskWrite) : Partly k w (k.after w)
  /-- The metadata are gone and the log is not. -/
  | cleared : Partly k .clear { k with metadata := {} }
  /-- A part of the new lines is there. -/
  | appended (entries : List Entry) (n : Nat) :
    Partly k (.append entries) { k with log := k.log ++ (LogFile.write entries).take n }

/-- What steps make of a directory, all of them or not. -/
structure Leads (d : Directory) (ss : List FileStep) (k : Kept) (P : Kept → Prop) : Prop where
  whole : ∃ d', d.run ss = (d', none) ∧ Holds d' k
  part : ∀ d', Directory.Cut d ss d' → ∃ k', P k' ∧ Holds d' k'

namespace Holds

variable (h : Holds d k)
include h

theorem replaces {name temporary : String} {content : Bytes} {k' : Kept} {w : DiskWrite}
    (hne : name ≠ temporary) (hfree : temporary ∉ files)
    (hk' : k' = k.after w)
    (hnew : ∀ d' : Directory, d'.Flat → d'.get? name = some (.file content) →
      (∀ n ∈ files, n ≠ name → d'.get? n = d.get? n) → Holds d' k') :
    Leads d (Directory.replaceSteps name temporary content) (k.after w) (k.Partly w) := by
  have hkept : ∀ {d' : Directory}, d.AgreesBut [name, temporary] d' →
      ∀ n ∈ files, n ≠ name → d'.get? n = d.get? n :=
    fun hagree n hn hname => hagree n (by
      simp only [List.mem_cons, List.not_mem_nil, or_false, not_or]
      exact ⟨hname, fun he => hfree (he ▸ hn)⟩)
  subst hk'
  constructor
  · obtain ⟨d', hrun, hflat, hagree, hfile⟩ := h.flat.run_replace name temporary content
    exact ⟨d', hrun, hnew d' hflat hfile (hkept hagree)⟩
  · intro d' hcut
    obtain ⟨hflat, hagree, hold | hfile⟩ := h.flat.cut_replace hne hcut
    · refine ⟨k, .before w, h.congr hflat fun n hn => ?_⟩
      by_cases hname : n = name
      · rw [hname, hold]
      · exact hkept hagree n hn hname
    · exact ⟨_, .after w, hnew d' hflat hfile (hkept hagree)⟩

theorem append (text : Bytes) :
    Holds (d.insert logFile (.file (d.text logFile ++ text))) { k with log := k.log ++ text } := by
  refine h.withLog (h.flat.insert _ _) ?_ fun n _ hn => Table.get?_insert_of_ne _ _ hn
  rw [text_file (Table.get?_insert_self _ _ _), h.log]

theorem removeMetadata : Holds (d.erase metadataFile) { k with metadata := {} } :=
  h.withMetadata (h.flat.erase _) Metadata.fits_default (.inr ⟨Table.get?_erase_self _ _, rfl⟩)
    fun _ _ hn => Table.get?_erase_of_ne _ hn

theorem removeLog : Holds (d.erase logFile) { k with log := [] } := by
  refine h.withLog (h.flat.erase _) ?_ fun _ _ hn => Table.get?_erase_of_ne _ hn
  rw [Directory.text, Table.get?_erase_self]

/-- A write that has nothing to do. -/
theorem stays {w : DiskWrite} (hw : k.after w = k) : Leads d [] (k.after w) (k.Partly w) := by
  rw [hw]
  refine ⟨⟨d, rfl, h⟩, fun d' hcut => ?_⟩
  cases hcut
  exact ⟨k, .before _, h⟩

theorem leads_append (es : List Entry) :
    Leads d (steps ⟨d, k.metadata⟩ (.append es)) (k.after (.append es))
      (k.Partly (.append es)) := by
  cases es with
  | nil => exact h.stays (by simp [Kept.after, metadataAfter])
  | cons e es =>
    refine ⟨⟨_, ?_, h.append (LogFile.write (e :: es))⟩, fun d' hcut => ?_⟩
    · simp [steps, Directory.run, h.flat.step_append]
    · cases hcut with
      | between => exact ⟨k, .before _, h⟩
      | inside _ n hstep =>
        rw [FileStep.upTo, h.flat.step_append] at hstep
        cases hstep
        exact ⟨_, .appended (e :: es) n, h.append _⟩
      | later hstep hcut =>
        rw [h.flat.step_append] at hstep
        cases hstep
        cases hcut
        exact ⟨_, .after _, h.append _⟩

/-- The metadata are removed first, then the log. -/
theorem leads_clear :
    Leads d (steps ⟨d, k.metadata⟩ .clear) (k.after .clear) (k.Partly .clear) := by
  have hmeta := h.removeMetadata
  refine ⟨⟨_, ?_, hmeta.removeLog⟩, fun d' hcut => ?_⟩
  · simp [steps, Directory.run, h.flat.step_remove, hmeta.flat.step_remove]
  · cases hcut with
    | between => exact ⟨k, .before _, h⟩
    | inside _ n hstep =>
      have hwhole : d.step (.remove metadataFile) = .ok d' := hstep
      rw [h.flat.step_remove] at hwhole
      cases hwhole
      exact ⟨_, .cleared, hmeta⟩
    | later hstep hcut =>
      rw [h.flat.step_remove] at hstep
      cases hstep
      cases hcut with
      | between => exact ⟨_, .cleared, hmeta⟩
      | inside _ n hstep =>
        have hwhole : Directory.step (d.erase metadataFile) (.remove logFile) = .ok d' := hstep
        rw [hmeta.flat.step_remove] at hwhole
        cases hwhole
        exact ⟨_, .after _, hmeta.removeLog⟩
      | later hstep hcut =>
        rw [hmeta.flat.step_remove] at hstep
        cases hstep
        cases hcut
        exact ⟨_, .after _, hmeta.removeLog⟩

/-- **What a write makes of a disk.** -/
theorem leads {w : DiskWrite} (hw : w.Fits) :
    Leads d (steps ⟨d, k.metadata⟩ w) (k.after w) (k.Partly w) := by
  have hwords := metadataAfter_fits h.words hw
  cases w with
  | ballot b =>
    exact h.replaces (by decide) (by decide) rfl fun d' hflat hfile hagree =>
      h.withMetadata hflat hwords (.inl hfile) hagree
  | commit n =>
    by_cases hsame : n = k.metadata.commit
    · rw [show steps ⟨d, k.metadata⟩ (.commit n) = [] from if_pos hsame]
      exact h.stays (by rw [hsame]; rfl)
    · rw [show steps ⟨d, k.metadata⟩ (.commit n) =
        metadataSteps { k.metadata with commit := n } from if_neg hsame]
      exact h.replaces (by decide) (by decide) rfl fun d' hflat hfile hagree =>
        h.withMetadata hflat hwords (.inl hfile) hagree
  | append es => exact h.leads_append es
  | replace es =>
    exact h.replaces (by decide) (by decide) rfl fun d' hflat hfile hagree =>
      h.withLog hflat (text_file hfile) hagree
  | image x =>
    exact h.replaces (by decide) (by decide) rfl fun d' hflat hfile hagree =>
      h.withImage hflat hw hfile hagree
  | clear => exact h.leads_clear

end Holds

/-- **A write succeeds.** -/
theorem Holds.write {w : DiskWrite} (h : Holds d k) (hw : w.Fits) : ∃ d',
    FileDisk.write ⟨d, k.metadata⟩ w = (⟨d', (k.after w).metadata⟩, none) ∧
      Holds d' (k.after w) := by
  obtain ⟨d', hrun, hd'⟩ := (h.leads hw).whole
  refine ⟨d', ?_, hd'⟩
  rw [FileDisk.write, hrun]
  rfl

/-! ## Reached disks -/

/-- Whether a log with a cut line still has one after a write: replacing it mends it. -/
def tornAfter (torn : Bool) : DiskWrite → Bool
  | .replace _ => false
  | .clear => false
  | _ => torn

/-- Whether a write that is cut short can leave part of a line. -/
def tears : DiskWrite → Bool
  | .append _ => true
  | _ => false

/-- The disks reached from an empty directory by writes, by opening the directory again and by
crashes in the middle of a write. The mark says whether a crash may have left part of a line in the
log. -/
inductive Reached : Bool → FileDisk → Prop where
  | opened : Reached false ⟨.empty, {}⟩
  | written {torn : Bool} {f : FileDisk} {w : DiskWrite} :
    Reached torn f → w.Fits → Reached (tornAfter torn w) (f.write w).1
  | reopened {torn : Bool} {f f' : FileDisk} :
    Reached torn f → ofDirectory f.directory = .ok f' → Reached torn f'
  | crashed {torn : Bool} {f f' : FileDisk} {w : DiskWrite} {d : Directory} :
    Reached torn f → w.Fits → Directory.Cut f.directory (f.steps w) d → ofDirectory d = .ok f' →
      Reached (torn || tears w) f'

/-- The entries of a log after a write. -/
def entriesAfter (es : List Entry) (w : DiskWrite) : List Entry :=
  (DiskContents.after { log := es } w).log

theorem Kept.Lines.after {k : Kept} {es : List Entry} {w : DiskWrite} (h : k.Lines es)
    (hw : w.Fits) : (k.after w).Lines (entriesAfter es w) := by
  obtain ⟨hes, hlog⟩ := h
  cases w with
  | append new =>
    refine ⟨fun e he => (List.mem_append.1 he).elim (hes e) (hw e), ?_⟩
    exact (congrArg (· ++ LogFile.write new) hlog).trans (LogFile.write_append es new).symm
  | replace new => exact ⟨hw, rfl⟩
  | clear => exact ⟨by simp [entriesAfter, DiskContents.after], rfl⟩
  | ballot _ => exact ⟨hes, hlog⟩
  | commit _ => exact ⟨hes, hlog⟩
  | image _ => exact ⟨hes, hlog⟩

theorem Kept.Partly.metadata {k k' : Kept} {w : DiskWrite} (h : k.Partly w k') :
    k'.metadata = k.metadata ∨ k'.metadata = (k.after w).metadata := by
  cases h with
  | before => exact .inl rfl
  | after => exact .inr rfl
  | cleared => exact .inr rfl
  | appended => exact .inl rfl

theorem Kept.Partly.image {k k' : Kept} {w : DiskWrite} (h : k.Partly w k') :
    k'.image = k.image ∨ k'.image = (k.after w).image := by
  cases h with
  | before => exact .inl rfl
  | after => exact .inr rfl
  | cleared => exact .inl rfl
  | appended => exact .inl rfl

theorem Kept.Partly.log {k k' : Kept} {w : DiskWrite} (h : k.Partly w k') :
    k'.log = k.log ∨ k'.log = (k.after w).log ∨
      ∃ new n, w = .append new ∧ k'.log = k.log ++ (LogFile.write new).take n := by
  cases h with
  | before => exact .inl rfl
  | after => exact .inr (.inl rfl)
  | cleared => exact .inl rfl
  | appended new n => exact .inr (.inr ⟨new, n, rfl, rfl⟩)

theorem Kept.Partly.append {k k' : Kept} {new : List Entry} (h : k.Partly (.append new) k') :
    ∃ n, k'.log = k.log ++ (LogFile.write new).take n := by
  rcases h.log with hlog | hlog | ⟨_, n, he, hlog⟩
  · exact ⟨0, by simp [hlog]⟩
  · exact ⟨(LogFile.write new).length, by simp [hlog, Kept.after]⟩
  · cases he
    exact ⟨n, hlog⟩

/-- A write that does not tear the log leaves whole lines, also when it is cut short. -/
theorem Kept.Partly.lines {k k' : Kept} {es : List Entry} {w : DiskWrite} (h : k.Partly w k')
    (hk : k.Lines es) (hw : w.Fits) (htears : tears w = false) :
    ∃ es', k'.Lines es' := by
  rcases h.log with hlog | hlog | ⟨new, n, rfl, -⟩
  · exact ⟨es, hk.1, hlog.trans hk.2⟩
  · exact ⟨_, (hk.after hw).1, hlog.trans (hk.after hw).2⟩
  · cases htears

/-- What is known of a reached disk: its files are in order, and its log is whole lines unless one
was torn. -/
structure Sound (torn : Bool) (f : FileDisk) (k : Kept) : Prop where
  holds : Holds f.directory k
  metadata : f.metadata = k.metadata
  lines : torn = false → ∃ es, k.Lines es

theorem Sound.eq {torn : Bool} {f : FileDisk} {k : Kept} (h : Sound torn f k) :
    f = ⟨f.directory, k.metadata⟩ := by
  rw [← h.metadata]

theorem Sound.written {torn : Bool} {f : FileDisk} {k : Kept} {w : DiskWrite} (h : Sound torn f k)
    (hw : w.Fits) : Sound (tornAfter torn w) (f.write w).1 (k.after w) := by
  obtain ⟨d', hwrite, hd'⟩ := h.holds.write hw
  rw [h.eq, hwrite]
  refine ⟨hd', rfl, fun htorn => ?_⟩
  cases w with
  | replace new => exact ⟨new, hw, rfl⟩
  | clear => exact ⟨[], by simp, rfl⟩
  | ballot _ | append _ | commit _ | image _ =>
    obtain ⟨es, hes⟩ := h.lines htorn
    exact ⟨_, hes.after hw⟩

theorem Sound.crashed {torn : Bool} {f : FileDisk} {k : Kept} {w : DiskWrite} {d : Directory}
    (h : Sound torn f k) (hw : w.Fits) (hcut : Directory.Cut f.directory (f.steps w) d) :
    ∃ k', k.Partly w k' ∧ Holds d k' ∧ ofDirectory d = .ok ⟨d, k'.metadata⟩ := by
  rw [h.eq] at hcut
  obtain ⟨k', hpart, hd⟩ := (h.holds.leads hw).part d hcut
  exact ⟨k', hpart, hd, hd.ofDirectory_eq⟩

theorem Reached.sound {torn : Bool} {f : FileDisk} (h : Reached torn f) : ∃ k, Sound torn f k := by
  induction h with
  | opened => exact ⟨{}, holds_empty, rfl, fun _ => ⟨[], by simp, rfl⟩⟩
  | @written torn f w _ hw ih =>
    obtain ⟨k, hk⟩ := ih
    exact ⟨_, hk.written hw⟩
  | @reopened torn f f' _ hopen ih =>
    obtain ⟨k, hk⟩ := ih
    rw [hk.holds.ofDirectory_eq] at hopen
    cases hopen
    exact ⟨k, hk.holds, rfl, hk.lines⟩
  | @crashed torn f f' w d _ hw hcut hopen ih =>
    obtain ⟨k, hk⟩ := ih
    obtain ⟨k', hpart, hd, hopen'⟩ := hk.crashed hw hcut
    rw [hopen'] at hopen
    cases hopen
    refine ⟨k', hd, rfl, fun htorn => ?_⟩
    obtain ⟨htorn, htears⟩ := Bool.or_eq_false_iff.1 htorn
    obtain ⟨es, hes⟩ := hk.lines htorn
    exact hpart.lines hes hw htears

/-! ## After a crash -/

/-- The log is read, and so is everything that is appended to it later. -/
def Reads (f : FileDisk) (es : List Entry) : Prop :=
  Disk.readLog f = .ok es ∧ ∀ later, (∀ e ∈ later, e.Fits) →
    Disk.readLog (f.write (.append later)).1 = .ok (es ++ later)

/-- The log is read, and no longer once anything is appended to it. -/
def Jams (f : FileDisk) (es : List Entry) : Prop :=
  Disk.readLog f = .ok es ∧ ∀ later ≠ [], (∀ e ∈ later, e.Fits) →
    Disk.readLog (f.write (.append later)).1 = .error .invalidData

namespace Holds

variable {es : List Entry} (h : Holds d k)
include h

theorem reads (hk : k.Lines es) : Reads ⟨d, k.metadata⟩ es := by
  refine ⟨?_, fun later hlater => ?_⟩
  · rw [h.readLog_eq, hk.2, LogFile.read?_write hk.1]
    rfl
  · obtain ⟨d', hwrite, hd'⟩ := h.write (w := .append later) hlater
    have hlines : (k.after (.append later)).Lines (es ++ later) :=
      hk.after (w := .append later) hlater
    rw [hwrite, hd'.readLog_eq, hlines.2, LogFile.read?_write hlines.1]
    rfl

theorem jams {e : Entry} (hes : ∀ e ∈ es, e.Fits) (he : e.Fits)
    (hlog : k.log = LogFile.write es ++ LogFile.record e) : Jams ⟨d, k.metadata⟩ (es ++ [e]) := by
  refine ⟨?_, fun later hne hlater => ?_⟩
  · rw [h.readLog_eq, hlog, LogFile.read?_unfinished hes he]
    rfl
  · obtain ⟨d', hwrite, hd'⟩ := h.write (w := .append later) hlater
    have hjoined : (k.after (.append later)).log =
        LogFile.write es ++ LogFile.record e ++ LogFile.write later := by
      show k.log ++ LogFile.write later = _
      rw [hlog]
    rw [hwrite, hd'.readLog_eq, hjoined, LogFile.read?_joined hes e hne]
    rfl

theorem readLog_torn {e : Entry} {p q : Bytes} (hes : ∀ e ∈ es, e.Fits)
    (hrecord : LogFile.record e = p ++ q) (hp : p ≠ []) (hq : q ≠ [])
    (hlog : k.log = LogFile.write es ++ p) (m : Metadata) :
    Disk.readLog (⟨d, m⟩ : FileDisk) = .error .invalidData := by
  rw [h.readLog_eq, hlog, LogFile.read?_torn hes hrecord hp hq]
  rfl

/-- What is left of an append that is cut short. -/
theorem reads_or_torn {new : List Entry} {n : Nat} (hes : ∀ e ∈ es, e.Fits)
    (hnew : ∀ e ∈ new, e.Fits) (hlog : k.log = LogFile.write es ++ (LogFile.write new).take n) :
    ∃ n p, d.text logFile = LogFile.write (es ++ new.take n) ++ p ∧
      (p = [] ∧ Reads ⟨d, k.metadata⟩ (es ++ new.take n) ∨
        ∃ e q, new[n]? = some e ∧ p ≠ [] ∧ LogFile.record e = p ++ q ∧
          (q = [] → Jams ⟨d, k.metadata⟩ (es ++ new.take n ++ [e])) ∧
          (q ≠ [] → Disk.readLog (⟨d, k.metadata⟩ : FileDisk) = .error .invalidData)) := by
  obtain ⟨n, p, htake, hp⟩ := LogFile.exists_take_write new n
  rw [htake, ← List.append_assoc, ← LogFile.write_append] at hlog
  have hfits : ∀ e ∈ es ++ new.take n, e.Fits := fun e he =>
    (List.mem_append.1 he).elim (hes e) fun he => hnew e (List.mem_of_mem_take he)
  refine ⟨n, p, h.log.trans hlog, ?_⟩
  rcases hp with rfl | ⟨e, q, he, hp, hrecord⟩
  · rw [List.append_nil] at hlog
    exact .inl ⟨rfl, h.reads ⟨hfits, hlog⟩⟩
  · refine .inr ⟨e, q, he, hp, hrecord, fun hq => ?_, fun hq => ?_⟩
    · rw [hq, List.append_nil] at hrecord
      exact h.jams hfits (hnew e (List.mem_of_getElem? he)) (hrecord ▸ hlog)
    · exact h.readLog_torn hfits hrecord hp hq hlog _

end Holds

end FileDisk

variable {torn : Bool} {f : FileDisk} {w : DiskWrite} {d : Directory}

open FileDisk in
/-- **After a crash in the middle of any write the directory opens, and each part of what was stored
is as before the write or as after it. The log is the exception: an append that is cut between two
lines leaves the log with a part of the new entries; one that is cut just before the end of a line
leaves a log that is read until something is appended to it; one that is cut inside a line leaves a
log that is not read.** -/
theorem crash_consistency (hf : Reached torn f) (hw : w.Fits)
    (hcut : Directory.Cut f.directory (f.steps w) d) :
    ∃ f', ofDirectory d = .ok f' ∧
      (∃ b, Disk.readBallot f' = .ok b ∧
        (Disk.readBallot f = .ok b ∨ Disk.readBallot (f.write w).1 = .ok b)) ∧
      (∃ n, Disk.readCommit f' = .ok n ∧
        (Disk.readCommit f = .ok n ∨ Disk.readCommit (f.write w).1 = .ok n)) ∧
      (∃ i, Disk.readImage f' = .ok i ∧
        (Disk.readImage f = .ok i ∨ Disk.readImage (f.write w).1 = .ok i)) ∧
      ((∀ new, w ≠ .append new) →
        Disk.readLog f' = Disk.readLog f ∨ Disk.readLog f' = Disk.readLog (f.write w).1) ∧
      (torn = false → ∃ es, f.Reads es ∧
        ((∀ new, w ≠ .append new) → ∃ es', f'.Reads es') ∧
        ∀ new, w = .append new → ∃ n p,
          d.text logFile = LogFile.write (es ++ new.take n) ++ p ∧
          (p = [] ∧ f'.Reads (es ++ new.take n) ∨
            ∃ e q, new[n]? = some e ∧ p ≠ [] ∧ LogFile.record e = p ++ q ∧
              (q = [] → f'.Jams (es ++ new.take n ++ [e])) ∧
              (q ≠ [] → Disk.readLog f' = .error .invalidData))) := by
  obtain ⟨k, hk⟩ := hf.sound
  obtain ⟨k', hpart, hd, hopen⟩ := hk.crashed hw hcut
  have hafter := (hk.written hw).holds
  refine ⟨⟨d, k'.metadata⟩, hopen, ⟨_, hd.readBallot_eq _, ?_⟩, ⟨_, hd.readCommit_eq _, ?_⟩,
    ⟨_, hd.readImage_eq _, ?_⟩, fun hother => ?_, fun htorn => ?_⟩
  · rcases hpart.metadata with he | he
    · exact .inl (he ▸ hk.holds.readBallot_eq f.metadata)
    · exact .inr (he ▸ hafter.readBallot_eq (f.write w).1.metadata)
  · rcases hpart.metadata with he | he
    · exact .inl (he ▸ hk.holds.readCommit_eq f.metadata)
    · exact .inr (he ▸ hafter.readCommit_eq (f.write w).1.metadata)
  · rcases hpart.image with he | he
    · exact .inl (he ▸ hk.holds.readImage_eq f.metadata)
    · exact .inr (he ▸ hafter.readImage_eq (f.write w).1.metadata)
  · rw [hd.readLog_eq]
    rcases hpart.log with he | he | ⟨new, n, he, -⟩
    · exact .inl (he ▸ (hk.holds.readLog_eq f.metadata).symm)
    · exact .inr (he ▸ (hafter.readLog_eq (f.write w).1.metadata).symm)
    · exact absurd he (hother new)
  · obtain ⟨es, hes⟩ := hk.lines htorn
    refine ⟨es, ?_, fun hother => ?_, fun new he => ?_⟩
    · rw [hk.eq]
      exact hk.holds.reads hes
    · obtain ⟨es', hes'⟩ := hpart.lines hes hw (by
        cases w with
        | append new => exact absurd rfl (hother new)
        | ballot _ | replace _ | commit _ | image _ | clear => rfl)
      exact ⟨es', hd.reads hes'⟩
    · subst he
      obtain ⟨n, hlog⟩ := hpart.append
      exact hd.reads_or_torn hes.1 hw (hlog.trans (congrArg (· ++ _) hes.2))

/-! ### A log with a torn line -/

namespace Torn

/-- An entry. -/
def first : Entry := ⟨1, 1, .put "a" "1"⟩

/-- The next one. -/
def second : Entry := ⟨1, 2, .put "b" "2"⟩

/-- The disk with the first of them. -/
def disk : FileDisk := (FileDisk.write ⟨.empty, {}⟩ (.append [first])).1

/-- The directory after a crash when one byte of the second was written. -/
def crashed : Directory :=
  disk.directory.insert FileDisk.logFile
    (.file (disk.directory.text FileDisk.logFile ++ (LogFile.write [second]).take 1))

theorem fits : (∀ e ∈ [first], e.Fits) ∧ ∀ e ∈ [second], e.Fits := by
  constructor <;>
  · intro e he
    obtain rfl := List.mem_singleton.1 he
    exact ⟨by decide, by decide⟩

theorem reached : FileDisk.Reached false disk :=
  .written (w := .append [first]) .opened fits.1

theorem cut : Directory.Cut disk.directory (disk.steps (.append [second])) crashed :=
  .inside [] 1 rfl

end Torn

theorem crash_consistency_torn : FileDisk.Reached false Torn.disk ∧
    (DiskWrite.append [Torn.second]).Fits ∧
    Directory.Cut Torn.disk.directory (Torn.disk.steps (.append [Torn.second])) Torn.crashed ∧
    ∃ f', FileDisk.ofDirectory Torn.crashed = .ok f' ∧ ∃ es, Torn.disk.Reads es ∧
      ∃ n p, Torn.crashed.text FileDisk.logFile =
        LogFile.write (es ++ [Torn.second].take n) ++ p := by
  obtain ⟨f', hopen, -, -, -, -, hlog⟩ :=
    crash_consistency Torn.reached (w := .append [Torn.second]) Torn.fits.2 Torn.cut
  obtain ⟨es, hes, -, happend⟩ := hlog rfl
  obtain ⟨n, p, htext, -⟩ := happend _ rfl
  exact ⟨Torn.reached, Torn.fits.2, Torn.cut, f', hopen, es, hes, n, p, htext⟩

/-- **A log with a torn line is not read.** The first byte of the second entry is on disk when the
program crashes. The directory opens, but neither entry can be read any more. -/
theorem torn_line_unreadable : FileDisk.Reached false Torn.disk ∧
    (DiskWrite.append [Torn.second]).Fits ∧
    Directory.Cut Torn.disk.directory (Torn.disk.steps (.append [Torn.second])) Torn.crashed ∧
    Disk.readLog Torn.disk = .ok [Torn.first] ∧
    FileDisk.ofDirectory Torn.crashed = .ok ⟨Torn.crashed, {}⟩ ∧
    Disk.readLog (⟨Torn.crashed, {}⟩ : FileDisk) = .error .invalidData := by
  have hdisk : FileDisk.Holds Torn.disk.directory { log := LogFile.write [Torn.first] } :=
    FileDisk.holds_empty.append _
  have hcrashed := hdisk.append ((LogFile.write [Torn.second]).take 1)
  obtain ⟨bs, hrecord⟩ := LogFile.exists_record Torn.second
  have hbyte : (LogFile.write [Torn.second]).take 1 = [0x7B] := by
    rw [LogFile.write_cons, hrecord]
    rfl
  have hrest : bs ≠ [] := by
    rintro rfl
    exact absurd (congrArg List.length hrecord) (by decide)
  refine ⟨Torn.reached, Torn.fits.2, Torn.cut, (hdisk.reads ⟨Torn.fits.1, rfl⟩).1,
    hcrashed.ofDirectory_eq, ?_⟩
  exact hcrashed.readLog_torn Torn.fits.1 (p := [0x7B]) hrecord (by simp) hrest
    (congrArg (LogFile.write [Torn.first] ++ ·) hbyte) {}

end ReplicatedStore
