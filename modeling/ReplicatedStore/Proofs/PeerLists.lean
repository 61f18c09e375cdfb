import Mathlib.Data.List.Basic
import ReplicatedStore.Proofs.Instants
import ReplicatedStore.Proofs.TextPieces
import ReplicatedStore.Settings.Peers
/-!
# What a list of peers is

The text of a peer list against what it says. `Peer.Describes` and `Peer.Lists` tell what a part of
a text and all its parts mean, `Peer.Flawed` and `Peer.Fails` what can be wrong with them. Reading
finds exactly that, of a part (`ofPart_eq_ok_iff`, `ofPart_eq_error_iff`), and of the parts between
commas (`ofParts_eq_ok_iff`, `ofParts_eq_error_iff`), by induction on them.

So a list of peers that is written in any of the ways that `Peer.Renders` allows is read back
(`listOf_exact`).
-/
namespace ReplicatedStore

namespace Peer

open Blank Decimal

variable {part core : List Char} {parts : List (List Char)} {p : Peer} {ps : List Peer}
variable {f : SettingsFlaw}

/-! ## Parts -/

/-- A part says so: before its first equals sign stands the id, after it the address, which has a
colon. -/
def Describes (part : List Char) (p : Peer) : Prop :=
  ∃ id address numeral, part = id ++ '=' :: address ∧ '=' ∉ id ∧ Trims id numeral ∧
    Numeral numeral p.id ∧ ':' ∈ address ∧ Trims address p.address.toList

/-- What is wrong with a part. -/
inductive Flawed (part : List Char) : SettingsFlaw → Prop
  | noEquals (missing : '=' ∉ part) : Flawed part (.noEquals (String.ofList part))
  | badId {id address numeral : List Char} (cut : part = id ++ '=' :: address) (first : '=' ∉ id)
      (trims : Trims id numeral) (bad : ∀ n, ¬ Numeral numeral n) :
      Flawed part (.badId (String.ofList part))
  | noPort {id address numeral : List Char} {n : Nat} (cut : part = id ++ '=' :: address)
      (first : '=' ∉ id) (trims : Trims id numeral) (good : Numeral numeral n)
      (missing : ':' ∉ address) : Flawed part (.noPort (String.ofList part))

/-- What a part is read as, by its first equals sign. -/
theorem ofPart_of_cut {id address : List Char} (cut : part = id ++ '=' :: address)
    (first : '=' ∉ id) : ofPart part =
      match Decimal.read? (String.ofList (trim id)) with
      | none => .error (.badId (String.ofList part))
      | some n =>
        if ':' ∈ address then .ok ⟨n, String.ofList (trim address)⟩
        else .error (.noPort (String.ofList part)) := by
  have hcolon : (trim address).contains ':' = true ↔ ':' ∈ address := by
    rw [List.contains_iff_mem]
    exact (trims_trim address).mem_iff (by decide)
  rw [ofPart, splitOnce?_eq_some_iff.2 ⟨cut, first⟩]
  simp only
  cases Decimal.read? (String.ofList (trim id)) with
  | none => rfl
  | some n => exact if_congr hcolon rfl rfl

/-- **What a part describes.** -/
theorem ofPart_eq_ok_iff : ofPart part = .ok p ↔ Describes part p := by
  constructor
  · intro h
    cases hcut : splitOnce? '=' part with
    | none =>
      rw [ofPart, hcut] at h
      cases h
    | some xy =>
      obtain ⟨cut, first⟩ := splitOnce?_eq_some_iff.1 hcut
      rw [ofPart_of_cut cut first] at h
      split at h
      · cases h
      · next n hn =>
        split at h
        · next hcolon =>
          cases h
          refine ⟨xy.1, xy.2, _, cut, first, trims_trim _, read?_eq_some_iff.1 hn, hcolon, ?_⟩
          rw [String.toList_ofList]
          exact trims_trim _
        · cases h
  · rintro ⟨id, address, numeral, cut, first, htrims, hnumeral, hcolon, haddress⟩
    rw [ofPart_of_cut cut first, trim_eq_iff.2 htrims, read?_eq_some_iff.2 hnumeral]
    simp only [hcolon, if_true, trim_eq_iff.2 haddress, String.ofList_toList]

/-- **What is wrong with a part** that describes no peer. -/
theorem ofPart_eq_error_iff : ofPart part = .error f ↔ Flawed part f := by
  constructor
  · intro h
    cases hcut : splitOnce? '=' part with
    | none =>
      rw [ofPart, hcut] at h
      cases h
      exact .noEquals (splitOnce?_eq_none_iff.1 hcut)
    | some xy =>
      obtain ⟨cut, first⟩ := splitOnce?_eq_some_iff.1 hcut
      rw [ofPart_of_cut cut first] at h
      split at h
      · next hnone =>
        cases h
        refine .badId cut first (trims_trim _) fun n hn => ?_
        cases hnone.symm.trans (read?_eq_some_iff.2 hn)
      · next n hn =>
        split at h
        · cases h
        · next hcolon =>
          cases h
          exact .noPort cut first (trims_trim _) (read?_eq_some_iff.1 hn) hcolon
  · intro h
    cases h with
    | noEquals missing => rw [ofPart, splitOnce?_eq_none_iff.2 missing]
    | badId cut first trims bad =>
      rw [ofPart_of_cut cut first, trim_eq_iff.2 trims]
      split
      · rfl
      · next n hn => exact absurd (read?_eq_some_iff.1 hn) (bad n)
    | noPort cut first trims good missing =>
      rw [ofPart_of_cut cut first, trim_eq_iff.2 trims, read?_eq_some_iff.2 good]
      simp only [missing, if_false]

/-! ## Lists -/

/-- The parts that are not blank describe the peers, in order. -/
inductive Lists : List (List Char) → List Peer → Prop
  | nil : Lists [] []
  | blank {part : List Char} {parts : List (List Char)} {ps : List Peer} (blank : Blanks part)
      (rest : Lists parts ps) : Lists (part :: parts) ps
  | peer {part core : List Char} {p : Peer} {parts : List (List Char)} {ps : List Peer}
      (trims : Trims part core) (describes : Describes core p) (rest : Lists parts ps) :
      Lists (part :: parts) (p :: ps)

/-- The first part that is neither blank nor describes a peer has the flaw. -/
inductive Fails : List (List Char) → SettingsFlaw → Prop
  | here {part core : List Char} {parts : List (List Char)} {f : SettingsFlaw}
      (trims : Trims part core) (filled : core ≠ []) (flawed : Flawed core f) :
      Fails (part :: parts) f
  | blank {part : List Char} {parts : List (List Char)} {f : SettingsFlaw} (blank : Blanks part)
      (rest : Fails parts f) : Fails (part :: parts) f
  | peer {part core : List Char} {p : Peer} {parts : List (List Char)} {f : SettingsFlaw}
      (trims : Trims part core) (describes : Describes core p) (rest : Fails parts f) :
      Fails (part :: parts) f

/-- What is read of the parts. -/
def ofParts (parts : List (List Char)) : Except SettingsFlaw (List Peer) :=
  ((parts.map trim).filter (!·.isEmpty)).mapM ofPart

theorem Describes.ne_nil (h : Describes core p) : core ≠ [] := by
  obtain ⟨id, address, _, rfl, -⟩ := h
  simp

theorem ofParts_blank (blank : Blanks part) (parts : List (List Char)) :
    ofParts (part :: parts) = ofParts parts := by
  rw [ofParts, List.map_cons, trim_eq_nil_iff.2 blank, List.filter_cons_of_neg (by simp)]
  rfl

theorem ofParts_filled (trims : Trims part core) (filled : core ≠ []) (parts : List (List Char)) :
    ofParts (part :: parts) = (do return (← ofPart core) :: (← ofParts parts)) := by
  rw [ofParts, List.map_cons, trim_eq_iff.2 trims, List.filter_cons_of_pos (by simpa using filled),
    List.mapM_cons]
  rfl

/-- **What the parts list.** -/
theorem ofParts_eq_ok_iff : ofParts parts = .ok ps ↔ Lists parts ps := by
  induction parts generalizing ps with
  | nil =>
    constructor
    · intro h
      cases h
      exact .nil
    · intro h
      cases h
      rfl
  | cons part parts ih =>
    rcases blanks_or_trims part with hblank | ⟨core, htrims, hfilled⟩
    · rw [ofParts_blank hblank, ih]
      refine ⟨.blank hblank, fun h => ?_⟩
      cases h with
      | blank _ rest => exact rest
      | peer trims describes _ => exact absurd hblank (trims.not_blanks describes.ne_nil)
    · rw [ofParts_filled htrims hfilled]
      constructor
      · intro h
        obtain ⟨p, hp, h⟩ := bind_eq_ok.1 h
        obtain ⟨ps', hps, h⟩ := bind_eq_ok.1 h
        cases h
        exact .peer htrims (ofPart_eq_ok_iff.1 hp) (ih.1 hps)
      · intro h
        cases h with
        | blank blank _ => exact absurd blank (htrims.not_blanks hfilled)
        | peer trims describes rest =>
          cases htrims.unique trims
          exact bind_eq_ok.2 ⟨_, ofPart_eq_ok_iff.2 describes, bind_eq_ok.2 ⟨_, ih.2 rest, rfl⟩⟩

/-- **What is wrong with parts** that list no peers. -/
theorem ofParts_eq_error_iff : ofParts parts = .error f ↔ Fails parts f := by
  induction parts with
  | nil => exact iff_of_false nofun nofun
  | cons part parts ih =>
    rcases blanks_or_trims part with hblank | ⟨core, htrims, hfilled⟩
    · rw [ofParts_blank hblank, ih]
      refine ⟨.blank hblank, fun h => ?_⟩
      cases h with
      | here trims filled _ => exact absurd hblank (trims.not_blanks filled)
      | blank _ rest => exact rest
      | peer trims describes _ => exact absurd hblank (trims.not_blanks describes.ne_nil)
    · rw [ofParts_filled htrims hfilled]
      constructor
      · intro h
        cases hp : ofPart core with
        | error g =>
          rw [hp] at h
          cases h
          exact .here htrims hfilled (ofPart_eq_error_iff.1 hp)
        | ok p =>
          cases hps : ofParts parts with
          | ok ps =>
            rw [hp, hps] at h
            cases h
          | error g =>
            rw [hp, hps] at h
            cases h
            exact .peer htrims (ofPart_eq_ok_iff.1 hp) (ih.1 hps)
      · intro h
        cases h with
        | here trims filled flawed =>
          cases htrims.unique trims
          rw [ofPart_eq_error_iff.2 flawed]
          rfl
        | blank blank _ => exact absurd blank (htrims.not_blanks hfilled)
        | peer trims describes rest =>
          cases htrims.unique trims
          rw [ofPart_eq_ok_iff.2 describes, ih.2 rest]
          rfl

/-- Something is listed exactly if each part is blank or describes a peer. -/
theorem exists_lists_iff : (∃ ps, Lists parts ps) ↔
    ∀ part ∈ parts, Blanks part ∨ ∃ core p, Trims part core ∧ Describes core p := by
  induction parts with
  | nil => exact ⟨fun _ => nofun, fun _ => ⟨[], .nil⟩⟩
  | cons part parts ih =>
    rw [List.forall_mem_cons, ← ih]
    constructor
    · rintro ⟨ps, h⟩
      cases h with
      | blank blank rest => exact ⟨.inl blank, _, rest⟩
      | peer trims describes rest => exact ⟨.inr ⟨_, _, trims, describes⟩, _, rest⟩
    · rintro ⟨hblank | ⟨core, p, trims, describes⟩, ps, rest⟩
      · exact ⟨ps, .blank hblank rest⟩
      · exact ⟨p :: ps, .peer trims describes rest⟩

/-! ## Texts -/

/-- The stretches of a text between its commas. -/
structure Parts (spec : String) (parts : List (List Char)) : Prop where
  filled : parts ≠ []
  apart : ∀ part ∈ parts, ',' ∉ part
  joined : [','].intercalate parts = spec.toList

/-- A text has its parts, and no others. -/
theorem parts_iff {spec : String} : Parts spec parts ↔ splitOn ',' spec.toList = parts := by
  rw [splitOn_eq_iff]
  exact ⟨fun h => ⟨h.filled, h.apart, h.joined⟩, fun h => ⟨h.1, h.2.1, h.2.2⟩⟩

theorem Parts.listOf_eq {spec : String} (h : Parts spec parts) : listOf spec = ofParts parts := by
  rw [listOf, parts_iff.1 h]
  rfl

/-- The ways to write a list of peers in parts: each peer as its id, an equals sign and its address,
with any blanks around either, and any blank parts in between. The ids are words; the addresses have
no blanks at their ends, a colon and no comma. -/
inductive Renders : List Peer → List (List Char) → Prop
  | nil : Renders [] []
  | blank {part : List Char} {ps : List Peer} {parts : List (List Char)} (blank : Blanks part)
      (rest : Renders ps parts) : Renders ps (part :: parts)
  | peer {p : Peer} {ps : List Peer} {parts : List (List Char)} {a b c d : List Char}
      (word : p.id ≤ maxWord) (trimmed : Trimmed p.address.toList) (port : ':' ∈ p.address.toList)
      (apart : ',' ∉ p.address.toList) (blanks : Blanks a ∧ Blanks b ∧ Blanks c ∧ Blanks d)
      (rest : Renders ps parts) :
      Renders (p :: ps) ((a ++ digits p.id ++ b ++ '=' :: (c ++ p.address.toList ++ d)) :: parts)

/-- A part that is written so describes the peer. -/
theorem describes_rendered {a b c d : List Char} (word : p.id ≤ maxWord)
    (trimmed : Trimmed p.address.toList) (port : ':' ∈ p.address.toList)
    (blanks : Blanks a ∧ Blanks b ∧ Blanks c ∧ Blanks d) : ∃ core,
    Trims (a ++ digits p.id ++ b ++ '=' :: (c ++ p.address.toList ++ d)) core ∧
      Describes core p := by
  obtain ⟨ha, hb, hc, hd⟩ := blanks
  have hblank : ∀ x ∈ digits p.id, isBlank x = false := fun x hx =>
    Instant.not_blank_of_isDigit (isDigit_of_mem_digits hx)
  have hdigits : Trimmed (digits p.id) :=
    ⟨fun x hx => hblank x (List.mem_of_mem_head? hx),
      fun x hx => hblank x (List.mem_of_mem_getLast? hx)⟩
  have hnil : p.address.toList ≠ [] := List.ne_nil_of_mem port
  refine ⟨digits p.id ++ b ++ '=' :: (c ++ p.address.toList), ⟨⟨fun x hx => ?_, fun x hx => ?_⟩,
    a, d, ha, hd, by simp⟩, digits p.id ++ b, c ++ p.address.toList, digits p.id, rfl, ?_, ?_, ?_,
    List.mem_append_right _ port, trimmed, c, [], hc, nofun, by simp⟩
  · refine hdigits.first x ?_
    rwa [List.append_assoc, List.head?_append_of_ne_nil _ (digits_ne_nil _)] at hx
  · refine trimmed.last x ?_
    rwa [List.getLast?_append_of_ne_nil _ (List.cons_ne_nil _ _), ← List.cons_append,
      List.getLast?_append_of_ne_nil _ hnil] at hx
  · rw [List.mem_append, not_or]
    exact ⟨fun h => absurd (isDigit_of_mem_digits h) (by decide), hb.notMem (by decide)⟩
  · exact ⟨hdigits, [], b, nofun, hb, by simp⟩
  · exact ⟨digits p.id, .inl rfl, digits_ne_nil _, fun _ => isDigit_of_mem_digits,
      value_digits _, word⟩

theorem Renders.lists (h : Renders ps parts) : Lists parts ps := by
  induction h with
  | nil => exact .nil
  | blank blank _ ih => exact .blank blank ih
  | peer word trimmed port _ blanks _ ih =>
    obtain ⟨core, htrims, hdescribes⟩ := describes_rendered word trimmed port blanks
    exact .peer htrims hdescribes ih

theorem Renders.apart (h : Renders ps parts) : ∀ part ∈ parts, ',' ∉ part := by
  induction h with
  | nil => exact nofun
  | blank blank _ ih => exact List.forall_mem_cons.2 ⟨blank.notMem (by decide), ih⟩
  | @peer p _ _ a b c d _ _ _ apart blanks _ ih =>
    obtain ⟨ha, hb, hc, hd⟩ := blanks
    refine List.forall_mem_cons.2 ⟨?_, ih⟩
    have hdigits : ',' ∉ digits p.id := fun h => absurd (isDigit_of_mem_digits h) (by decide)
    have hcomma : isBlank ',' = false := by decide
    simp [hdigits, apart, ha.notMem hcomma, hb.notMem hcomma, hc.notMem hcomma, hd.notMem hcomma]

/-- **A text lists peers exactly if its parts do.** Each part between commas that is not blank has
to describe a peer. Then the peers are read in their order; otherwise the flaw is that of the first
part that does not. And however a list of peers is written, it is read back. -/
theorem listOf_exact :
    (∀ spec, ∃ parts, Parts spec parts ∧
      ((∃ ps, listOf spec = .ok ps) ↔
        ∀ part ∈ parts, Blanks part ∨ ∃ core p, Trims part core ∧ Describes core p) ∧
      (∀ ps, listOf spec = .ok ps ↔ Lists parts ps) ∧
      ∀ f, listOf spec = .error f ↔ Fails parts f) ∧
    ∀ ps parts, Renders ps parts → listOf (String.ofList ([','].intercalate parts)) = .ok ps := by
  refine ⟨fun spec => ?_, fun ps parts h => ?_⟩
  · have hparts : Parts spec (splitOn ',' spec.toList) := parts_iff.2 rfl
    have hlists : ∀ ps, listOf spec = .ok ps ↔ Lists (splitOn ',' spec.toList) ps := fun ps => by
      rw [hparts.listOf_eq]
      exact ofParts_eq_ok_iff
    refine ⟨_, hparts, (exists_congr hlists).trans exists_lists_iff, hlists, fun f => ?_⟩
    rw [hparts.listOf_eq]
    exact ofParts_eq_error_iff
  · by_cases hnil : parts = []
    · subst hnil
      cases h
      rfl
    · have hparts : Parts (String.ofList ([','].intercalate parts)) parts :=
        ⟨hnil, h.apart, (String.toList_ofList).symm⟩
      rw [hparts.listOf_eq]
      exact ofParts_eq_ok_iff.2 h.lists

/-- Two peers, with blanks of several kinds around ids, addresses and parts, and two blank parts. -/
def spacedParts : List (List Char) :=
  [" 2\u3000= node2:7002".toList, "\t".toList, "30=[::1]:70=3\n".toList, []]

theorem listOf_exact_spaced :
    Renders [⟨2, "node2:7002"⟩, ⟨30, "[::1]:70=3"⟩] spacedParts ∧
    listOf (String.ofList ([','].intercalate spacedParts)) =
      .ok [⟨2, "node2:7002"⟩, ⟨30, "[::1]:70=3"⟩] := by
  have hrenders : Renders [⟨2, "node2:7002"⟩, ⟨30, "[::1]:70=3"⟩] spacedParts := by
    have htrimmed : Trimmed "node2:7002".toList ∧ Trimmed "[::1]:70=3".toList := by
      constructor <;> constructor <;> rintro _ ⟨⟩ <;> rfl
    have hport : ':' ∈ "node2:7002".toList ∧ ':' ∈ "[::1]:70=3".toList := by simp
    have hcomma : ',' ∉ "node2:7002".toList ∧ ',' ∉ "[::1]:70=3".toList := by simp
    have hnone : Blanks [] := nofun
    have hspace : Blanks [' '] := List.forall_mem_singleton.2 rfl
    have hwide : Blanks ['\u3000'] := List.forall_mem_singleton.2 rfl
    have htab : Blanks "\t".toList := List.forall_mem_singleton.2 rfl
    have hline : Blanks ['\n'] := List.forall_mem_singleton.2 rfl
    have hsecond : Renders [⟨30, "[::1]:70=3"⟩] ["30=[::1]:70=3\n".toList, []] :=
      .peer (a := []) (b := []) (c := []) (d := ['\n']) (by decide) htrimmed.2 hport.2 hcomma.2
        ⟨hnone, hnone, hnone, hline⟩ (.blank hnone .nil)
    exact .peer (a := [' ']) (b := ['\u3000']) (c := [' ']) (d := []) (by decide) htrimmed.1
      hport.1 hcomma.1 ⟨hspace, hwide, hspace, hnone⟩ (.blank htab hsecond)
  exact ⟨hrenders, listOf_exact.2 _ _ hrenders⟩

end Peer

end ReplicatedStore
