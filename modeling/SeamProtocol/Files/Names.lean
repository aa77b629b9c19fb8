import SeamProtocol.Files.Frame
import SeamProtocol.Lib.Path

/-! # Where received files are written

The paths that are made of the name of a file. Names with two dots in a row are refused, wherever these
are, and a name can also be one without any part. -/

namespace SeamProtocol

open Lib Lib.Path List

inductive Receiver where
  | recv (redundantPathIdx : Option Nat)
  /-- `receive_parallel`, with the names in the other chunks. -/
  | recvParallel (others : List Name)
  | copy (resume : Bool)
  | syncFile
  | syncDelete

def outPath (dest : Bytes) (name : Name) : Bytes := join dest name

def stagingPath (dest : Bytes) (name : Name) (redundantPathIdx : Option Nat) : Bytes :=
  setFileName (outPath dest name)
    (partialPath ((fileName (outPath dest name)).getD []) redundantPathIdx)

namespace Receiver

def refuses : Receiver → Name → Bool
  | recvParallel others, name => dangerous name || others.any dangerous
  | _, name => dangerous name

/-- **The paths that are created, written, renamed or removed.** -/
def touches (k : Receiver) (dest : Bytes) (name : Name) : List Bytes :=
  if k.refuses name then []
  else
    match k with
    | recv redundantPathIdx => [outPath dest name, stagingPath dest name redundantPathIdx]
    | copy true => [outPath dest name, stagingPath dest name none]
    | recvParallel _ | copy false | syncFile | syncDelete => [outPath dest name]

end Receiver

def Below (dest p : Bytes) : Prop :=
  hasRoot p = hasRoot dest ∧
    ∃ parts, parts ≠ [] ∧ [dot, dot] ∉ parts ∧ segments p = segments dest ++ parts

def Receiver.Stays (k : Receiver) (dest : Bytes) (name : Name) : Prop :=
  ∀ p ∈ k.touches dest name, Below dest p

/-- A file below the source: the names of the directories on the way, and its own. -/
structure RelativePath where
  components : List Bytes
  ne_nil : components ≠ []
  valid : ∀ c ∈ components, slash ∉ c ∧ c ≠ [] ∧ c ≠ [dot] ∧ c ≠ [dot, dot]

def RelativePath.name (r : RelativePath) : Name := [slash].intercalate r.components

/-! ## Two dots -/

theorem dangerous_eq_true_iff (name : Name) :
    dangerous name = true ↔ [dot, dot] <:+: name ∨ hasRoot name = true := by
  simp only [dangerous, Bool.or_eq_true, any_eq_true, mem_tails, isPrefixOf_iff_prefix,
    decide_eq_true_eq, hasRoot, infix_iff_prefix_suffix, and_comm]
  rfl

theorem infix_append_slash {w p q : Bytes} (hw : slash ∉ w) (h : w <:+: p ++ slash :: q) :
    w <:+: p ∨ w <:+: q := by
  obtain ⟨s, t, hst⟩ := h
  rw [append_assoc, append_eq_append_iff] at hst
  rcases hst with ⟨u, rfl, hu⟩ | ⟨u, rfl, hu⟩
  · rw [append_eq_append_iff] at hu
    rcases hu with ⟨v, rfl, -⟩ | ⟨v, rfl, hv⟩
    · exact .inl ⟨s, v, by simp⟩
    · cases v with
      | nil => exact .inl ⟨s, [], by simp⟩
      | cons c v =>
        cases hv
        exact absurd (mem_append_right u mem_cons_self) hw
  · cases u with
    | nil =>
      cases w with
      | nil => exact .inl nil_infix
      | cons c w =>
        cases hu
        exact absurd mem_cons_self hw
    | cons c u =>
      cases hu
      exact .inr ⟨u, t, append_assoc ..⟩

theorem infix_intercalate_iff {w : Bytes} (hw : slash ∉ w) (hne : w ≠ []) (parts : List Bytes) :
    w <:+: [slash].intercalate parts ↔ ∃ part ∈ parts, w <:+: part := by
  induction parts with
  | nil =>
    refine iff_of_false (fun h => hne (eq_nil_of_infix_nil h)) ?_
    rintro ⟨part, hpart, -⟩
    exact not_mem_nil hpart
  | cons part parts ih =>
    cases parts with
    | nil =>
      simp
    | cons next parts =>
      constructor
      · intro h
        rcases infix_append_slash hw h with h | h
        · exact ⟨part, mem_cons_self, h⟩
        · obtain ⟨part', hmem, h⟩ := ih.mp h
          exact ⟨part', mem_cons_of_mem part hmem, h⟩
      · rintro ⟨part', hmem, h⟩
        rcases mem_cons.mp hmem with rfl | hmem
        · exact h.trans (prefix_append _ _).isInfix
        · exact (ih.mpr ⟨part', hmem, h⟩).trans
            ((suffix_cons slash _).trans (suffix_append part _)).isInfix

theorem RelativePath.dangerous_name (r : RelativePath) :
    dangerous r.name = false ↔ ∀ c ∈ r.components, ¬[dot, dot] <:+: c := by
  have hroot : hasRoot r.name = false := by
    obtain ⟨first, rest, hfirst⟩ := exists_cons_of_ne_nil r.ne_nil
    obtain ⟨hslash, hne, -⟩ := r.valid first (by rw [hfirst]; exact mem_cons_self)
    obtain ⟨c, first, rfl⟩ := exists_cons_of_ne_nil hne
    have hc : c ≠ slash := fun h => hslash (h ▸ mem_cons_self)
    unfold RelativePath.name hasRoot
    rw [hfirst, decide_eq_false_iff_not]
    cases rest with
    | nil => rw [intercalate_singleton]; simpa using hc
    | cons next rest => rw [intercalate_cons_cons]; simpa using hc
  rw [← Bool.not_eq_true, dangerous_eq_true_iff, hroot, name,
    infix_intercalate_iff (by decide) (cons_ne_nil _ _)]
  push Not
  exact ⟨fun h => h.1, fun h => ⟨h, Bool.false_ne_true⟩⟩

/-! ## Paths below the destination -/

section

variable {dest : Bytes} {name : Name}

theorem dotDot_notMem_segments (h : dangerous name = false) : [dot, dot] ∉ segments name := by
  intro hmem
  have hinfix : [dot, dot] <:+: [slash].intercalate (name.splitOn slash) :=
    (infix_intercalate_iff (by decide) (cons_ne_nil _ _) _).mpr
      ⟨_, mem_of_mem_filter hmem, infix_rfl⟩
  rw [intercalate_splitOn] at hinfix
  rw [(dangerous_eq_true_iff name).mpr (.inl hinfix)] at h
  cases h

theorem hasRoot_of_not_dangerous (h : dangerous name = false) : hasRoot name = false := by
  cases hroot : hasRoot name with
  | false => rfl
  | true =>
    rw [(dangerous_eq_true_iff name).mpr (.inr hroot)] at h
    cases h

theorem below_outPath_iff (h : dangerous name = false) :
    Below dest (outPath dest name) ↔ segments name ≠ [] := by
  have hroot := hasRoot_of_not_dangerous h
  have hsegments : segments (outPath dest name) = segments dest ++ segments name :=
    segments_join dest hroot
  constructor
  · rintro ⟨-, parts, hne, -, hparts⟩ hnil
    rw [hsegments, hnil] at hparts
    exact hne (append_cancel_left hparts).symm
  · intro hne
    exact ⟨hasRoot_join dest hroot, segments name, hne, dotDot_notMem_segments h, hsegments⟩

theorem slash_notMem_partialPath {part : Bytes} (h : slash ∉ part) (redundantPathIdx : Option Nat) :
    slash ∉ partialPath part redundantPathIdx := by
  have hsuffix : slash ∉ partialSuffix := by decide
  unfold partialPath
  rw [mem_append, mem_append, not_or, not_or]
  refine ⟨⟨h, hsuffix⟩, ?_⟩
  cases redundantPathIdx with
  | none => exact not_mem_nil
  | some idx =>
    rw [mem_append, not_or]
    refine ⟨by decide, ?_⟩
    -- the digits of a number are none
    rintro hmem
    obtain ⟨c, hc, hslash⟩ := mem_map.mp hmem
    have hdigit := Nat.isDigit_of_mem_toDigits (by decide) (by decide) hc
    rw [Char.isDigit, Bool.and_eq_true, decide_eq_true_eq, decide_eq_true_eq] at hdigit
    have hlow : 48 ≤ c.toNat := UInt32.le_iff_toNat_le.mp hdigit.1
    have hhigh : c.toNat ≤ 57 := UInt32.le_iff_toNat_le.mp hdigit.2
    have hnat := congrArg UInt8.toNat hslash
    rw [UInt8.toNat_ofNat_of_lt' (by unfold UInt8.size; omega)] at hnat
    have hvalue : slash.toNat = 47 := rfl
    omega

theorem below_stagingPath (h : dangerous name = false) (hne : segments name ≠ [])
    (redundantPathIdx : Option Nat) : Below dest (stagingPath dest name redundantPathIdx) := by
  have hroot := hasRoot_of_not_dangerous h
  have hdots := dotDot_notMem_segments h
  have hlast := (dropLast_append_getLast hne).symm
  generalize hparts : (segments name).dropLast = parts at hlast
  generalize hpart : (segments name).getLast hne = part at hlast
  have hmem : part ∈ segments name := hpart ▸ getLast_mem hne
  have hout : segments (outPath dest name) = (segments dest ++ parts) ++ [part] := by
    rw [append_assoc, ← hlast]
    exact segments_join dest hroot
  have hpartne : part ≠ [dot, dot] := fun heq => hdots (heq ▸ hmem)
  have hslash := slash_notMem_of_mem_splitOn (mem_of_mem_filter hmem)
  have hfile : stagingPath dest name redundantPathIdx
      = setFileName (outPath dest name) (partialPath part redundantPathIdx) := by
    simp [stagingPath, fileName_of_segments hout hpartne]
  -- a staged name is longer than two bytes
  have hlen : 13 ≤ (partialPath part redundantPathIdx).length := by
    simp only [partialPath, length_append, partialSuffix, length_cons]
    omega
  have hslash' := slash_notMem_partialPath hslash redundantPathIdx
  have hroot' : hasRoot (partialPath part redundantPathIdx) = false :=
    decide_eq_false fun h => hslash' (mem_of_mem_head? h)
  have hskip : skipped (partialPath part redundantPathIdx) = false := by
    cases hskipped : skipped (partialPath part redundantPathIdx) with
    | false => rfl
    | true =>
      rw [skipped, Bool.or_eq_true, decide_eq_true_eq, decide_eq_true_eq] at hskipped
      rcases hskipped with heq | heq <;> rw [heq] at hlen <;> exact absurd hlen (by decide)
  obtain ⟨hsegments, hsame⟩ := segments_setFileName hout hpartne hroot'
  rw [segments_of_notMem hslash' hskip] at hsegments
  rw [hfile]
  refine ⟨hsame.trans (hasRoot_join dest hroot), parts ++ [partialPath part redundantPathIdx],
    append_ne_nil_of_right_ne_nil _ (cons_ne_nil _ _), ?_, ?_⟩
  · rw [mem_append, not_or, mem_singleton]
    refine ⟨fun hmem => hdots (hlast ▸ mem_append_left _ hmem), fun heq => ?_⟩
    rw [← heq] at hlen
    exact absurd hlen (by decide)
  · rw [hsegments, append_assoc]

end

/-- **Which paths are below the destination, and which names are accepted.** Whoever receives a name
touches only paths below the destination exactly if the name is refused or has a part; and the path of a
file below the source is accepted exactly if none of its components has two dots in a row. -/
theorem names_iff (k : Receiver) (dest : Bytes) (name : Name) (r : RelativePath) :
    (k.Stays dest name ↔ k.refuses name = true ∨ segments name ≠ []) ∧
      (dangerous r.name = false ↔ ∀ c ∈ r.components, ¬[dot, dot] <:+: c) := by
  refine ⟨?_, r.dangerous_name⟩
  cases hrefuses : k.refuses name with
  | true =>
    refine iff_of_true (fun p hp => ?_) (.inl rfl)
    unfold Receiver.touches at hp
    rw [if_pos hrefuses] at hp
    exact (not_mem_nil hp).elim
  | false =>
    have hsafe : dangerous name = false := by
      cases k with
      | recvParallel others => exact (Bool.or_eq_false_iff.mp hrefuses).1
      | recv _ | copy _ | syncFile | syncDelete => exact hrefuses
    have hout : outPath dest name ∈ k.touches dest name := by
      unfold Receiver.touches
      rw [hrefuses]
      cases k with
      | copy resume => cases resume <;> exact mem_cons_self
      | recv _ | recvParallel _ | syncFile | syncDelete => exact mem_cons_self
    have htouches : ∀ p ∈ k.touches dest name,
        p = outPath dest name ∨ ∃ idx, p = stagingPath dest name idx := by
      intro p hp
      unfold Receiver.touches at hp
      rw [hrefuses] at hp
      cases k with
      | recv idx =>
        rcases mem_pair.mp hp with rfl | rfl
        · exact .inl rfl
        · exact .inr ⟨idx, rfl⟩
      | copy resume =>
        cases resume with
        | false => exact .inl (mem_singleton.mp hp)
        | true =>
          rcases mem_pair.mp hp with rfl | rfl
          · exact .inl rfl
          · exact .inr ⟨none, rfl⟩
      | recvParallel _ | syncFile | syncDelete => exact .inl (mem_singleton.mp hp)
    rw [or_iff_right Bool.false_ne_true]
    constructor
    · intro h
      exact (below_outPath_iff hsafe).mp (h _ hout)
    · intro hne p hp
      rcases htouches p hp with rfl | ⟨idx, rfl⟩
      · exact (below_outPath_iff hsafe).mpr hne
      · exact below_stagingPath hsafe hne idx

/-- **A name that is staged next to the destination**: `recv` into `/x` takes the name `.` for a file,
and creates `/x.seam-partial`. And `a..b` is the name of a file that is refused. -/
theorem dot_staged_outside :
    (Receiver.recv none).touches [slash, 0x78] [dot]
        = [[slash, 0x78, slash, dot], [slash, 0x78] ++ partialSuffix] ∧
      ¬Below [slash, 0x78] ([slash, 0x78] ++ partialSuffix) ∧
      ∃ r : RelativePath, r.name = [0x61, dot, dot, 0x62] ∧ dangerous r.name = true := by
  refine ⟨by decide +kernel, ?_, ⟨[[0x61, dot, dot, 0x62]], by decide, by decide⟩, rfl, by decide +kernel⟩
  rintro ⟨-, parts, -, -, hparts⟩
  have hsegments : segments ([slash, 0x78] ++ partialSuffix) = [0x78 :: partialSuffix] := by
    decide +kernel
  have hdest : segments [slash, 0x78] = [[0x78]] := by decide +kernel
  rw [hsegments, hdest] at hparts
  cases hparts

end SeamProtocol
