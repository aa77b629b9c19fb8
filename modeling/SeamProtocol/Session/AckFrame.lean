import SeamProtocol.Session.Ack

/-! # ACK frames that were built, and any others

A frame that was built reads back as the maximal runs of what is retained. A frame from the network has
gaps and lengths of its own choice: the parser refuses what goes below zero, except that it adds one to
a gap without looking, and does not look at the first length at all. -/

namespace SeamProtocol

open Lib List Option

namespace AckRanges

/-! ## Any calls -/

structure Receipt where
  pn : UInt64
  ackEliciting : Bool
  now : Nat

def numbers (calls : List Receipt) : List Nat := calls.map (·.pn.toNat)

def receiveAll (calls : List Receipt) : AckRanges :=
  calls.foldl (fun a call => a.onReceived call.pn.toNat call.ackEliciting call.now) .new

theorem retains_receiveAll (calls : List Receipt) : (receiveAll calls).Retains (numbers calls).reverse := by
  induction calls using List.reverseRecOn with
  | nil => exact retains_new
  | append_singleton calls call ih =>
    simpa [receiveAll, numbers] using ih.onReceived _ _ _

theorem length_rangesLoop (curStart curEnd : Nat) (pns : List Nat) :
    (rangesLoop curStart curEnd pns).length ≤ pns.length + 1 := by
  induction pns generalizing curStart curEnd with
  | nil => exact Nat.le_refl 1
  | cons pn rest ih =>
    rw [rangesLoop]
    split_ifs
    · exact (ih pn curEnd).trans (Nat.le_succ _)
    · exact Nat.succ_le_succ (ih pn pn)

theorem length_ranges_le {a : AckRanges} {largest : Nat}
    (h : ∀ k ∈ a.received.keys, largest - ackRetainWindow ≤ k ∧ k ≤ largest) :
    a.ranges.length ≤ ackRetainWindow + 1 := by
  have hsub : a.received.keys ⊆ List.range' (largest - ackRetainWindow) (ackRetainWindow + 1) := by
    intro k hk
    obtain ⟨hlow, hhigh⟩ := h k hk
    rw [mem_range'_1]
    omega
  have hkeys := (subperm_of_subset a.received.nodup_keys hsub).length_le
  rw [length_range'] at hkeys
  refine le_trans ?_ hkeys
  unfold ranges
  rw [← a.received.keys.length_reverse]
  cases a.received.keys.reverse with
  | nil => exact Nat.le_refl 0
  | cons largest rest => exact length_rangesLoop largest largest rest

/-! ## Maximal runs -/

structure MaximalRuns (ranges : List (Nat × Nat)) (S : Nat → Prop) : Prop where
  proper : ∀ r ∈ ranges, r.1 ≤ r.2
  /-- Each lies below the one before it, and at least one number is missing in between. -/
  separated : ranges.Pairwise fun r r' => r'.2 + 1 < r.1
  covers : ∀ k, Covers ranges k ↔ S k
  maximal : ∀ r ∈ ranges, ¬ S (r.2 + 1) ∧ ∀ k, k + 1 = r.1 → ¬ S k

theorem Descending.separated {start : Nat} {extra : List (Nat × Nat)} (h : Descending start extra) :
    (∀ r ∈ extra, r.1 ≤ r.2 ∧ r.2 + 1 < start) ∧ extra.Pairwise fun r r' => r'.2 + 1 < r.1 := by
  induction extra generalizing start with
  | nil => exact ⟨nofun, .nil⟩
  | cons q rest ih =>
    obtain ⟨hle, hgap, hrest⟩ := h
    obtain ⟨hbelow, hpairs⟩ := ih hrest
    refine ⟨?_, pairwise_cons.mpr ⟨fun r hr => (hbelow r hr).2, hpairs⟩⟩
    rintro r (_ | ⟨_, hr⟩)
    · exact ⟨hle, hgap⟩
    · obtain ⟨hproper, hlt⟩ := hbelow r hr
      exact ⟨hproper, by omega⟩

variable {ranges : List (Nat × Nat)}

theorem maximalRuns_of_separated {S : Nat → Prop} (hproper : ∀ r ∈ ranges, r.1 ≤ r.2)
    (hpairs : ranges.Pairwise fun r r' => r'.2 + 1 < r.1) (hcovers : ∀ k, Covers ranges k ↔ S k) :
    MaximalRuns ranges S := by
  have hsymm : ranges.Pairwise fun r r' => r'.2 + 1 < r.1 ∨ r.2 + 1 < r'.1 := hpairs.imp .inl
  have : Std.Symm fun r r' : Nat × Nat => r'.2 + 1 < r.1 ∨ r.2 + 1 < r'.1 := ⟨fun _ _ => Or.symm⟩
  -- what is next to a range and in the set is in the range
  have hnext : ∀ r ∈ ranges, ∀ k, r.1 ≤ k + 1 → k ≤ r.2 + 1 → S k → r.1 ≤ k ∧ k ≤ r.2 := by
    intro r hr k hlow hhigh hk
    obtain ⟨r', hr', hlow', hhigh'⟩ := (hcovers k).mpr hk
    rcases eq_or_ne r r' with rfl | hne
    · exact ⟨hlow', hhigh'⟩
    · have := hsymm.forall hr hr' hne
      omega
  refine ⟨hproper, hpairs, hcovers, fun r hr => ⟨fun hk => ?_, fun k heq hk => ?_⟩⟩
  · have := (hnext r hr _ ((hproper r hr).trans (by omega)) le_rfl hk).2
    omega
  · have := (hnext r hr k heq.ge (by have := hproper r hr; omega) hk).1
    omega

/-- **A frame reads back**: after any calls of `on_received`, the parser gives the largest number, and the
maximal runs of the numbers at most 8192 below it; and building the frame has not changed the record. -/
theorem ack_frame_round_trip (calls : List Receipt) (now : Nat) {largest : Nat}
    (hlargest : IsGreatest {k | k ∈ numbers calls} largest) :
    ∃ delay ranges, parseAckFrame ((receiveAll calls).buildFrame now).1
        = some (largest, delay, ranges) ∧
      MaximalRuns ranges (fun k => k ∈ numbers calls ∧ largest - ackRetainWindow ≤ k) ∧
      ((receiveAll calls).buildFrame now).2.received = (receiveAll calls).received := by
  have hmem := (retains_receiveAll calls).received
  have hne : (numbers calls).reverse ≠ [] := ne_nil_of_mem (mem_reverse.mpr hlargest.1)
  have hgreatest := isGreatest_foldr_max hne
  simp only [mem_reverse] at hmem hgreatest
  rw [hgreatest.unique hlargest] at hmem
  have hkey : largest ∈ (receiveAll calls).received.keys :=
    (hmem largest).mpr ⟨hlargest.1, Nat.sub_le _ _⟩
  have hbounds : ∀ k ∈ (receiveAll calls).received.keys, largest - ackRetainWindow ≤ k ∧ k ≤ largest :=
    fun k hk => ⟨((hmem k).mp hk).2, hlargest.2 ((hmem k).mp hk).1⟩
  have hlt : ∀ k ∈ (receiveAll calls).received.keys, k < 2 ^ 64 := by
    intro k hk
    obtain ⟨call, -, rfl⟩ := mem_map.mp ((hmem k).mp hk).1
    exact call.pn.toNat_lt
  obtain ⟨top, delay, hparse, start, extra, hranges, hstart, hdesc⟩ :=
    parseAckFrame_buildFrame (ne_nil_of_mem hkey) hlt
      ((length_ranges_le hbounds).trans (by decide)) now
  have hcovers : ∀ k, Covers (receiveAll calls).ranges k ↔ k ∈ (receiveAll calls).received.keys := by
    intro k
    rw [ranges, covers_descendingRanges, mem_reverse]
  obtain ⟨hbelow, hpairs⟩ := hdesc.separated
  rw [hranges] at hcovers
  -- the first range ends at the largest number
  have htop : top = largest := by
    have hin := (hbounds top ((hcovers top).mp ⟨_, mem_cons_self, hstart, le_rfl⟩)).2
    obtain ⟨r, hr, -, hle⟩ := (hcovers largest).mpr hkey
    rcases mem_cons.mp hr with rfl | hr
    · exact hin.antisymm hle
    · have := (hbelow r hr).2
      omega
  subst htop
  refine ⟨delay, _, hparse, ?_, rfl⟩
  rw [hranges]
  refine maximalRuns_of_separated ?_ ?_ fun k => (hcovers k).trans (hmem k)
  · exact forall_mem_cons.mpr ⟨hstart, fun r hr => (hbelow r hr).1⟩
  · exact pairwise_cons.mpr ⟨fun r hr => (hbelow r hr).2, hpairs⟩

/-- Two packets with one missing in between, and one that is too old. -/
theorem ack_frame_round_trip_gap :
    ∃ delay ranges, parseAckFrame ((receiveAll [⟨9000, true, 0⟩, ⟨9002, true, 1⟩, ⟨7, true, 2⟩]).buildFrame
        3).1 = some (9002, delay, ranges) ∧ Covers ranges 9000 ∧ ¬ Covers ranges 7 := by
  obtain ⟨delay, ranges, hparse, hruns, -⟩ :=
    ack_frame_round_trip [⟨9000, true, 0⟩, ⟨9002, true, 1⟩, ⟨7, true, 2⟩] 3
      (show IsGreatest _ 9002 by simp [numbers, IsGreatest, mem_upperBounds])
  refine ⟨delay, ranges, hparse, (hruns.covers _).mpr ?_, fun h => ?_⟩
  · exact ⟨by decide, by decide⟩
  · exact absurd ((hruns.covers _).mp h).2 (by decide)

/-! ## Any frame -/

/-- The sum `gap + 1` overflows in a round of the loop over the pairs. -/
def gapOverflows : Nat → Nat → Bytes → Bool
  | _, 0, _ => false
  | curStart, count + 1, frame =>
    if frame.length < 16 then false
    else
      let gap := leNat (frame.take 8)
      let length := leNat ((frame.drop 8).take 8)
      gap + 1 = 2 ^ 64 || (gap + 1 + length ≤ curStart &&
        gapOverflows (curStart - (gap + 1 + length)) count (frame.drop 16))

def announced : Nat → Bytes → Nat
  | 0, _ => 0
  | count + 1, frame =>
    leNat (frame.take 8) + 1 + leNat ((frame.drop 8).take 8) + announced count (frame.drop 16)

def rangeCount (frame : Bytes) : Nat := leNat ((frame.drop 16).take 2)

def firstRangeLen (frame : Bytes) : Nat := leNat ((frame.drop 18).take 8)

def overflows (frame : Bytes) : Bool :=
  26 ≤ frame.length &&
    gapOverflows (leNat (frame.take 8) - firstRangeLen frame) (rangeCount frame) (frame.drop 26)

structure Robust (frame : Bytes) : Prop where
  fits : overflows frame = false
  /-- The ranges of a frame are not empty, end at the largest number or below it, and lie below one
  another; the first has the length that is announced; and nothing went below zero. -/
  sound : ∀ {largest delay ranges}, parseAckFrame frame = some (largest, delay, ranges) →
    (∀ r ∈ ranges, r.1 ≤ r.2 ∧ r.2 ≤ largest) ∧ ranges.Pairwise (fun r r' => r'.2 < r.1) ∧
    (∃ start, ranges.head? = some (start, largest) ∧ start + firstRangeLen frame = largest) ∧
    firstRangeLen frame + announced (rangeCount frame) (frame.drop 26) ≤ largest

theorem checkedSub_eq_some {a b c : Nat} (h : checkedSub a b = some c) : c + b = a := by
  obtain ⟨hle, heq⟩ := ite_none_right_eq_some.mp h
  cases heq
  exact Nat.sub_add_cancel hle

theorem parseRanges_sound {curStart count : Nat} {frame : Bytes}
    (hfits : gapOverflows curStart count frame = false)
    (h : parseRanges curStart count frame = some ranges) :
    (∀ r ∈ ranges, r.1 ≤ r.2 ∧ r.2 < curStart) ∧ ranges.Pairwise (fun r r' => r'.2 < r.1) ∧
      announced count frame ≤ curStart := by
  induction count generalizing curStart frame ranges with
  | zero =>
    cases h
    exact ⟨nofun, .nil, Nat.zero_le _⟩
  | succ count ih =>
    rw [gapOverflows] at hfits
    obtain ⟨hlen, h⟩ := ite_none_left_eq_some.mp h
    rw [if_neg hlen] at hfits
    obtain ⟨curEnd, hend, h⟩ := bind_eq_some_iff.mp h
    obtain ⟨start, hstart, h⟩ := bind_eq_some_iff.mp h
    obtain ⟨rest, hrest, h⟩ := bind_eq_some_iff.mp h
    cases h
    simp only [Bool.or_eq_false_iff, decide_eq_false_iff_not, Bool.and_eq_false_imp,
      decide_eq_true_eq] at hfits
    have hgap : leNat (frame.take 8) < 256 ^ 8 := by
      have := leNat_lt (frame.take 8)
      rwa [length_take, Nat.min_eq_left (by omega)] at this
    have hend := checkedSub_eq_some hend
    have hstart := checkedSub_eq_some hstart
    have hnext : curStart - (leNat (frame.take 8) + 1 + leNat ((frame.drop 8).take 8)) = start := by
      omega
    have hfits := hfits.2 (by omega)
    rw [hnext] at hfits
    obtain ⟨hall, hpairs, hsum⟩ := ih hfits hrest
    refine ⟨forall_mem_cons.mpr ⟨by omega, fun r hr => ?_⟩,
      pairwise_cons.mpr ⟨fun r hr => (hall r hr).2, hpairs⟩, ?_⟩
    · obtain ⟨hproper, hlt⟩ := hall r hr
      exact ⟨hproper, by omega⟩
    · rw [announced]
      omega

/-- **Parsing is robust if no gap that is read is `2 ^ 64 - 1`**, and the first length of a frame without
pairs is not larger than its number; and only then. -/
theorem robust_iff (frame : Bytes) :
    Robust frame ↔ overflows frame = false ∧
      (26 ≤ frame.length → rangeCount frame = 0 → firstRangeLen frame ≤ leNat (frame.take 8)) := by
  constructor
  · intro h
    refine ⟨h.fits, fun hlen hcount => ?_⟩
    have hparse : parseAckFrame frame = some (leNat (frame.take 8), leNat ((frame.drop 8).take 8),
        [(leNat (frame.take 8) - firstRangeLen frame, leNat (frame.take 8))]) := by
      rw [rangeCount] at hcount
      rw [parseAckFrame, if_neg (Nat.not_lt.mpr hlen), hcount]
      rfl
    obtain ⟨-, -, -, hle⟩ := h.sound hparse
    exact (Nat.le_add_right _ _).trans hle
  · rintro ⟨hfits, hfirst⟩
    refine ⟨hfits, fun {largest delay ranges} h => ?_⟩
    obtain ⟨hlen, h⟩ := ite_none_left_eq_some.mp h
    have hlen : 26 ≤ frame.length := Nat.not_lt.mp hlen
    rw [overflows, decide_eq_true hlen, Bool.true_and] at hfits
    obtain ⟨rest, hrest, h⟩ := bind_eq_some_iff.mp h
    cases h
    obtain ⟨hall, hpairs, hsum⟩ := parseRanges_sound hfits hrest
    have hle : firstRangeLen frame ≤ leNat (frame.take 8) := by
      cases hcount : rangeCount frame with
      | zero => exact hfirst hlen hcount
      | succ count =>
        rw [hcount, announced] at hsum
        omega
    refine ⟨forall_mem_cons.mpr ⟨⟨Nat.sub_le _ _, le_rfl⟩, fun r hr => ?_⟩,
      pairwise_cons.mpr ⟨fun r hr => (hall r hr).2, hpairs⟩, ⟨_, rfl, Nat.sub_add_cancel hle⟩, ?_⟩
    · obtain ⟨hproper, hlt⟩ := hall r hr
      exact ⟨hproper, hlt.le.trans (Nat.sub_le _ _)⟩
    · omega

/-- **Frames that are not refused**: a gap of `2 ^ 64 - 1`, which gives the same range twice, and a first
length that goes below zero. -/
theorem unsound_ack_frames :
    (let frame := leBytes 8 5 ++ leBytes 8 0 ++ leBytes 2 1 ++ leBytes 8 0 ++ leBytes 8 (2 ^ 64 - 1)
       ++ leBytes 8 0
     parseAckFrame frame = some (5, 0, [(5, 5), (5, 5)]) ∧ ¬ Robust frame) ∧
    (let frame := leBytes 8 3 ++ leBytes 8 0 ++ leBytes 2 0 ++ leBytes 8 4
     parseAckFrame frame = some (3, 0, [(0, 3)]) ∧ ¬ Robust frame) := by
  have hthree : parseAckFrame (leBytes 8 3 ++ leBytes 8 0 ++ leBytes 2 0 ++ leBytes 8 4)
      = some (3, 0, [(0, 3)]) := by
    decide +kernel
  refine ⟨⟨by decide +kernel, fun h => ?_⟩, hthree, fun h => ?_⟩
  · exact absurd h.fits (by decide +kernel)
  · exact absurd (h.sound hthree).2.2.2 (by decide +kernel)

end AckRanges

end SeamProtocol
