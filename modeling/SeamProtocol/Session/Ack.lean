import SeamProtocol.Lib.Bytes
import SeamProtocol.Lib.SortedMap

/-! # Acknowledgement ranges

The receiver's record of packet numbers, the ACK frame built from it, and the sender's parser, whose one
sum that can wrap around is taken modulo `2 ^ 64`. -/

namespace SeamProtocol

open Lib List Option SortedMap

def ackRetainWindow : Nat := 8192

structure AckRanges where
  received : SortedMap Nat Unit
  largestReceivedAt : Option Nat
  largestReceived : Nat
  ackPending : Bool
  deriving DecidableEq

namespace AckRanges

def new : AckRanges := ⟨∅, none, 0, false⟩

def pruneBelow (a : AckRanges) (threshold : Nat) : AckRanges :=
  { a with received := a.received.filterKeys fun pn => threshold ≤ pn }

def onReceived (a : AckRanges) (pn : Nat) (ackEliciting : Bool) (now : Nat) : AckRanges :=
  let a := if a.largestReceived < pn ∨ a.received.entries.isEmpty then
      { a with largestReceived := pn, largestReceivedAt := some now }
    else a
  let a := { a with
    received := a.received.insert pn ()
    ackPending := if ackEliciting then true else a.ackPending }
  a.pruneBelow (a.largestReceived - ackRetainWindow)

def hasPendingAck (a : AckRanges) : Bool := a.ackPending

/-- The loop that forms contiguous ranges `(start, end)` from descending packet numbers, with the
range under construction. -/
def rangesLoop (curStart curEnd : Nat) : List Nat → List (Nat × Nat)
  | [] => [(curStart, curEnd)]
  | pn :: rest =>
    if pn + 1 = curStart then rangesLoop pn curEnd rest
    else (curStart, curEnd) :: rangesLoop pn pn rest

def descendingRanges : List Nat → List (Nat × Nat)
  | [] => []
  | largest :: rest => rangesLoop largest largest rest

def encodeRanges (prevStart : Nat) : List (Nat × Nat) → Bytes
  | [] => []
  | (start, stop) :: rest =>
    leBytes 8 (prevStart - stop - 1) ++ leBytes 8 (stop - start) ++ encodeRanges start rest

def frameOf (largest ackDelayUs : Nat) (ranges : List (Nat × Nat)) : Bytes :=
  match ranges with
  | [] => leBytes 8 0 ++ leBytes 8 0 ++ leBytes 2 0 ++ leBytes 8 0
  | first :: extra =>
    leBytes 8 largest ++ leBytes 8 ackDelayUs ++ leBytes 2 extra.length
      ++ leBytes 8 (first.2 - first.1) ++ encodeRanges first.1 extra

def ranges (a : AckRanges) : List (Nat × Nat) := descendingRanges a.received.keys.reverse

def buildFrame (a : AckRanges) (now : Nat) : Bytes × AckRanges :=
  let largest := a.received.keys.reverse.headD 0
  let ackDelayUs := match a.largestReceivedAt with
    | some t => (now - t) / 1000
    | none => 0
  (frameOf largest ackDelayUs a.ranges, { a with ackPending := false })

end AckRanges

/-! ## Parsing -/

def checkedSub (a b : Nat) : Option Nat := if b ≤ a then some (a - b) else none

def parseRanges : Nat → Nat → Bytes → Option (List (Nat × Nat))
  | _, 0, _ => some []
  | curStart, count + 1, frame =>
    if frame.length < 16 then none
    else do
      let gap := leNat (frame.take 8)
      let length := leNat ((frame.drop 8).take 8)
      let curEnd ← checkedSub curStart ((gap + 1) % 2 ^ 64)
      let curStart ← checkedSub curEnd length
      let rest ← parseRanges curStart count (frame.drop 16)
      return (curStart, curEnd) :: rest

def parseAckFrame (frame : Bytes) : Option (Nat × Nat × List (Nat × Nat)) :=
  if frame.length < 8 + 8 + 2 + 8 then none
  else do
    let largest := leNat (frame.take 8)
    let ackDelayUs := leNat ((frame.drop 8).take 8)
    let rangeCount := leNat ((frame.drop 16).take 2)
    let firstRangeLen := leNat ((frame.drop 18).take 8)
    let curStart := largest - firstRangeLen
    let rest ← parseRanges curStart rangeCount (frame.drop 26)
    return (largest, ackDelayUs, (curStart, largest) :: rest)

def Covers (ranges : List (Nat × Nat)) (pn : Nat) : Prop := ∃ r ∈ ranges, r.1 ≤ pn ∧ pn ≤ r.2

instance (ranges : List (Nat × Nat)) (pn : Nat) : Decidable (Covers ranges pn) :=
  inferInstanceAs (Decidable (∃ r ∈ ranges, r.1 ≤ pn ∧ pn ≤ r.2))

namespace AckRanges

/-! ## What is retained -/

variable (a : AckRanges)

theorem mem_onReceived (pn : Nat) (ackEliciting : Bool) (now k : Nat) :
    k ∈ (a.onReceived pn ackEliciting now).received.keys ↔
      (k = pn ∨ k ∈ a.received.keys) ∧
        (a.onReceived pn ackEliciting now).largestReceived - ackRetainWindow ≤ k := by
  have key : ∀ b : AckRanges, k ∈ ((({ b with
        received := b.received.insert pn ()
        ackPending := if ackEliciting then true else b.ackPending } : AckRanges)).pruneBelow
          (b.largestReceived - ackRetainWindow)).received.keys ↔
      (k = pn ∨ k ∈ b.received.keys) ∧ b.largestReceived - ackRetainWindow ≤ k := by
    intro b
    simp only [pruneBelow, mem_keys_iff, get?_filterKeys,
      get?_insert, decide_eq_true_eq]
    by_cases hk : b.largestReceived - ackRetainWindow ≤ k <;> by_cases hpn : k = pn <;>
      simp [hk, hpn]
  unfold onReceived
  split
  · exact key _
  · exact key _

theorem onReceived_largestReceived (pn : Nat) (ackEliciting : Bool) (now : Nat) :
    (a.onReceived pn ackEliciting now).largestReceived =
      if a.largestReceived < pn ∨ a.received.entries.isEmpty then pn else a.largestReceived := by
  unfold onReceived pruneBelow
  split <;> rfl

variable {pns : List Nat}

theorem isGreatest_foldr_max (hne : pns ≠ []) : IsGreatest {k | k ∈ pns} (pns.foldr max 0) := by
  induction pns with
  | nil => exact absurd rfl hne
  | cons pn rest ih =>
    have hset : {k | k ∈ pn :: rest} = insert pn {k | k ∈ rest} := by
      ext k
      simp
    rw [hset]
    by_cases hrest : rest = []
    · simp [hrest]
    · exact (ih hrest).insert pn

structure Retains (a : AckRanges) (pns : List Nat) : Prop where
  largest : a.largestReceived = pns.foldr max 0
  received : ∀ k, k ∈ a.received.keys ↔ k ∈ pns ∧ pns.foldr max 0 - ackRetainWindow ≤ k

theorem retains_new : AckRanges.new.Retains [] := ⟨rfl, fun _ => ⟨nofun, fun h => nomatch h.1⟩⟩

variable {a : AckRanges}

theorem Retains.onReceived (h : a.Retains pns) (pn : Nat) (ackEliciting : Bool) (now : Nat) :
    (a.onReceived pn ackEliciting now).Retains (pn :: pns) := by
  have hlargest : (a.onReceived pn ackEliciting now).largestReceived = max pn (pns.foldr max 0) := by
    rw [onReceived_largestReceived, h.largest]
    split_ifs with hcase
    · rcases hcase with hlt | hempty
      · exact (Nat.max_eq_left hlt.le).symm
      · -- the largest number is always retained
        have hnil : pns = [] := by
          by_contra hne
          have hin := (h.received _).mpr ⟨(isGreatest_foldr_max hne).1, Nat.sub_le _ _⟩
          rw [SortedMap.keys, isEmpty_iff.mp hempty] at hin
          cases hin
        rw [hnil]
        exact (Nat.max_zero _).symm
    · rw [not_or, not_lt] at hcase
      exact (Nat.max_eq_right hcase.1).symm
  refine ⟨hlargest, fun k => ?_⟩
  rw [mem_onReceived, hlargest, h.received, mem_cons, foldr_cons]
  refine and_congr_left fun hk => or_congr_right (and_iff_left ?_)
  exact (Nat.sub_le_sub_right (le_max_right _ _) _).trans hk

@[simp] theorem onReceived_ackPending (pn : Nat) (ackEliciting : Bool) (now : Nat) :
    (a.onReceived pn ackEliciting now).ackPending = (ackEliciting || a.ackPending) := by
  unfold onReceived pruneBelow
  cases ackEliciting <;> split <;> rfl

/-! ## Ranges -/

variable {curStart curEnd : Nat}

theorem covers_rangesLoop (hle : curStart ≤ curEnd) (pn : Nat) :
    Covers (rangesLoop curStart curEnd pns) pn ↔ (curStart ≤ pn ∧ pn ≤ curEnd) ∨ pn ∈ pns := by
  induction pns generalizing curStart curEnd with
  | nil => simp [rangesLoop, Covers]
  | cons q rest ih =>
    rw [rangesLoop]
    split_ifs with hq
    · rw [ih (by omega), mem_cons]
      constructor
      · rintro (h | h)
        · by_cases hqe : pn = q
          · exact .inr (.inl hqe)
          · exact .inl (by omega)
        · exact .inr (.inr h)
      · rintro (h | rfl | h)
        · exact .inl (by omega)
        · exact .inl (by omega)
        · exact .inr h
    · have hcons : Covers ((curStart, curEnd) :: rangesLoop q q rest) pn ↔
          (curStart ≤ pn ∧ pn ≤ curEnd) ∨ Covers (rangesLoop q q rest) pn := by
        simp [Covers]
      rw [hcons, ih le_rfl, mem_cons]
      have hqq : (q ≤ pn ∧ pn ≤ q) ↔ pn = q := by omega
      rw [hqq]

theorem covers_descendingRanges (pns : List Nat) (pn : Nat) :
    Covers (descendingRanges pns) pn ↔ pn ∈ pns := by
  cases pns with
  | nil => simp [descendingRanges, Covers]
  | cons q rest =>
    rw [descendingRanges, covers_rangesLoop le_rfl, mem_cons]
    have hqq : (q ≤ pn ∧ pn ≤ q) ↔ pn = q := by omega
    rw [hqq]

def Descending : Nat → List (Nat × Nat) → Prop
  | _, [] => True
  | prevStart, (start, stop) :: rest =>
    start ≤ stop ∧ stop + 1 < prevStart ∧ Descending start rest

theorem rangesLoop_eq_cons (hle : curStart ≤ curEnd) (hbelow : ∀ pn ∈ pns, pn < curStart)
    (hdesc : pns.Pairwise (· > ·)) :
    ∃ start extra, rangesLoop curStart curEnd pns = (start, curEnd) :: extra ∧
      start ≤ curStart ∧ Descending start extra ∧ extra.length ≤ pns.length := by
  induction pns generalizing curStart curEnd with
  | nil => exact ⟨curStart, [], rfl, le_rfl, trivial, le_rfl⟩
  | cons q rest ih =>
    rw [pairwise_cons] at hdesc
    have hq := hbelow q mem_cons_self
    rw [rangesLoop]
    split_ifs with hnext
    · obtain ⟨start, extra, heq, hs, hd, hl⟩ := @ih q curEnd (by omega) hdesc.1 hdesc.2
      exact ⟨start, extra, heq, by omega, hd, by rw [length_cons]; omega⟩
    · obtain ⟨start, extra, heq, hs, hd, hl⟩ := ih le_rfl hdesc.1 hdesc.2
      refine ⟨curStart, _, rfl, le_rfl, ?_, ?_⟩
      · rw [heq]
        exact ⟨hs, by omega, hd⟩
      · rw [heq, length_cons, length_cons]
        omega

variable {prevStart : Nat}

theorem Descending.lt {ranges : List (Nat × Nat)} (h : Descending prevStart ranges) {r : Nat × Nat}
    (hr : r ∈ ranges) : r.2 < prevStart := by
  induction ranges generalizing prevStart with
  | nil => cases hr
  | cons q rest ih =>
    obtain ⟨hle, hgap, hrest⟩ := h
    rcases mem_cons.mp hr with rfl | hr
    · exact Nat.lt_of_succ_lt hgap
    · have := ih hrest hr
      omega

theorem ranges_of_interval {lo hi : Nat} (hle : lo ≤ hi)
    (h : ∀ k, k ∈ a.received.keys ↔ lo ≤ k ∧ k ≤ hi) : a.ranges.length = 1 := by
  have hdesc : a.received.keys.reverse.Pairwise (· > ·) :=
    pairwise_reverse.mpr a.received.pairwise_keys
  have hcov : ∀ k, Covers a.ranges k ↔ lo ≤ k ∧ k ≤ hi := by
    intro k
    rw [← h k, ranges, covers_descendingRanges, mem_reverse]
  unfold ranges at hcov ⊢
  cases hkeys : a.received.keys.reverse with
  | nil =>
    have hmem := mem_reverse.mpr ((h lo).mpr ⟨le_rfl, hle⟩)
    rw [hkeys] at hmem
    cases hmem
  | cons largest rest =>
    rw [hkeys, pairwise_cons] at hdesc
    obtain ⟨start, extra, heq, hs, hd, -⟩ :=
      rangesLoop_eq_cons (le_refl largest) hdesc.1 hdesc.2
    have heq' : descendingRanges (largest :: rest) = (start, largest) :: extra := heq
    rw [hkeys, heq'] at hcov
    rw [heq']
    cases extra with
    | nil => rfl
    | cons r tail =>
      -- the number after the second range would be missing, although it lies in the interval
      obtain ⟨start', stop⟩ := r
      obtain ⟨hle', hgap, htail⟩ := hd
      have hstop := (hcov stop).mp ⟨(start', stop), by simp, hle', le_rfl⟩
      have hstart := (hcov start).mp ⟨(start, largest), by simp, le_rfl, hs⟩
      obtain ⟨r, hr, hlo, hhi⟩ := (hcov (stop + 1)).mpr ⟨by omega, by omega⟩
      rcases mem_cons.mp hr with rfl | hr
      · omega
      · rcases mem_cons.mp hr with rfl | hr
        · omega
        · have := htail.lt hr
          omega

/-! ## The frame reads back -/

@[simp] theorem length_encodeRanges (prevStart : Nat) (extra : List (Nat × Nat)) :
    (encodeRanges prevStart extra).length = 16 * extra.length := by
  induction extra generalizing prevStart with
  | nil => rfl
  | cons r rest ih =>
    simp only [encodeRanges, length_append, length_leBytes, ih, length_cons]
    omega

theorem length_buildFrame_le (now : Nat) :
    (a.buildFrame now).1.length ≤ 26 + 16 * (a.ranges.length - 1) := by
  unfold buildFrame frameOf
  cases a.ranges with
  | nil => simp
  | cons first extra =>
    simp only [length_append, length_leBytes, length_encodeRanges, length_cons]
    omega

variable {extra : List (Nat × Nat)}

theorem parseRanges_encodeRanges (hd : Descending prevStart extra) (hlt : prevStart < 2 ^ 64) :
    parseRanges prevStart extra.length (encodeRanges prevStart extra) = some extra := by
  induction extra generalizing prevStart with
  | nil => rfl
  | cons r rest ih =>
    obtain ⟨start, stop⟩ := r
    obtain ⟨hle, hgap, hrest⟩ := hd
    have hmod : ∀ n, n < 2 ^ 64 → leNat (leBytes 8 n) = n := fun n hn => by
      rw [leNat_leBytes]
      exact Nat.mod_eq_of_lt hn
    have htake : (encodeRanges prevStart ((start, stop) :: rest)).take 8
        = leBytes 8 (prevStart - stop - 1) := by
      simp [encodeRanges]
    have hdrop : (encodeRanges prevStart ((start, stop) :: rest)).drop 8
        = leBytes 8 (stop - start) ++ encodeRanges start rest := by
      simp [encodeRanges]
    have hdrop16 : (encodeRanges prevStart ((start, stop) :: rest)).drop 16
        = encodeRanges start rest := by
      rw [show 16 = 8 + 8 from rfl, ← drop_drop, hdrop, drop_left' (length_leBytes 8 _)]
    have hend : checkedSub prevStart ((prevStart - stop - 1 + 1) % 2 ^ 64) = some stop := by
      rw [Nat.mod_eq_of_lt (by omega), checkedSub, if_pos (by omega)]
      congr 1
      omega
    have hstart : checkedSub stop (stop - start) = some start := by
      rw [checkedSub, if_pos (by omega)]
      congr 1
      omega
    have hlen : ¬ (encodeRanges prevStart ((start, stop) :: rest)).length < 16 := by
      rw [length_encodeRanges, length_cons]
      omega
    rw [length_cons, parseRanges, if_neg hlen, htake, hdrop, hdrop16,
      take_left' (length_leBytes 8 _), hmod _ (by omega), hmod _ (by omega)]
    simp only [hend, hstart, ih hrest (by omega), Option.bind_eq_bind, Option.bind_some,
      Option.pure_def]

theorem parseAckFrame_frame {largest delay start : Nat} (hlargest : largest < 2 ^ 64)
    (hstart : start ≤ largest) (hd : Descending start extra) (hcount : extra.length < 2 ^ 16) :
    parseAckFrame (leBytes 8 largest ++ leBytes 8 delay ++ leBytes 2 extra.length
        ++ leBytes 8 (largest - start) ++ encodeRanges start extra)
      = some (largest, delay % 256 ^ 8, (start, largest) :: extra) := by
  set frame := leBytes 8 largest ++ leBytes 8 delay ++ leBytes 2 extra.length
    ++ leBytes 8 (largest - start) ++ encodeRanges start extra with hframe
  have hlen : ¬ frame.length < 8 + 8 + 2 + 8 := by
    simp only [hframe, length_append, length_leBytes, length_encodeRanges]
    omega
  have h8 : frame.take 8 = leBytes 8 largest := by
    simp [hframe]
  have h16 : (frame.drop 8).take 8 = leBytes 8 delay := by
    simp [hframe]
  have h18 : (frame.drop 16).take 2 = leBytes 2 extra.length := by
    simp [hframe, drop_append, drop_eq_nil_of_le]
  have h26 : (frame.drop 18).take 8 = leBytes 8 (largest - start) := by
    simp [hframe, drop_append, drop_eq_nil_of_le]
  have hrest : frame.drop 26 = encodeRanges start extra := by
    simp [hframe, drop_append, drop_eq_nil_of_le]
  have hfirst : largest - (largest - start) % 256 ^ 8 = start := by
    omega
  rw [parseAckFrame, if_neg hlen, h8, h16, h18, h26, hrest]
  simp only [leNat_leBytes, hfirst, Nat.mod_eq_of_lt (show largest < 256 ^ 8 from hlargest),
    Nat.mod_eq_of_lt (show extra.length < 256 ^ 2 from hcount),
    parseRanges_encodeRanges hd (by omega), Option.bind_eq_bind, Option.bind_some, Option.pure_def]

/-- **The parser inverts the builder** on every nonempty record of 64-bit numbers whose further
ranges the 16-bit count can express. -/
theorem parseAckFrame_buildFrame (hne : a.received.keys ≠ [])
    (hlt : ∀ pn ∈ a.received.keys, pn < 2 ^ 64) (hcount : a.ranges.length ≤ 2 ^ 16) (now : Nat) :
    ∃ largest delay, parseAckFrame (a.buildFrame now).1 = some (largest, delay, a.ranges) ∧
      ∃ start extra, a.ranges = (start, largest) :: extra ∧ start ≤ largest ∧ Descending start extra := by
  have hdesc : a.received.keys.reverse.Pairwise (· > ·) :=
    pairwise_reverse.mpr a.received.pairwise_keys
  unfold buildFrame
  dsimp only
  generalize (match a.largestReceivedAt with
    | some t => (now - t) / 1000
    | none => 0) = delay
  unfold ranges at hcount ⊢
  cases hkeys : a.received.keys.reverse with
  | nil => exact absurd (reverse_eq_nil_iff.mp hkeys) hne
  | cons largest rest =>
    rw [hkeys, pairwise_cons] at hdesc
    rw [hkeys] at hcount
    have hlargest : largest < 2 ^ 64 :=
      hlt largest (mem_reverse.mp (hkeys ▸ mem_cons_self))
    obtain ⟨start, extra, heq, hs, hd, -⟩ :=
      rangesLoop_eq_cons (le_refl largest) hdesc.1 hdesc.2
    have heq' : descendingRanges (largest :: rest) = (start, largest) :: extra := heq
    rw [heq', length_cons] at hcount
    refine ⟨largest, delay % 256 ^ 8, ?_, start, extra, heq', hs, hd⟩
    rw [heq', headD_cons, frameOf]
    exact parseAckFrame_frame hlargest (by omega) hd (by omega)

end AckRanges

end SeamProtocol
