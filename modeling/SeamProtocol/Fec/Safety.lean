import SeamProtocol.Fec.Codec
import SeamProtocol.Lib.Run

/-! # The decoder on arbitrary packets

The decoder counts the packets of a group in a byte, takes a source with any index for a source of the
group, and stores packets with the length of the longest one so far. -/

namespace SeamProtocol

open Lib List Option SortedMap GroupState UInt8

/-! ## Packets -/

inductive FecEvent where
  | source (groupId : UInt32) (sourceIdx k r : UInt8) (data : Symbol)
  | repair (buf : Bytes)
  deriving DecidableEq

def FecEvent.group : FecEvent → Nat
  | .source groupId .. => groupId.toNat
  | .repair buf =>
    match FecRepairData.fromBytes buf with
    | none => 0
    | some rep => rep.groupId.toNat

/-- A packet of the given length has room in the group: it is not longer than the longest one, and its
packets can be counted in a byte. -/
def GroupState.HasRoom (g : GroupState) (len : Nat) : Prop :=
  len ≤ g.paddedLen ∧ g.sources.size + g.repairs.size < 255

instance (g : GroupState) (len : Nat) : Decidable (g.HasRoom len) :=
  inferInstanceAs (Decidable (_ ∧ _))

namespace FecDecoder

def groupOfSource (d : FecDecoder) (groupId : UInt32) (k r : UInt8) (data : Symbol) : GroupState :=
  (d.groups.get? groupId.toNat).getD (GroupState.new k r data.length)

def groupOfRepair (d : FecDecoder) (rep : FecRepairData) : GroupState :=
  (d.groups.get? rep.groupId.toNat).getD (GroupState.new rep.k rep.r rep.paddedLen.toNat)

def receive (d : FecDecoder) : FecEvent → Option (Option Recovered × FecDecoder)
  | .source groupId sourceIdx k r data => d.addSource groupId sourceIdx k r data
  | .repair buf =>
    match FecRepairData.fromBytes buf with
    | none => some (none, d)
    | some rep => d.addRepair rep

def step (d : FecDecoder) (ev : FecEvent) : Option FecDecoder := (d.receive ev).map Prod.snd

/-- The packet fits its group: the group is recovered, or the packet has room in it and, if it is a
source, an index below `k`. -/
def fits (d : FecDecoder) : FecEvent → Prop
  | .source groupId sourceIdx k r data =>
    let g := d.groupOfSource groupId k r data
    g.recovered = true ∨ g.HasRoom data.length ∧ sourceIdx < g.k
  | .repair buf => ∀ rep ∈ FecRepairData.fromBytes buf,
    (d.groupOfRepair rep).recovered = true ∨ (d.groupOfRepair rep).HasRoom rep.paddedLen.toNat

instance (d : FecDecoder) : ∀ ev, Decidable (d.fits ev)
  | .source .. => inferInstanceAs (Decidable (_ ∨ _ ∧ _))
  | .repair buf => inferInstanceAs (Decidable (∀ rep ∈ FecRepairData.fromBytes buf, _ ∨ _))

end FecDecoder

/-! ## Groups -/

namespace GroupState

structure Sane (g : GroupState) : Prop where
  source : ∀ i data, g.sources.get? i = some data → i < g.k.toNat ∧ data.length = g.paddedLen
  repair : ∀ i data, g.repairs.get? i = some data → data.length = g.paddedLen

def Complete (g : GroupState) (list : Recovered) : Prop :=
  ∀ i < g.k.toNat, (list.map Prod.fst).count i = if (g.sources.get? i).isSome then 0 else 1

variable {g : GroupState}

theorem count_missing {i : Nat} (hi : i < g.k.toNat) :
    g.missing.count i = if (g.sources.get? i).isSome then 0 else 1 := by
  have hnodup : g.missing.Nodup := nodup_range.filter _
  by_cases hs : (g.sources.get? i).isSome
  · rw [if_pos hs, count_eq_zero]
    intro hmem
    have hnone := (mem_filter.mp hmem).2
    rw [isNone_iff_eq_none] at hnone
    rw [hnone] at hs
    cases hs
  · rw [if_neg hs]
    refine count_eq_one_of_mem hnodup (mem_filter.mpr ⟨mem_range.mpr hi, ?_⟩)
    rw [not_isSome_iff_eq_none] at hs
    rw [hs]
    rfl

/-- **The equations of a group with packets of one length can be solved**, or are found not to have a
solution. -/
theorem Sane.solve (h : g.Sane) (henough : g.missing.length ≤ g.repairs.size) :
    g.solve = some (none, g) ∨
    ∃ list, g.solve = some (some list, { g with recovered := true }) ∧ g.Complete list := by
  unfold GroupState.solve
  rw [if_neg (not_not.mpr (length_take_keys henough))]
  split
  · exact .inl rfl
  · next rows hrows =>
      have huniform : (⟨fun i => (rows i).1, fun i => (rows i).2⟩ : System Gf g.k.toNat).Uniform
          g.paddedLen := by
        intro i
        rcases row_rhs (collect_eq_some.mp hrows i) with ⟨j, hj⟩ | ⟨j, hj⟩
        · exact (h.source j _ hj).2
        · exact h.repair j _ hj
      have hne := System.eliminate_ne_none huniform
      split
      · next hnone => exact absurd hnone hne
      · exact .inl rfl
      · refine .inr ⟨_, rfl, fun i hi => ?_⟩
        rw [List.map_map]
        exact (congrArg (List.count i) (List.map_id _)).trans (count_missing hi)

/-- **An attempt to recover such a group** does not panic, and succeeds only with all sources. -/
theorem Sane.tryRecover (h : g.Sane) (hfew : g.sources.size + g.repairs.size ≤ 255) :
    g.tryRecover = some (none, g) ∨
    ∃ list, g.tryRecover = some (some list, { g with recovered := true }) ∧ g.Complete list := by
  have hsrc : (ofNat g.sources.size).toNat = g.sources.size :=
    toNat_ofNat_of_lt' (by show _ < 256; omega)
  have hrep : (ofNat g.repairs.size).toNat = g.repairs.size :=
    toNat_ofNat_of_lt' (by show _ < 256; omega)
  have hmissing : g.missing.length ≤ g.k.toNat := by
    have := length_filter_le (fun i => (g.sources.get? i).isNone) (List.range g.k.toNat)
    rw [length_range] at this
    exact this
  unfold GroupState.tryRecover
  dsimp only
  split
  · exact .inl rfl
  split
  · next hall =>
      refine .inr ⟨[], rfl, fun i hi => ?_⟩
      have hsize : g.sources.size = g.k.toNat := by rw [← hall, hsrc]
      simp [get?_isSome_of_size_eq (fun i a ha => (h.source i a ha).1) hsize hi]
  rw [if_neg (by omega)]
  split
  · exact .inl rfl
  split
  · exact .inl rfl
  · next henough =>
      refine h.solve ?_
      rw [lt_iff_toNat_lt, hrep, toNat_ofNat_of_lt' (by show _ < 256; omega)] at henough
      omega

theorem sane_new (k r : UInt8) (paddedLen : Nat) : (new k r paddedLen).Sane :=
  ⟨nofun, nofun⟩

theorem Sane.withSource (h : g.Sane) {sourceIdx : UInt8} {data : Symbol}
    (hlen : data.length ≤ g.paddedLen) (hidx : sourceIdx < g.k) :
    (g.withSource sourceIdx data).Sane := by
  unfold GroupState.withSource
  rw [max_eq_left hlen]
  refine ⟨fun i data' hi => ?_, h.repair⟩
  rw [get?_insert] at hi
  split_ifs at hi with heq
  · cases hi
    rw [heq]
    exact ⟨hidx, length_resize _ _⟩
  · exact h.source i data' hi

theorem Sane.withRepair (h : g.Sane) {rep : FecRepairData}
    (hlen : rep.paddedLen.toNat ≤ g.paddedLen) : (g.withRepair rep).Sane := by
  unfold GroupState.withRepair
  rw [max_eq_left hlen]
  refine ⟨h.source, fun i data' hi => ?_⟩
  rw [get?_insert] at hi
  split_ifs at hi with heq
  · cases hi
    exact length_resize _ _
  · exact h.repair i data' hi

end GroupState

/-! ## The decoder -/

namespace FecDecoder

def Sane (d : FecDecoder) : Prop :=
  ∀ id g, d.groups.get? id = some g → g.recovered = true ∨ g.Sane

theorem sane_new : new.Sane := nofun

variable {d : FecDecoder}

theorem Sane.group (h : d.Sane) (id : Nat) (k r : UInt8) (len : Nat) :
    ((d.groups.get? id).getD (GroupState.new k r len)).recovered = true ∨
      ((d.groups.get? id).getD (GroupState.new k r len)).Sane := by
  cases hg : d.groups.get? id with
  | none => exact .inr (GroupState.sane_new k r len)
  | some g => exact h id g hg

def Safe (group : Nat) (call : Option (Option Recovered × FecDecoder)) : Prop :=
  ∃ res d', call = some (res, d') ∧ d'.Sane ∧ ∀ list, res = some list →
    ∀ g, d'.groups.get? group = some g → g.Complete list

theorem Sane.update (h : d.Sane) {groupId : UInt32} {g : GroupState}
    (hg : g.recovered = true ∨ g.Sane ∧ g.sources.size + g.repairs.size ≤ 255) :
    Safe groupId.toNat (d.update groupId g) := by
  have hinsert : ∀ g', (g'.recovered = true ∨ g'.Sane) →
      (⟨d.groups.insert groupId.toNat g'⟩ : FecDecoder).Sane := by
    intro g' hg' id g'' hget
    rw [get?_insert] at hget
    split_ifs at hget
    · cases hget
      exact hg'
    · exact h id g'' hget
  unfold Safe FecDecoder.update
  rcases hg with hrec | ⟨hsane, hfew⟩
  · rw [tryRecover_of_recovered hrec]
    exact ⟨none, _, rfl, hinsert g (.inl hrec), nofun⟩
  · rcases hsane.tryRecover hfew with hnone | ⟨list, hsome, hcomplete⟩
    · rw [hnone]
      exact ⟨none, _, rfl, hinsert g (.inr hsane), nofun⟩
    · rw [hsome]
      refine ⟨some list, _, rfl, hinsert _ (.inl rfl), fun list' hlist g' hg' => ?_⟩
      cases hlist
      rw [get?_insert_self] at hg'
      cases hg'
      exact hcomplete

theorem Sane.receive (h : d.Sane) {ev : FecEvent} (hfits : d.fits ev) :
    Safe ev.group (d.receive ev) := by
  cases ev with
  | source groupId sourceIdx k r data =>
    refine h.update ?_
    rcases hfits with hrec | ⟨⟨hlen, hfew⟩, hidx⟩
    · exact .inl hrec
    · rcases h.group groupId.toNat k r data.length with hrec | hsane
      · exact .inl hrec
      · refine .inr ⟨hsane.withSource hlen hidx, ?_⟩
        have hsize := size_insert_le (d.groupOfSource groupId k r data).sources
          sourceIdx.toNat (resize data (max (d.groupOfSource groupId k r data).paddedLen data.length))
        have hnew : ((d.groupOfSource groupId k r data).withSource sourceIdx data).sources.size
            + (d.groupOfSource groupId k r data).repairs.size ≤ 255 := by
          unfold withSource
          dsimp only
          omega
        exact hnew
  | repair buf =>
    simp only [FecDecoder.receive, FecEvent.group]
    cases hrep : FecRepairData.fromBytes buf with
    | none => exact ⟨none, d, rfl, h, nofun⟩
    | some rep =>
      refine h.update ?_
      rcases hfits rep hrep with hrec | ⟨hlen, hfew⟩
      · exact .inl hrec
      · rcases h.group rep.groupId.toNat rep.k rep.r rep.paddedLen.toNat with hrec | hsane
        · exact .inl hrec
        · refine .inr ⟨hsane.withRepair hlen, ?_⟩
          have hsize := size_insert_le (d.groupOfRepair rep).repairs
            rep.repairIdx.toNat (resize rep.data (max (d.groupOfRepair rep).paddedLen
              rep.paddedLen.toNat))
          have hnew : (d.groupOfRepair rep).sources.size
              + ((d.groupOfRepair rep).withRepair rep).repairs.size ≤ 255 := by
            unfold withRepair
            dsimp only
            omega
          exact hnew

end FecDecoder

/-- **The decoder is safe on packets that fit their groups.** After any packets each of which was one of
a recovered group, or not longer than its group's longest packet, among at most 255 and, as a source,
with an index below `k`, no such packet makes a call panic; and if it recovers its group, every index
below `k` is that of a source of the group or is listed once. -/
theorem decoder_safe_of_fits {evs : List FecEvent}
    (hok : Meets FecDecoder.step FecDecoder.fits .new evs) :
    ∃ d, exec FecDecoder.step .new evs = some d ∧ ∀ ev, d.fits ev →
      ∃ res d', d.receive ev = some (res, d') ∧ ∀ list, res = some list →
        ∀ g, d'.groups.get? ev.group = some g → ∀ i < g.k.toNat,
          (list.map Prod.fst).count i = if (g.sources.get? i).isSome then 0 else 1 := by
  have hstep : ∀ d ev, FecDecoder.Sane d → d.fits ev → ∃ d', d.step ev = some d' ∧ d'.Sane := by
    intro d ev h hfits
    obtain ⟨res, d', heq, hsane, -⟩ := h.receive hfits
    refine ⟨d', ?_, hsane⟩
    unfold FecDecoder.step
    rw [heq]
    rfl
  obtain ⟨d, hrun, hsane⟩ := exec_total_of_meets FecDecoder.Sane hstep FecDecoder.sane_new hok
  refine ⟨d, hrun, fun ev hfits => ?_⟩
  obtain ⟨res, d', heq, -, hcomplete⟩ := hsane.receive hfits
  exact ⟨res, d', heq, hcomplete⟩

/-! ## Concrete packets -/

def oneByteSource (sourceIdx : UInt8) : FecEvent := .source 1 sourceIdx 2 1 [Gf.ofNat 7]

/-- After the first source the second one fits, and is safe. -/
theorem decoder_safe_two_sources :
    ∃ d, exec FecDecoder.step .new [oneByteSource 0] = some d ∧ d.fits (oneByteSource 1) ∧
      ∃ res d', d.receive (oneByteSource 1) = some (res, d') ∧ ∀ list, res = some list →
        ∀ g, d'.groups.get? 1 = some g → ∀ i < g.k.toNat,
          (list.map Prod.fst).count i = if (g.sources.get? i).isSome then 0 else 1 := by
  obtain ⟨d, hrun, hnext⟩ := decoder_safe_of_fits
    (show Meets FecDecoder.step FecDecoder.fits .new [oneByteSource 0] by decide +kernel)
  obtain ⟨d', hrun', hfits⟩ : ∃ d, exec FecDecoder.step .new [oneByteSource 0] = some d ∧
      d.fits (oneByteSource 1) := by decide +kernel
  cases hrun.symm.trans hrun'
  exact ⟨d, hrun, hfits, hnext _ hfits⟩

def longRepair : Bytes := [1, 0, 0, 0, 0, 2, 1, 2, 0, 5, 6]

/-- **Other packets are not safe.** A single source with index 5 makes a group with `k = 1` recovered,
without its source 0; and a source of one byte and a repair packet of two make the decoder panic. -/
theorem decoder_unsafe :
    (∃ d g, FecDecoder.new.receive (.source 1 5 1 0 []) = some (some [], d) ∧
      d.groups.get? 1 = some g ∧ g.k = 1 ∧ g.sources.get? 0 = none) ∧
    (∃ d, FecDecoder.new.receive (oneByteSource 0) = some (none, d) ∧
      d.receive (.repair longRepair) = none) := by
  refine ⟨?_, ?_⟩
  · have hany : (FecDecoder.new.receive (.source 1 5 1 0 [])).any (fun r =>
        decide (r.1 = some []) && (r.2.groups.get? 1).any fun g =>
          decide (g.k = 1 ∧ g.sources.get? 0 = none)) = true := by decide +kernel
    obtain ⟨⟨res, d⟩, heq, hd⟩ := (any_eq_true _ _).mp hany
    rw [Bool.and_eq_true] at hd
    obtain ⟨g, hg, hk⟩ := (any_eq_true _ _).mp hd.2
    have hres : res = some [] := of_decide_eq_true hd.1
    obtain ⟨hk, hnone⟩ := of_decide_eq_true hk
    exact ⟨d, g, hres ▸ heq, hg, hk, hnone⟩
  · have hany : (FecDecoder.new.receive (oneByteSource 0)).any (fun r =>
        decide (r.1 = none ∧ r.2.receive (.repair longRepair) = none)) = true := by decide +kernel
    obtain ⟨⟨res, d⟩, heq, hd⟩ := (any_eq_true _ _).mp hany
    obtain ⟨hres, hnone⟩ := of_decide_eq_true hd
    dsimp only at hres hnone
    exact ⟨d, hres ▸ heq, hnone⟩

end SeamProtocol
