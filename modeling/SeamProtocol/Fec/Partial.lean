import SeamProtocol.Fec.Recovery

/-! # Groups that are flushed before they are full

`flush` emits the repair symbols of a group with fewer sources than planned. The sources were sent with
the planned number `k` in their envelopes; the repair packets carry the number `m` of sources that there
are. The decoder goes by the number in the first packet it sees. -/

namespace SeamProtocol

open Lib List Option SortedMap GroupState FecGroup FecPacket FecEncoder FecDecoder UInt8

/-! ## Sending -/

namespace FecEncoder

def sourceHeaderLen : Nat := 7

def sourceEnvelope (e : FecEncoder) : Bytes := leBytes 4 e.groupId.toNat ++ [e.sourceIdx, e.k, e.r]

def sendSources : FecEncoder → List Symbol → Option (List Bytes × FecEncoder)
  | e, [] => some ([], e)
  | e, payload :: rest =>
    let packet := e.sourceEnvelope ++ payload.map Gf.toByte
    (e.pushSource payload).bind fun res =>
      (sendSources res.2 rest).map fun sent => (packet :: sent.1, sent.2)

end FecEncoder

def parseSourceEnvelope (buf : Bytes) : Option (UInt32 × UInt8 × UInt8 × UInt8 × Symbol) :=
  if buf.length < FecEncoder.sourceHeaderLen then none
  else some (UInt32.ofNat (leNat (buf.take 4)), buf.getD 4 0, buf.getD 5 0, buf.getD 6 0,
    buf.drop FecEncoder.sourceHeaderLen)

def sendPartial (groupId : UInt32) (k r : UInt8) (payloads : List Symbol) :
    Option (List Bytes × List FecRepairData) :=
  ((FecEncoder.new groupId k r).sendSources payloads).bind fun sent =>
    sent.2.flush.bind fun res => res.1.map fun repairs => (sent.1, repairs)

def sourcePacket (groupId : UInt32) (k r : UInt8) (j : Nat) (payload : Symbol) : Bytes :=
  leBytes 4 groupId.toNat ++ [UInt8.ofNat j, k, r] ++ payload.map Gf.toByte

variable (groupId : UInt32)

theorem parseSourceEnvelope_sourcePacket (k r : UInt8) (j : Nat) (payload : Symbol) :
    parseSourceEnvelope (sourcePacket groupId k r j payload)
      = some (groupId, ofNat j, k, r, payload) := by
  have hlen : (leBytes 4 groupId.toNat).length = 4 := length_leBytes _ _
  have hid : UInt32.ofNat (leNat (leBytes 4 groupId.toNat)) = groupId := by
    simp [leNat_leBytes, UInt32.ofNat_toNat]
  unfold parseSourceEnvelope sourcePacket sourceHeaderLen
  generalize leBytes 4 groupId.toNat = idBytes at hlen hid
  obtain _ | ⟨a, _ | ⟨b, _ | ⟨c, _ | ⟨d, _ | ⟨e, l⟩⟩⟩⟩⟩ := idBytes <;> simp at hlen
  simp only [cons_append, nil_append, take_succ_cons, take_zero, hid]
  exact congrArg (fun data => some (groupId, ofNat j, k, r, data)) (map_id payload)

variable {k r : UInt8} {payloads : List Symbol}

theorem sendSources_collecting {groupId : UInt32} {done : List Symbol}
    (hlen : done.length + payloads.length < k.toNat) :
    (collecting groupId k r done).sendSources payloads
      = some (payloads.mapIdx fun j payload => sourcePacket groupId k r (done.length + j) payload,
          collecting groupId k r (done ++ payloads)) := by
  have hk := k.toNat_lt
  induction payloads generalizing done with
  | nil => simp [sendSources]
  | cons payload rest ih =>
    rw [length_cons] at hlen
    rw [sendSources, pushSource_collecting (by omega), if_neg (by omega), bind_some,
      ih (by rw [length_append, length_singleton]; omega), mapIdx_cons,
      append_assoc]
    simp only [length_append, length_singleton, map_some, singleton_append,
      Nat.add_assoc, Nat.add_comm 1, Nat.add_zero]
    rfl

theorem sendPartial_eq (hpos : 0 < payloads.length) (hlt : payloads.length < k.toNat)
    (hfew : k.toNat + r.toNat ≤ 128) :
    sendPartial groupId k r payloads = some
      (payloads.mapIdx fun j payload => sourcePacket groupId k r j payload,
        (range r.toNat).map (repairOf groupId (ofNat payloads.length) r payloads)) := by
  have hm : (ofNat payloads.length).toNat = payloads.length := toNat_index (by omega)
  obtain ⟨e, he⟩ := emitRepairs_eq (collecting groupId k r payloads) hm.le
    (by rw [hm]; show _ + r.toNat ≤ 256; omega)
  have hsend : (collecting groupId k r []).sendSources payloads = _ :=
    sendSources_collecting (by rw [length_nil]; omega)
  have hnew : new groupId k r = collecting groupId k r [] := rfl
  have hne : (collecting groupId k r payloads).sources.isEmpty = false :=
    isEmpty_eq_false_iff.mpr (ne_nil_of_length_pos hpos)
  unfold sendPartial
  rw [hnew, hsend, bind_some, nil_append, flush, hne, if_neg Bool.false_ne_true]
  have hsources : (collecting groupId k r payloads).sources.length = payloads.length := rfl
  rw [hsources, he]
  simp
  rfl

/-! ## Receiving -/

def feedPartial (packets : List Bytes) (repairs : List FecRepairData)
    (s : List (Option Recovered) × FecDecoder) (p : FecPacket) :
    Option (List (Option Recovered) × FecDecoder) :=
  let call := match p with
    | .source j => packets[j]?.bind fun buf =>
      match parseSourceEnvelope buf with
      | some (groupId, sourceIdx, k, r, data) => s.2.addSource groupId sourceIdx k r data
      | none => some (none, s.2)
    | .repair i => repairs[i]?.bind s.2.addRepair
  call.map fun res => (s.1 ++ [res.1], res.2)

/-- **What is expected of the decoder**: no call panics, what is returned are sources of the group, and
every source that does not arrive is returned. -/
def ReturnsMissing (payloads : List Symbol) (packets : List Bytes) (repairs : List FecRepairData)
    (order : List FecPacket) : Prop :=
  ∃ outs d, exec (feedPartial packets repairs) ([], .new) order = some (outs, d) ∧
    (∀ list, some list ∈ outs → ∀ e ∈ list, payloads[e.1]? = some e.2) ∧
    ∀ j payload, payloads[j]? = some payload → .source j ∉ order →
      ∃ list, some list ∈ outs ∧ (j, payload) ∈ list

/-- A group that is flushed before it is full: fewer sources than planned, all of one length. -/
structure PartialGroup where
  groupId : UInt32
  k : UInt8
  r : UInt8
  payloads : List Symbol
  len : Nat
  pos : 0 < payloads.length
  partly : payloads.length < k.toNat
  few : k.toNat + r.toNat ≤ 128
  equal : ∀ payload ∈ payloads, List.length payload = len

namespace PartialGroup

variable (G : PartialGroup)

def actualK : UInt8 := UInt8.ofNat G.payloads.length

def packets : List Bytes := G.payloads.mapIdx fun j payload => sourcePacket G.groupId G.k G.r j payload

def repairs : List FecRepairData :=
  (List.range G.r.toNat).map (repairOf G.groupId G.actualK G.r G.payloads)

def Has : FecPacket → Prop
  | .source j => j < G.payloads.length
  | .repair i => i < G.r.toNat

def feed : List (Option Recovered) × FecDecoder → FecPacket → Option (List (Option Recovered) × FecDecoder) :=
  feedPartial G.packets G.repairs

theorem toNat_actualK : G.actualK.toNat = G.payloads.length := by
  have hpartly := G.partly
  have hfew := G.few
  exact toNat_index (by omega)

theorem longest_eq : longest G.payloads = G.len := by
  obtain ⟨payload, hmem⟩ := exists_mem_of_ne_nil _ (ne_nil_of_length_pos G.pos)
  refine le_antisymm (longest_le fun p hp => (G.equal p hp).le) ?_
  rw [← G.equal payload hmem]
  exact length_le_longest hmem

def header : FecPacket → UInt8
  | .source _ => G.k
  | .repair _ => G.actualK

def store (g : GroupState) : FecPacket → GroupState
  | .source j => g.withSource (UInt8.ofNat j) (G.payloads.getD j [])
  | .repair i => g.withRepair (repairOf G.groupId G.actualK G.r G.payloads i)

def claimed : FecPacket → Nat
  | .source _ => G.len
  | .repair _ => (UInt16.ofNat G.len).toNat

def groupFor (d : FecDecoder) (p : FecPacket) : GroupState :=
  (d.groups.get? G.groupId.toNat).getD (GroupState.new (G.header p) G.r (G.claimed p))

variable {G}

variable {d : FecDecoder} {p : FecPacket}

theorem feed_eq (hp : G.Has p) :
    G.feed (outs, d) p
      = (d.update G.groupId (G.store (G.groupFor d p) p)).map fun res => (outs ++ [res.1], res.2) := by
  unfold feed feedPartial
  cases p with
  | source j =>
    have hj : G.payloads[j]? = some (G.payloads.getD j []) := by
      rw [getD_eq_getElem?_getD, getElem?_eq_getElem hp]
      rfl
    have hpacket : G.packets[j]? = some (sourcePacket G.groupId G.k G.r j (G.payloads.getD j [])) := by
      rw [packets, getElem?_mapIdx, hj]
      rfl
    have hlen : (G.payloads.getD j []).length = G.len := G.equal _ (mem_of_getElem? hj)
    dsimp only
    rw [hpacket, bind_some, parseSourceEnvelope_sourcePacket]
    dsimp only [addSource]
    rw [hlen]
    rfl
  | repair i =>
    have hrepair : G.repairs[i]? = some (repairOf G.groupId G.actualK G.r G.payloads i) := by
      rw [repairs, getElem?_map, getElem?_range (show i < G.r.toNat from hp)]
      rfl
    have hclaimed : (repairOf G.groupId G.actualK G.r G.payloads i).paddedLen.toNat
        = G.claimed (.repair i) := by
      rw [repairOf, G.longest_eq]
      rfl
    dsimp only
    rw [hrepair, bind_some, addRepair, hclaimed]
    rfl

/-! ## Lengths -/

theorem exists_lookup_zip_eq {as bs : List Nat} (hlen : bs.length ≤ as.length) (hnodup : as.Nodup) {b : Nat}
    (hb : b ∈ bs) : ∃ a ∈ as, (as.zip bs).lookup a = some b := by
  induction as generalizing bs with
  | nil =>
    rw [length_nil, Nat.le_zero, length_eq_zero_iff] at hlen
    rw [hlen] at hb
    cases hb
  | cons a as ih =>
    cases bs with
    | nil => cases hb
    | cons b' bs =>
      rw [nodup_cons] at hnodup
      rcases mem_cons.mp hb with rfl | hb
      · refine ⟨a, mem_cons_self, ?_⟩
        simp
      · obtain ⟨a', ha', hlookup⟩ := ih (Nat.le_of_succ_le_succ hlen) hnodup.2 hb
        have hne : a' ≠ a := fun heq => hnodup.1 (heq ▸ ha')
        refine ⟨a', mem_cons_of_mem a ha', ?_⟩
        simpa [lookup_cons_eq_ite, hne] using hlookup

theorem inv_ne_zero_of_eq_some {a c : Gf} (h : Gf.inv a = some c) : c ≠ 0 := by
  by_cases hzero : a = 0
  · rw [Gf.inv, if_pos hzero] at h
    cases h
  · rw [Gf.inv_eq_some hzero, some.injEq] at h
    rw [← h]
    exact inv_ne_zero hzero

variable {i : Nat}

theorem length_of_solve {g g' : GroupState} {list : Recovered} (h : g.solve = some (some list, g'))
    {symbol : Symbol} (hi : i ∈ g.repairs.keys.take g.missing.length)
    (hget : g.repairs.get? i = some symbol) : ∀ e ∈ list, e.2.length = symbol.length := by
  have hnodup : g.missing.Nodup := nodup_range.filter _
  unfold solve at h
  dsimp only at h
  split_ifs at h with hlen
  obtain ⟨col, hcol, hlookup⟩ := exists_lookup_zip_eq (not_not.mp hlen).le hnodup hi
  have hmissing := (mem_filter.mp hcol).2
  have hlt : col < g.k.toNat := mem_range.mp (mem_filter.mp hcol).1
  cases hrows : collect (g.row (g.missing.zip (g.repairs.keys.take g.missing.length))) with
  | none =>
    rw [hrows] at h
    cases h
  | some rows =>
    rw [hrows] at h
    dsimp only [gaussRhs] at h
    -- the row of the repair symbol has an entry in every column
    obtain ⟨coeffs, hcoeffs, hrow⟩ : ∃ coeffs : Fin g.k.toNat → Gf, (∀ j, coeffs j ≠ 0) ∧
        rows ⟨col, hlt⟩ = (coeffs, symbol) := by
      have hrow := collect_eq_some.mp hrows ⟨col, hlt⟩
      unfold row at hrow
      rw [isNone_iff_eq_none.mp hmissing] at hrow
      rw [hlookup, bind_some] at hrow
      obtain ⟨coeffs, hcoeffs, hrow⟩ := bind_eq_some_iff.mp hrow
      rw [hget, map_some, some.injEq] at hrow
      exact ⟨coeffs, fun j => inv_ne_zero_of_eq_some (collect_eq_some.mp hcoeffs j), hrow.symm⟩
    split at h
    · cases h
    · cases h
    · next s hs =>
        cases h
        have hfits := System.length_eq_of_eliminate hs
        intro e he
        obtain ⟨j, hj, rfl⟩ := mem_map.mp he
        have hj : j < g.k.toNat := mem_range.mp (mem_filter.mp hj).1
        have hlength := hfits ⟨col, hlt⟩ ⟨j, hj⟩
        dsimp only at hlength ⊢
        rw [hrow] at hlength
        rw [dif_pos hj]
        exact (hlength (hcoeffs _)).symm

/-! ## What the decoder has of the group -/

structure Tracks (G : PartialGroup) (first : FecPacket) (pre : List FecPacket) (g : GroupState) : Prop where
  k_eq : g.k = G.header first
  active : g.recovered = false
  size : g.sources.size + g.repairs.size ≤ pre.length
  new : pre = [] → g.paddedLen = G.claimed first
  /-- If the first packet is a repair packet, its symbol has the length that it claims. -/
  head : pre ≠ [] → ∀ i, first = .repair i →
    ∃ symbol, g.repairs.get? i = some symbol ∧ symbol.length = G.claimed first

section

variable {first : FecPacket} {pre : List FecPacket} {g : GroupState}

theorem tracks_new (first : FecPacket) :
    G.Tracks first [] (new (G.header first) G.r (G.claimed first)) :=
  ⟨rfl, rfl, Nat.le_refl 0, fun _ => rfl, fun h => absurd rfl h⟩

variable {p : FecPacket}

theorem Tracks.store (h : G.Tracks first pre g) (hp : G.Has p) (hfirst : pre = [] → p = first)
    (hother : pre ≠ [] → p ≠ first) : G.Tracks first (pre ++ [p]) (G.store g p) := by
  have hfew := G.few
  have hsize := h.size
  have hne : pre ++ [p] ≠ [] := append_ne_nil_of_right_ne_nil _ (cons_ne_nil _ _)
  have hlen : (pre ++ [p]).length = pre.length + 1 := by simp
  cases p with
  | source j =>
    have hinsert : (G.store g (.source j)).sources.size ≤ g.sources.size + 1 :=
      size_insert_le _ _ _
    have hrepairs : (G.store g (.source j)).repairs = g.repairs := rfl
    refine ⟨h.k_eq, h.active, ?_, fun hnil => absurd hnil hne, fun _ i hi => ?_⟩
    · rw [hrepairs, hlen]
      omega
    · have hpre : pre ≠ [] := fun hnil => nomatch (hfirst hnil).trans hi
      exact h.head hpre i hi
  | repair i =>
    have hi : i < G.r.toNat := hp
    have hidx : (ofNat i).toNat = i := toNat_index (by omega)
    have hget : ∀ i', (G.store g (.repair i)).repairs.get? i' = if i' = i then
        some (resize (repairOf G.groupId G.actualK G.r G.payloads i).data
          (max g.paddedLen (G.claimed (.repair i)))) else g.repairs.get? i' := by
      intro i'
      show (SortedMap.insert _ _ _).get? i' = _
      rw [get?_insert]
      unfold repairOf
      rw [hidx, G.longest_eq]
      rfl
    have hinsert : (G.store g (.repair i)).repairs.size ≤ g.repairs.size + 1 :=
      size_insert_le _ _ _
    have hsources : (G.store g (.repair i)).sources = g.sources := rfl
    refine ⟨h.k_eq, h.active, ?_, fun hnil => absurd hnil hne, fun _ i' hi' => ?_⟩
    · rw [hsources, hlen]
      omega
    · rw [hget]
      by_cases hnil : pre = []
      · cases (hfirst hnil).trans hi'
        rw [if_pos rfl]
        refine ⟨_, rfl, ?_⟩
        simp [h.new hnil, ← hi']
      · have hne' : i' ≠ i := by
          rintro rfl
          exact hother hnil hi'.symm
        rw [if_neg hne']
        exact h.head hnil i' hi'

/-- **As long as there are fewer packets than the first one says, nothing is returned.** -/
theorem Tracks.tryRecover_of_lt (h : G.Tracks first pre g) (hlt : pre.length < (G.header first).toNat) :
    g.tryRecover = some (none, g) := by
  refine GroupState.tryRecover_of_lt h.active (h.size.trans_lt ?_)
  rw [h.k_eq]
  exact hlt

def Tracking (G : PartialGroup) (first : FecPacket) (pre : List FecPacket) (d : FecDecoder) : Prop :=
  ∀ p, (pre = [] → p = first) → G.Tracks first pre (G.groupFor d p)

theorem Tracking.feed {d : FecDecoder} (h : G.Tracking first pre d) (hp : G.Has p)
    (hfirst : pre = [] → p = first) (hother : pre ≠ [] → p ≠ first) :
    ∃ g, G.Tracks first (pre ++ [p]) g ∧ ∀ outs, G.feed (outs, d) p
      = g.tryRecover.map fun res => (outs ++ [res.1], ⟨d.groups.insert G.groupId.toNat res.2⟩) := by
  refine ⟨_, (h p hfirst).store hp hfirst hother, fun outs => ?_⟩
  rw [feed_eq hp, update, Option.map_map]
  rfl

theorem ne_first_of_later {es : List FecPacket} (hnodup : es.Nodup) (hpre : pre ++ [p] <+: es)
    (hfirst : ∀ q ∈ es.head?, q = first) (hne : pre ≠ []) : p ≠ first := by
  obtain ⟨q, rest, rfl⟩ := exists_cons_of_ne_nil hne
  have hq : q = first := by
    obtain ⟨l, rfl⟩ := hpre
    exact hfirst q rfl
  rintro rfl
  exact not_mem_of_nodup (hnodup.sublist hpre.sublist) (hq ▸ mem_cons_self)

theorem exec_quiet (first : FecPacket) (hnodup : pre.Nodup) (hhas : ∀ p ∈ pre, G.Has p)
    (hfirst : ∀ p ∈ pre.head?, p = first) (hlt : pre.length < (G.header first).toNat) :
    ∃ d, exec G.feed ([], .new) pre = some (replicate pre.length none, d) ∧
      G.Tracking first pre d := by
  refine exec_replicate (G.Tracking first) (fun p hp => ?_) fun l p d hpre htracking => ?_
  · cases hp rfl
    exact tracks_new _
  obtain ⟨g, hg, hfeed⟩ := htracking.feed (hhas p (hpre.subset (by simp)))
    (fun hnil => hfirst p (head?_of_first hpre hnil))
    (ne_first_of_later hnodup hpre hfirst)
  rw [hg.tryRecover_of_lt (hpre.length_le.trans_lt hlt)] at hfeed
  refine ⟨⟨d.groups.insert G.groupId.toNat g⟩, hfeed, fun q _ => ?_⟩
  rw [groupFor, get?_insert_self]
  exact hg

/-- **A repair packet that cannot say its length**: what is returned with the last packet is cut off. -/
theorem Tracks.length_of_tryRecover {i : Nat} (h : G.Tracks (.repair i) pre g)
    (hlen : pre.length = G.payloads.length) {list : Recovered} {g' : GroupState}
    (hres : g.tryRecover = some (some list, g')) : ∀ e ∈ list, e.2.length = G.claimed (.repair i) := by
  have hsize := h.size
  have hpos := G.pos
  have hk : g.k.toNat = G.payloads.length := (congrArg toNat h.k_eq).trans G.toNat_actualK
  have hpre : pre ≠ [] := ne_nil_of_length_pos (by omega)
  obtain ⟨symbol, hget, hsymbol⟩ := h.head hpre i rfl
  have hmem : i ∈ g.repairs.keys := (g.repairs.mem_keys_iff i).mpr ⟨symbol, hget⟩
  have hrepairs : 0 < g.repairs.size := by
    rw [← length_keys]
    exact length_pos_of_mem hmem
  have hsrc := ofNat_size_ne (g := g) (by omega)
  -- there are at least as many sources missing as there are repair symbols, so all of them are used
  have hmissing : g.repairs.size ≤ g.missing.length := by
    have hcount := le_size_add_length_missing g.sources g.k.toNat
    unfold missing
    omega
  have htake : i ∈ g.repairs.keys.take g.missing.length := by
    rw [take_of_length_le (by rw [length_keys]; exact hmissing)]
    exact hmem
  rw [← hsymbol]
  unfold tryRecover at hres
  rw [if_neg (by rw [h.active]; decide), if_neg hsrc] at hres
  split_ifs at hres
  · cases hres
  · cases hres
  · exact length_of_solve hres htake hget

end

/-! ## A group that starts with a repair packet -/

def toGroup (G : PartialGroup) (hshort : G.len ≤ 65535) : FecGroup where
  groupId := G.groupId
  k := G.actualK
  r := G.r
  payloads := G.payloads
  pos := G.toNat_actualK.symm ▸ G.pos
  few := by
    have hpartly := G.partly
    have hfew := G.few
    rw [G.toNat_actualK]
    omega
  complete := G.toNat_actualK.symm
  short := fun payload hmem => (G.equal payload hmem).trans_le hshort

variable (hshort : G.len ≤ 65535)

theorem toGroup_has (hp : G.Has p) : (G.toGroup hshort).Has p := by
  cases p with
  | source j =>
    show j < G.actualK.toNat
    rw [G.toNat_actualK]
    exact hp
  | repair i => exact hp

theorem feed_eq_toGroup (hp : G.Has p)
    (hknown : d.groups.get? G.groupId.toNat ≠ none ∨ p.isSource = false) :
    G.feed (outs, d) p = (G.toGroup hshort).feed (G.toGroup hshort).repairs (outs, d) p := by
  have hclaimed : (UInt16.ofNat G.len).toNat = G.len :=
    UInt16.toNat_ofNat_of_lt' (by show _ < 65536; omega)
  have hgroup : G.groupFor d p = (G.toGroup hshort).groupFor d p := by
    unfold groupFor FecGroup.groupFor
    rcases hknown with hknown | hrepair
    · obtain ⟨g, hg⟩ := ne_none_iff_exists'.mp hknown
      rw [hg, show (G.toGroup hshort).groupId = G.groupId from rfl, hg]
      rfl
    · cases p with
      | source j => cases hrepair
      | repair i =>
        have hlen : (G.toGroup hshort).lengthOf (.repair i) = G.claimed (.repair i) := by
          show longest G.payloads = (UInt16.ofNat G.len).toNat
          rw [hclaimed, G.longest_eq]
        rw [hlen]
        rfl
  have hstore : ∀ g, G.store g p = (G.toGroup hshort).store g p := fun g => by cases p <;> rfl
  rw [feed_eq hp, FecGroup.feed_eq (toGroup_has hshort hp), hgroup, hstore]
  rfl

theorem exec_eq_toGroup {rest : List FecPacket} (hhas : ∀ p ∈ rest, G.Has p)
    (outs : List (Option Recovered)) (d : FecDecoder)
    (hknown : d.groups.get? G.groupId.toNat ≠ none ∨ ∀ p ∈ rest.head?, p.isSource = false) :
    exec G.feed (outs, d) rest
      = exec ((G.toGroup hshort).feed (G.toGroup hshort).repairs) (outs, d) rest := by
  induction rest generalizing outs d with
  | nil => rfl
  | cons p rest ih =>
    have hp := hhas p mem_cons_self
    rw [exec_cons, exec_cons, ← feed_eq_toGroup hshort hp (hknown.imp_right fun h => h p rfl)]
    cases hfeed : G.feed (outs, d) p with
    | none => rfl
    | some s =>
      refine ih (fun q hq => hhas q (mem_cons_of_mem p hq)) s.1 s.2 (.inl ?_)
      -- the packet has put its group into the decoder
      rw [feed_eq hp, update, Option.map_map] at hfeed
      obtain ⟨res, -, rfl⟩ := Option.map_eq_some_iff.mp hfeed
      dsimp only [Function.comp]
      rw [get?_insert_self]
      simp

variable {order : List FecPacket}

theorem returnsMissing_of_recovers (hrun : exec G.feed ([], .new) order = exec ((G.toGroup
      hshort).feed (G.toGroup hshort).repairs) ([], .new) order)
    (h : (G.toGroup hshort).Recovers (G.toGroup hshort).repairs order) :
    ReturnsMissing G.payloads G.packets G.repairs order := by
  obtain ⟨outs, d, hexec, n, -, list, hn, hother, -, hlist⟩ := h
  have hpadded : ∀ j (hj : j < G.payloads.length), (G.toGroup hshort).padded j = G.payloads[j] := by
    intro j hj
    have hget : (G.toGroup hshort).payload j = G.payloads[j] := by
      show G.payloads.getD j [] = _
      rw [getD_eq_getElem?_getD, getElem?_eq_getElem hj]
      rfl
    have hlen : (G.toGroup hshort).len = (G.payloads[j]).length :=
      G.longest_eq.trans (G.equal _ (getElem_mem hj)).symm
    rw [FecGroup.padded, hget, hlen, resize_length]
  have hpayload : ∀ j data, (j < G.actualK.toNat ∧ data = (G.toGroup hshort).padded j) ↔
      G.payloads[j]? = some data := by
    intro j data
    rw [G.toNat_actualK, List.getElem?_eq_some_iff, ← exists_prop]
    refine exists_congr fun hj => ?_
    rw [hpadded j hj, eq_comm]
  refine ⟨outs, d, hrun.trans hexec, fun list' hmem e he => ?_, fun j payload hj hnot => ?_⟩
  · obtain ⟨m, hm⟩ := mem_iff_getElem?.mp hmem
    have hmn : m = n := by_contra fun hne => hother m hne list' hm
    rw [hmn, hn] at hm
    cases hm
    obtain ⟨hlt, -, hdata⟩ := (hlist e.1 e.2).mp he
    exact (hpayload e.1 e.2).mp ⟨hlt, hdata⟩
  · obtain ⟨hlt, hdata⟩ := (hpayload j payload).mpr hj
    exact ⟨list, mem_of_getElem? hn,
      (hlist j payload).mpr ⟨hlt, fun hmem => hnot (mem_of_mem_take hmem), hdata⟩⟩

/-! ## Orders -/

theorem all_sources_iff (hnodup : order.Nodup) (hhas : ∀ p ∈ order, G.Has p)
    (hlen : order.length = G.payloads.length) :
    (∀ j < G.payloads.length, .source j ∈ order) ↔ ∀ p ∈ order, p.isSource = true := by
  have hsources : ((range G.payloads.length).map source).Nodup :=
    nodup_range.map fun _ _ heq => source.inj heq
  have hcount : ((range G.payloads.length).map source).length = G.payloads.length := by simp
  constructor
  · intro hall p hp
    by_contra hrepair
    have hnot : p ∉ (range G.payloads.length).map source := by
      intro hmem
      obtain ⟨j, -, rfl⟩ := mem_map.mp hmem
      exact hrepair rfl
    have hsub : p :: (range G.payloads.length).map source ⊆ order := by
      intro q hq
      rcases mem_cons.mp hq with rfl | hq
      · exact hp
      · obtain ⟨j, hj, rfl⟩ := mem_map.mp hq
        exact hall j (mem_range.mp hj)
    have hle := (subperm_of_subset (nodup_cons.mpr ⟨hnot, hsources⟩) hsub).length_le
    rw [length_cons, hcount] at hle
    omega
  · intro hall j hj
    have hsub : order ⊆ (range G.payloads.length).map source := by
      intro q hq
      have hq' := hall q hq
      cases q with
      | source j => exact mem_map.mpr ⟨j, mem_range.mpr (hhas _ hq), rfl⟩
      | repair i => cases hq'
    have hperm := (subperm_of_subset hnodup hsub).perm_of_length_le (by omega)
    exact hperm.symm.subset (mem_map.mpr ⟨j, mem_range.mpr hj, rfl⟩)

theorem returnsMissing_iff_of_source {j : Nat} (hnodup : order.Nodup) (hhas : ∀ p ∈ order, G.Has p)
    (hlen : order.length = G.payloads.length) (hfirst : order.head? = some (.source j)) :
    ReturnsMissing G.payloads G.packets G.repairs order ↔ ∀ p ∈ order, p.isSource = true := by
  have hpartly := G.partly
  obtain ⟨d, hrun, -⟩ := exec_quiet (.source j) hnodup hhas
    (by rw [hfirst]; exact fun p hp => (some.inj hp).symm) (by rw [hlen]; exact hpartly)
  have hnone : ∀ list, some list ∉ List.replicate order.length (none : Option Recovered) := by
    intro list hmem
    cases (mem_replicate.mp hmem).2
  rw [← all_sources_iff hnodup hhas hlen]
  constructor
  · rintro ⟨outs, d', hrun', -, hmissing⟩ j hj
    cases hrun.symm.trans hrun'
    by_contra hnot
    obtain ⟨list, hlist, -⟩ := hmissing j _ (List.getElem?_eq_getElem hj) hnot
    exact hnone list hlist
  · intro hall
    refine ⟨_, d, hrun, fun list hlist => absurd hlist (hnone list), fun j payload hj hnot => ?_⟩
    exact absurd (hall j (List.getElem?_eq_some_iff.mp hj).1) hnot

/-- **A repair packet first**: the decoder recovers the sources that there are, if their length fits in
its field. -/
theorem returnsMissing_iff_of_repair (hnodup : order.Nodup) (hhas : ∀ p ∈ order, G.Has p)
    (hlen : order.length = G.payloads.length) (hfirst : order.head? = some (.repair i)) :
    ReturnsMissing G.payloads G.packets G.repairs order ↔ G.len ≤ 65535 := by
  constructor
  · rintro ⟨outs, d, hrun, -, hmissing⟩
    by_contra hlong
    have hpos := G.pos
    have hne : order ≠ [] := ne_nil_of_length_pos (by omega)
    have hmem : repair i ∈ order := mem_of_mem_head? hfirst
    -- some source does not arrive
    obtain ⟨j, hj, hnot⟩ : ∃ j < G.payloads.length, .source j ∉ order := by
      by_contra hall
      push Not at hall
      exact absurd ((all_sources_iff hnodup hhas hlen).mp hall _ hmem) nofun
    obtain ⟨list, hlist, hpayload⟩ := hmissing j _ (getElem?_eq_getElem hj) hnot
    have hlength : (G.payloads[j]).length = G.len := G.equal _ (getElem_mem hj)
    have hclaimed : G.claimed (.repair i) ≠ G.len := by
      have hmod := (UInt16.ofNat G.len).toNat_lt
      show (UInt16.ofNat G.len).toNat ≠ G.len
      omega
    -- the last packet is the only one that can return anything
    obtain ⟨pre, p, rfl⟩ : ∃ pre p, order = pre ++ [p] :=
      ⟨order.dropLast, order.getLast hne, (dropLast_append_getLast hne).symm⟩
    rw [length_append, length_singleton] at hlen
    have hnodup' := nodup_append.mp hnodup
    have hhead : ∀ q ∈ pre.head?, q = .repair i := by
      intro q hq
      rw [head?_append, hq] at hfirst
      exact some.inj hfirst
    obtain ⟨d', hquiet, htracking⟩ := exec_quiet (.repair i) hnodup'.1
      (fun q hq => hhas q (mem_append_left _ hq)) hhead
      (by show pre.length < G.actualK.toNat; rw [G.toNat_actualK]; omega)
    obtain ⟨g, hg, hfeed⟩ := htracking.feed (hhas p (mem_append_right _ mem_cons_self))
      (fun hnil => by
        rw [hnil] at hfirst
        exact some.inj hfirst)
      (ne_first_of_later hnodup (prefix_refl _) fun q hq => by
        rw [hfirst] at hq
        exact (some.inj hq).symm)
    change exec G.feed _ _ = _ at hrun
    rw [exec_append, hquiet, bind_some, exec_cons, hfeed] at hrun
    cases hres : g.tryRecover with
    | none =>
      rw [hres] at hrun
      cases hrun
    | some res =>
      rw [hres] at hrun
      cases hrun
      rcases mem_append.mp hlist with hlist | hlist
      · cases (mem_replicate.mp hlist).2
      · have hlast := mem_singleton.mp hlist
        obtain ⟨res₁, g'⟩ := res
        cases hlast
        have hcut := hg.length_of_tryRecover
          (by rw [length_append, length_singleton]; exact hlen) hres _ hpayload
        exact hclaimed (hcut.symm.trans hlength)
  · intro hshort
    refine returnsMissing_of_recovers hshort (exec_eq_toGroup hshort hhas [] .new (.inr ?_)) ?_
    · rw [hfirst]
      exact fun p hp => some.inj hp ▸ rfl
    · obtain ⟨repairs, e, he, -, hiff⟩ := recovers_iff_longFirst (G.toGroup hshort) hnodup
        (fun p hp => toGroup_has hshort (hhas p hp))
        (by show G.actualK.toNat ≤ _; rw [G.toNat_actualK, hlen])
      obtain ⟨e', he'⟩ := encodeGroup_eq (G.toGroup hshort)
      cases he.symm.trans he'
      refine hiff.mpr (.inr ?_)
      rw [hfirst]
      exact fun p hp => some.inj hp ▸ rfl

end PartialGroup

/-! ## Result -/

/-- **A flushed group is recovered from as many packets as it has sources if and only if** the first
packet is a repair packet and the length of the payloads fits in two bytes, or no source is missing; for
every selection and order of the packets. -/
theorem partial_group_iff (groupId : UInt32) (k r : UInt8) (payloads : List Symbol) (len : Nat)
    (hfew : k.toNat + r.toNat ≤ 128) (hpos : 1 ≤ payloads.length) (hpartly : payloads.length < k.toNat)
    (hequal : ∀ payload ∈ payloads, List.length payload = len) :
    ∃ packets repairs, sendPartial groupId k r payloads = some (packets, repairs) ∧
      packets.length = payloads.length ∧ repairs.length = r.toNat ∧
      ∀ order : List FecPacket, order.Nodup → order.length = payloads.length →
        (∀ p ∈ order, match p with
          | .source j => j < packets.length
          | .repair i => i < repairs.length) →
        (ReturnsMissing payloads packets repairs order ↔
          (∀ p ∈ order, p.isSource = true) ∨
            len ≤ 65535 ∧ ∀ p ∈ order.head?, p.isSource = false) := by
  have hpackets : ∀ f : Nat → Symbol → Bytes, (payloads.mapIdx f).length = payloads.length := fun f => by simp
  refine ⟨_, _, sendPartial_eq groupId hpos hpartly hfew, hpackets _, by simp, ?_⟩
  intro order hnodup hlen hhas
  rw [hpackets] at hhas
  let G : PartialGroup := ⟨groupId, k, r, payloads, len, hpos, hpartly, hfew, hequal⟩
  have hhas' : ∀ p ∈ order, G.Has p := by
    intro p hp
    have h := hhas p hp
    cases p with
    | source j => exact h
    | repair i =>
      rw [length_map, length_range] at h
      exact h
  have hne : order ≠ [] := ne_nil_of_length_pos (by omega)
  have hmem := head_mem hne
  have hhead := List.head?_eq_some_head hne
  cases hfirst : order.head hne with
  | source j =>
    rw [hfirst] at hhead
    refine (PartialGroup.returnsMissing_iff_of_source (G := G) hnodup hhas' hlen hhead).trans ?_
    rw [hhead]
    exact (or_iff_left fun h => absurd (h.2 _ rfl) nofun).symm
  | repair i =>
    rw [hfirst] at hhead hmem
    refine (PartialGroup.returnsMissing_iff_of_repair (G := G) hnodup hhas' hlen hhead).trans ?_
    rw [hhead, or_iff_right fun h => absurd (h _ hmem) nofun]
    exact (and_iff_left fun p hp => Option.some.inj hp ▸ rfl).symm

/-- Two of three planned sources, flushed: from the repair packet and then a source, the other source is
recovered. -/
theorem partial_group_repair_first :
    ∃ packets repairs, sendPartial 1 3 1 [[Gf.ofNat 7], [Gf.ofNat 8]] = some (packets, repairs) ∧
      ReturnsMissing [[Gf.ofNat 7], [Gf.ofNat 8]] packets repairs [.repair 0, .source 1] := by
  obtain ⟨packets, repairs, hsend, hpackets, hrepairs, hiff⟩ := partial_group_iff 1 3 1
    [[Gf.ofNat 7], [Gf.ofNat 8]] 1 (by decide) (by decide) (by decide) (by decide)
  refine ⟨packets, repairs, hsend, (hiff _ (by decide) rfl ?_).mpr (.inr (by decide))⟩
  rw [hpackets, hrepairs]
  intro p hp
  rw [mem_cons, mem_singleton] at hp
  rcases hp with rfl | rfl <;> decide

/-- **The same two packets in the other order recover nothing**: the decoder waits for a third packet. -/
theorem partial_group_source_first :
    ∃ packets repairs d, sendPartial 1 3 1 [[Gf.ofNat 7], [Gf.ofNat 8]] = some (packets, repairs) ∧
      exec (feedPartial packets repairs) ([], .new) [.source 1, .repair 0] = some ([none, none], d) ∧
      ¬ReturnsMissing [[Gf.ofNat 7], [Gf.ofNat 8]] packets repairs [.source 1, .repair 0] := by
  have hany : (sendPartial 1 3 1 [[Gf.ofNat 7], [Gf.ofNat 8]]).any (fun sent =>
      (exec (feedPartial sent.1 sent.2) ([], .new) [.source 1, .repair 0]).any fun res =>
        decide (res.1 = [none, none])) = true := by
    decide +kernel
  obtain ⟨⟨packets, repairs⟩, hsend, hres⟩ := (any_eq_true _ _).mp hany
  obtain ⟨⟨outs, d⟩, hrun, houts⟩ := (any_eq_true _ _).mp hres
  obtain rfl : outs = [none, none] := of_decide_eq_true houts
  refine ⟨packets, repairs, d, hsend, hrun, ?_⟩
  rintro ⟨outs', d', hrun', -, hmissing⟩
  cases hrun.symm.trans hrun'
  obtain ⟨list, hlist, -⟩ := hmissing 0 _ rfl (by decide)
  simp at hlist

end SeamProtocol
