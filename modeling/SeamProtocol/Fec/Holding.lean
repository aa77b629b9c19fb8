import SeamProtocol.Fec.Encoding
import SeamProtocol.Lib.Run

/-! # What the decoder holds

Sources are stored with the length of the longest packet so far, and are not padded when a longer one
arrives. -/

namespace SeamProtocol

open Lib List SortedMap

/-! ## Packets -/

inductive FecPacket where
  | source (j : Nat)
  | repair (i : Nat)
  deriving DecidableEq

def FecPacket.isSource : FecPacket → Bool
  | .source _ => true
  | .repair _ => false

namespace FecGroup

variable (G : FecGroup)

def Has : FecPacket → Prop
  | .source j => j < G.k.toNat
  | .repair i => i < G.r.toNat

instance : ∀ p, Decidable (G.Has p)
  | .source _ => inferInstanceAs (Decidable (_ < _))
  | .repair _ => inferInstanceAs (Decidable (_ < _))

def lengthOf : FecPacket → Nat
  | .source j => (G.payload j).length
  | .repair _ => G.len

def feed (repairs : List FecRepairData) (s : List (Option Recovered) × FecDecoder) (p : FecPacket) :
    Option (List (Option Recovered) × FecDecoder) :=
  let call := match p with
    | .source j => s.2.addSource G.groupId (UInt8.ofNat j) G.k G.r (G.payload j)
    | .repair i => repairs[i]?.bind s.2.addRepair
  call.map fun res => (s.1 ++ [res.1], res.2)

/-- **What is expected of the decoder**: no call panics, and exactly one of them returns sources, at the
latest the one with packet `k`. It returns those that have not arrived by then, each once and padded. -/
def Recovers (repairs : List FecRepairData) (packets : List FecPacket) : Prop :=
  ∃ outs d, exec (G.feed repairs) ([], .new) packets = some (outs, d) ∧
    ∃ n < G.k.toNat, ∃ list : Recovered, outs[n]? = some (some list) ∧
      (∀ m ≠ n, ∀ other, outs[m]? ≠ some (some other)) ∧ (list.map Prod.fst).Nodup ∧
      ∀ j data, (j, data) ∈ list ↔
        j < G.k.toNat ∧ FecPacket.source j ∉ packets.take (n + 1) ∧ data = G.padded j

def LongFirst (packets : List FecPacket) : Prop :=
  (∀ p ∈ packets.take G.k.toNat, p.isSource = true) ∨ ∀ p ∈ packets.head?, G.lengthOf p = G.len

instance (packets : List FecPacket) : Decidable (G.LongFirst packets) :=
  inferInstanceAs (Decidable (_ ∨ ∀ p ∈ packets.head?, _))

end FecGroup

variable {payloads : List Symbol}

theorem length_le_longest {payload : Symbol} (h : payload ∈ payloads) :
    payload.length ≤ longest payloads := by
  suffices hall : ∀ (payloads : List Symbol) (n : Nat),
      n ≤ payloads.foldl (fun n payload => max n payload.length) n ∧ ∀ payload ∈ payloads,
        payload.length ≤ payloads.foldl (fun n payload => max n payload.length) n from
    (hall payloads 0).2 payload h
  intro payloads
  induction payloads with
  | nil => exact fun n => ⟨le_rfl, nofun⟩
  | cons first rest ih =>
    intro n
    obtain ⟨hle, hrest⟩ := ih (max n first.length)
    refine ⟨(le_max_left _ _).trans hle, fun payload hmem => ?_⟩
    rcases mem_cons.mp hmem with rfl | hmem
    · exact (le_max_right _ _).trans hle
    · exact hrest payload hmem

theorem longest_le {n : Nat} (h : ∀ payload ∈ payloads, List.length payload ≤ n) :
    longest payloads ≤ n := by
  suffices hall : ∀ (payloads : List Symbol) (m : Nat), m ≤ n →
      (∀ payload ∈ payloads, List.length payload ≤ n) →
      payloads.foldl (fun n payload => max n payload.length) m ≤ n from hall payloads 0 (by omega) h
  intro payloads
  induction payloads with
  | nil => exact fun m hm _ => hm
  | cons first rest ih =>
    intro m hm hall
    exact ih _ (max_le hm (hall first mem_cons_self)) fun payload hmem =>
      hall payload (mem_cons_of_mem first hmem)

theorem resize_length (data : Symbol) : resize data data.length = data := by
  simp [resize]

namespace FecGroup

variable {G : FecGroup}

theorem len_le : G.len ≤ 65535 := longest_le G.short

theorem lengthOf_le (p : FecPacket) : G.lengthOf p ≤ G.len := by
  cases p with
  | repair i => exact le_rfl
  | source j =>
    show (G.payloads.getD j []).length ≤ G.len
    cases hj : G.payloads[j]? with
    | none =>
      simp [hj]
    | some payload =>
      rw [getD_eq_getElem?_getD, hj]
      exact length_le_longest (mem_of_getElem? hj)

theorem length_symbol (i : Nat) : (G.symbol i).length = G.len := by
  simp [symbol, System.combine]

def store (G : FecGroup) (g : GroupState) : FecPacket → GroupState
  | .source j => g.withSource (UInt8.ofNat j) (G.payload j)
  | .repair i => g.withRepair (G.repair i)

def groupFor (G : FecGroup) (d : FecDecoder) (p : FecPacket) : GroupState :=
  (d.groups.get? G.groupId.toNat).getD (GroupState.new G.k G.r (G.lengthOf p))

variable {p : FecPacket}

theorem feed_eq {outs : List (Option Recovered)} {d : FecDecoder} (hp : G.Has p) :
    G.feed G.repairs (outs, d) p
      = (d.update G.groupId (G.store (G.groupFor d p) p)).map fun res => (outs ++ [res.1], res.2) := by
  cases p with
  | source j => rfl
  | repair i =>
    have hget : G.repairs[i]? = some (G.repair i) := by
      rw [repairs, getElem?_map, getElem?_range (show i < G.r.toNat from hp)]
      rfl
    have hlen : (G.repair i).paddedLen.toNat = G.len :=
      UInt16.toNat_ofNat_of_lt' (by show _ < 65536; exact Nat.lt_succ_of_le len_le)
    unfold feed groupFor
    dsimp only
    rw [hget, Option.bind_some, FecDecoder.addRepair, hlen]
    rfl

/-! ## What the decoder holds -/

def Stored (G : FecGroup) (first : FecPacket) (j : Nat) (data : Symbol) : Prop :=
  G.lengthOf first ≤ data.length ∧ data.length ≤ G.len ∧ data = resize (G.payload j) data.length

structure Holds (G : FecGroup) (first : FecPacket) (pre : List FecPacket) (g : GroupState) : Prop where
  k_eq : g.k = G.k
  r_eq : g.r = G.r
  active : g.recovered = false
  has : ∀ p ∈ pre, G.Has p
  lower : G.lengthOf first ≤ g.paddedLen
  upper : g.paddedLen ≤ G.len
  source : ∀ j, .source j ∈ pre → ∃ data, g.sources.get? j = some data ∧ G.Stored first j data
  absent : ∀ j, .source j ∉ pre → g.sources.get? j = none
  repair : ∀ i, g.repairs.get? i = if .repair i ∈ pre then some (G.symbol i) else none
  size : g.sources.size + g.repairs.size = pre.length
  new : pre = [] → g.paddedLen = G.lengthOf first
  head : pre ≠ [] → ∀ j, first = .source j →
    ∃ data, g.sources.get? j = some data ∧ data.length = G.lengthOf first

theorem holds_new (first : FecPacket) : G.Holds first [] (.new G.k G.r (G.lengthOf first)) where
  k_eq := rfl
  r_eq := rfl
  active := rfl
  has := nofun
  lower := le_rfl
  upper := lengthOf_le first
  source := nofun
  absent _ _ := rfl
  repair _ := rfl
  size := rfl
  new _ := rfl
  head h := absurd rfl h

variable {first : FecPacket} {pre : List FecPacket} {g : GroupState} {j : Nat} {data : Symbol}

theorem Holds.mem_of_get? (h : G.Holds first pre g) (hj : g.sources.get? j = some data) :
    .source j ∈ pre := by
  by_contra hnot
  rw [h.absent j hnot] at hj
  cases hj

theorem Holds.stored (h : G.Holds first pre g) (hj : g.sources.get? j = some data) :
    G.Stored first j data := by
  obtain ⟨data', hj', hstored⟩ := h.source j (h.mem_of_get? hj)
  cases hj.symm.trans hj'
  exact hstored

theorem toNat_index (hj : j < 256) : (UInt8.ofNat j).toNat = j :=
  UInt8.toNat_ofNat_of_lt' hj

theorem Holds.store_source (h : G.Holds first pre g) (hp : G.Has (.source j)) (hnew : .source j ∉ pre)
    (hfirst : pre = [] → first = .source j) :
    G.Holds first (pre ++ [.source j]) (G.store g (.source j)) := by
  have hj : j < G.k.toNat := hp
  have hfew := G.few
  have hle := lengthOf_le (G := G) (.source j)
  have hnone : g.sources.get? j = none := h.absent j hnew
  have hget : ∀ j', (G.store g (.source j)).sources.get? j' = if j' = j then
      some (resize (G.payload j) (max g.paddedLen (G.payload j).length)) else g.sources.get? j' := by
    intro j'
    show (SortedMap.insert _ _ _).get? j' = _
    rw [get?_insert, toNat_index (by omega)]
  have hupper : max g.paddedLen (G.payload j).length ≤ G.len := max_le h.upper hle
  refine ⟨h.k_eq, h.r_eq, h.active, ?_, h.lower.trans (le_max_left _ _), hupper, ?_, ?_, ?_, ?_, ?_, ?_⟩
  · exact forall_mem_append.mpr ⟨h.has, forall_mem_singleton.mpr hp⟩
  · intro j' hmem
    rw [hget]
    split_ifs with heq
    · subst heq
      refine ⟨_, rfl, ?_, ?_, ?_⟩
      · simpa using h.lower.trans (le_max_left _ _)
      · simpa using hupper
      · simp
    · refine h.source j' ((mem_append.mp hmem).resolve_right fun hmem => heq ?_)
      cases mem_singleton.mp hmem
      rfl
  · intro j' hnot
    have hne : j' ≠ j := by
      rintro rfl
      exact hnot (mem_append_right _ mem_cons_self)
    rw [hget, if_neg hne]
    exact h.absent j' fun hmem => hnot (mem_append_left _ hmem)
  · intro i
    rw [show (G.store g (.source j)).repairs = g.repairs from rfl, h.repair i]
    simp
  · show (SortedMap.insert _ _ _).size + g.repairs.size = _
    rw [toNat_index (by omega), size_insert_of_get?_eq_none _ _ hnone, length_append,
      length_singleton, ← h.size]
    omega
  · intro hnil
    exact absurd hnil (by simp)
  · intro _ j' hj'
    rw [hget]
    split_ifs with heq
    · -- a source is not sent twice, so it is the first packet of a new group
      refine ⟨_, rfl, ?_⟩
      rw [length_resize]
      by_cases hpre : pre = []
      · rw [h.new hpre, hj', heq]
        exact max_self _
      · obtain ⟨data, hdata, -⟩ := h.head hpre j' hj'
        rw [heq, hnone] at hdata
        cases hdata
    · by_cases hpre : pre = []
      · cases (hfirst hpre).symm.trans hj'
        exact absurd rfl heq
      · exact h.head hpre j' hj'

theorem Holds.store_repair (h : G.Holds first pre g) {i : Nat} (hp : G.Has (.repair i))
    (hnew : .repair i ∉ pre) (hfirst : pre = [] → first = .repair i) :
    G.Holds first (pre ++ [.repair i]) (G.store g (.repair i)) := by
  have hi : i < G.r.toNat := hp
  have hfew := G.few
  have hlen : (G.repair i).paddedLen.toNat = G.len :=
    UInt16.toNat_ofNat_of_lt' (by show _ < 65536; exact Nat.lt_succ_of_le len_le)
  have hnone : g.repairs.get? i = none := by rw [h.repair i, if_neg hnew]
  have hmax : max g.paddedLen (G.repair i).paddedLen.toNat = G.len := by
    rw [hlen]
    exact max_eq_right h.upper
  have hstore : G.store g (.repair i) =
      { g with paddedLen := G.len, repairs := g.repairs.insert i (G.symbol i) } := by
    show g.withRepair (G.repair i) = _
    unfold GroupState.withRepair
    rw [hmax]
    dsimp only
    rw [show (G.repair i).repairIdx.toNat = i from toNat_index (by omega),
      show resize (G.repair i).data G.len = G.symbol i from
        (congrArg (resize _) (length_symbol i).symm).trans (resize_length _)]
  rw [hstore]
  refine ⟨h.k_eq, h.r_eq, h.active, ?_, lengthOf_le first, le_rfl, ?_, ?_, ?_, ?_, ?_, ?_⟩
  · exact forall_mem_append.mpr ⟨h.has, forall_mem_singleton.mpr hp⟩
  · intro j hmem
    simp only [mem_append, mem_singleton, reduceCtorEq, or_false] at hmem
    exact h.source j hmem
  · intro j hnot
    exact h.absent j fun hmem => hnot (mem_append_left _ hmem)
  · intro i'
    rw [get?_insert, h.repair i']
    by_cases heq : i' = i
    · subst heq
      simp [mem_append_right _ mem_cons_self]
    · simp [FecPacket.repair.injEq, heq]
  · dsimp only
    rw [size_insert_of_get?_eq_none _ _ hnone, length_append, length_singleton,
      ← h.size]
    omega
  · intro hnil
    exact absurd hnil (by simp)
  · intro _ j hj
    by_cases hpre : pre = []
    · cases (hfirst hpre).symm.trans hj
    · exact h.head hpre j hj

theorem Holds.store (h : G.Holds first pre g) (hp : G.Has p) (hnew : p ∉ pre)
    (hfirst : pre = [] → first = p) : G.Holds first (pre ++ [p]) (G.store g p) := by
  cases p with
  | source j => exact h.store_source hp hnew hfirst
  | repair i => exact h.store_repair hp hnew hfirst

end FecGroup

end SeamProtocol
