import SeamProtocol.Fec.Codec

/-! # The packets of a group -/

namespace SeamProtocol

open Lib List Option UInt8 FecEncoder

/-! ## The encoder -/

def longest (payloads : List Symbol) : Nat := payloads.foldl (fun n payload => max n payload.length) 0

def encodeGroup (e : FecEncoder) (payloads : List Symbol) :
    Option (Option (List FecRepairData) × FecEncoder) :=
  payloads.foldlM (fun r payload => r.2.pushSource payload) (none, e)

def coefficient (r i j : Nat) : Gf := (Gf.ofNat i - Gf.ofNat (r + j))⁻¹

variable {n : Nat}

theorem Gf.ofNat_ne {m : Nat} (hm : m < 256) (hn : n < 256) (h : m ≠ n) : Gf.ofNat m ≠ Gf.ofNat n := by
  intro heq
  apply h
  rw [← Gf.toNat_ofNat hm, heq, Gf.toNat_ofNat hn]

variable {r : UInt8} {i j : Nat}

theorem cauchy_eq_coefficient (hi : i < r.toNat) (hj : r.toNat + j < 256) :
    cauchy (ofNat i) (ofNat j) r = some (coefficient r.toNat i j) := by
  have hsum : r + ofNat j = ofNat (r.toNat + j) := by
    simp
  have hne : Gf.ofNat i - Gf.ofNat (r.toNat + j) ≠ 0 :=
    sub_ne_zero.mpr (Gf.ofNat_ne (by omega) hj (by omega))
  unfold cauchy
  rw [hsum]
  exact Gf.inv_eq_some hne

theorem coefficient_ne_zero {r : Nat} (hi : i < r) (hj : r + j < 256) : coefficient r i j ≠ 0 :=
  inv_ne_zero (sub_ne_zero.mpr (Gf.ofNat_ne (by omega) hj (by omega)))

/-- **Rows of the identity and of the Cauchy matrix determine the sources**, if each column has a row. -/
theorem regular_of_unit_or_cauchy {k r : Nat} (hfew : k + r ≤ 256) {s : System Gf k}
    (held : Fin k → Prop) [DecidablePred held] (sub : Fin k → Nat)
    (hunit : ∀ col, held col → s.mat col = fun j => if col = j then 1 else 0)
    (hrow : ∀ col, ¬held col → sub col < r ∧ s.mat col = fun j : Fin k => coefficient r (sub col) j)
    (hdistinct : ∀ col col', ¬held col → ¬held col' → sub col = sub col' → col = col') : s.Regular := by
  intro v hv
  refine eq_zero_of_unit_or_cauchy held (fun col => Gf.ofNat (sub col)) (fun j => Gf.ofNat (r + j))
    (fun col hcol => congrFun (hunit col hcol)) (fun col hcol => congrFun (hrow col hcol).2) ?_ ?_ ?_ hv
  · intro col col' hcol hcol' heq
    have hlt := (hrow col hcol).1
    have hlt' := (hrow col' hcol').1
    refine hdistinct col col' hcol hcol' (by_contra fun hne => ?_)
    exact Gf.ofNat_ne (by omega) (by omega) hne heq
  · intro j j' heq
    refine Fin.ext (by_contra fun hne => ?_)
    exact Gf.ofNat_ne (by omega) (by omega) (by omega) heq
  · intro col j hcol
    have hlt := (hrow col hcol).1
    exact Gf.ofNat_ne (by omega) (by omega) (by omega)

theorem map_range_getD {l : Symbol} (h : l.length = n) :
    (range n).map (fun t => l.getD t 0) = l := by
  refine ext_getElem (by simp [h]) fun t ht ht' => ?_
  simpa using (getElem_eq_getD 0).symm

theorem symbol_eq_sum {len : Nat} {sources : List Symbol} (hi : i < r.toNat)
    (hlen : ∀ source ∈ sources, length source = len) (n : Nat) (hn : n ≤ sources.length)
    (hr : r.toNat + n ≤ 256) :
    symbol sources len n r (ofNat i) = some ((range len).map fun t =>
      ∑ j ∈ Finset.range n, coefficient r.toNat i j * (sources.getD j []).getD t 0) := by
  unfold symbol
  induction n with
  | zero => simp
  | succ n ih =>
    rw [range_succ, foldlM_append, ih (by omega) (by omega)]
    have hsource : sources[n]? = some (sources.getD n []) := by
      rw [getD_eq_getElem?_getD, getElem?_eq_getElem (by omega)]
      rfl
    have hlength : (sources.getD n []).length = len := hlen _ (mem_of_getElem? hsource)
    simp only [bind_eq_bind, bind_some, foldlM_cons, foldlM_nil,
      cauchy_eq_coefficient hi (show r.toNat + n < 256 by omega), hsource, mulAddSlice_eq]
    rw [if_neg (by simp only [length_map, length_range, hlength, ne_eq, not_true_eq_false,
      not_false_eq_true])]
    simp only [bind_some, Finset.sum_range_succ]
    nth_rewrite 1 [← map_range_getD hlength]
    rw [zipWith_map, zipWith_self]
    rfl

/-- A group whose packets can be sent: `k` payloads, none of them longer than a length field can say. -/
structure FecGroup where
  groupId : UInt32
  k : UInt8
  r : UInt8
  payloads : List Symbol
  pos : 0 < k.toNat
  few : k.toNat + r.toNat ≤ 128
  complete : payloads.length = k.toNat
  short : ∀ payload ∈ payloads, List.length payload ≤ 65535

namespace FecGroup

variable (G : FecGroup)

def payload (j : Nat) : Symbol := G.payloads.getD j []

def len : Nat := longest G.payloads

def padded (j : Nat) : Symbol := resize (G.payload j) G.len

def symbol (i : Nat) : Symbol :=
  System.combine (fun j : Fin G.k.toNat => coefficient G.r.toNat i j) (fun j => G.padded j) G.len

def repair (i : Nat) : FecRepairData where
  groupId := G.groupId
  repairIdx := UInt8.ofNat i
  k := G.k
  r := G.r
  paddedLen := UInt16.ofNat G.len
  data := G.symbol i

def repairs : List FecRepairData := (List.range G.r.toNat).map G.repair

end FecGroup

def collecting (groupId : UInt32) (k r : UInt8) (payloads : List Symbol) : FecEncoder where
  groupId
  k
  r
  sources := payloads
  paddedLen := longest payloads
  sourceIdx := UInt8.ofNat payloads.length

theorem mapM_eq_some_map {α β : Type*} {f : α → Option β} {g : α → β} {l : List α}
    (h : ∀ a ∈ l, f a = some (g a)) : l.mapM f = some (l.map g) := by
  induction l with
  | nil => rfl
  | cons a l ih =>
    rw [mapM_cons, h a mem_cons_self, ih fun b hb => h b (mem_cons_of_mem a hb)]
    rfl

def repairOf (groupId : UInt32) (k r : UInt8) (payloads : List Symbol) (i : Nat) : FecRepairData where
  groupId
  repairIdx := UInt8.ofNat i
  k
  r
  paddedLen := UInt16.ofNat (longest payloads)
  data := System.combine (fun j : Fin k.toNat => coefficient r.toNat i j)
    (fun j => resize (payloads.getD j []) (longest payloads)) (longest payloads)

variable {k : UInt8} {payloads : List Symbol}

theorem emitRepairs_eq (e : FecEncoder) {actualK : UInt8} (hk : actualK.toNat ≤ e.sources.length)
    (hfew : actualK.toNat + e.r.toNat ≤ 256) :
    ∃ e', e.emitRepairs actualK = some ((range e.r.toNat).map fun i =>
      { groupId := e.groupId
        repairIdx := ofNat i
        k := actualK
        r := e.r
        paddedLen := UInt16.ofNat e.paddedLen
        data := System.combine (fun j : Fin actualK.toNat => coefficient e.r.toNat i j)
          (fun j => resize (e.sources.getD j []) e.paddedLen) e.paddedLen }, e') := by
  have hsymbol : ∀ i ∈ range e.r.toNat,
      symbol (e.sources.map fun source => resize source e.paddedLen) e.paddedLen
        actualK.toNat e.r (ofNat i) =
      some (System.combine (fun j : Fin actualK.toNat => coefficient e.r.toNat i j)
        (fun j => resize (e.sources.getD j []) e.paddedLen) e.paddedLen) := by
    intro i hi
    rw [symbol_eq_sum (mem_range.mp hi) (fun source hsource => ?_) _
      (by simp [hk]) (by omega)]
    · unfold System.combine
      simp only [Finset.sum_range]
      congr 1
      refine map_congr_left fun t _ => Finset.sum_congr rfl fun j _ => ?_
      congr 2
      rw [getD_eq_getElem?_getD, getD_eq_getElem?_getD, getElem?_map,
        getElem?_eq_getElem (j.2.trans_le hk)]
      rfl
    · obtain ⟨payload, -, rfl⟩ := mem_map.mp hsource
      exact length_resize _ _
  refine ⟨_, congrArg (Option.map _) (mapM_eq_some_map fun i hi => ?_)⟩
  rw [hsymbol i hi]
  rfl

theorem emitRepairs_collecting (G : FecGroup) :
    ∃ e, (collecting G.groupId G.k G.r G.payloads).emitRepairs G.k = some (G.repairs, e) :=
  emitRepairs_eq (collecting G.groupId G.k G.r G.payloads) G.complete.ge (G.few.trans (by decide))

variable {groupId : UInt32}

theorem pushSource_collecting (hlen : payloads.length < 255) (payload : Symbol) :
    (collecting groupId k r payloads).pushSource payload
      = if payloads.length + 1 = k.toNat then
          ((collecting groupId k r (payloads ++ [payload])).emitRepairs k).map fun r => (some r.1, r.2)
        else some (none, collecting groupId k r (payloads ++ [payload])) := by
  have hidx : ofNat payloads.length ≠ 255 := by
    intro heq
    have htoNat := congrArg toNat heq
    rw [toNat_ofNat_of_lt' (by show _ < 256; omega)] at htoNat
    exact absurd htoNat (by show payloads.length ≠ 255; omega)
  have hlongest : max (longest payloads) payload.length = longest (payloads ++ [payload]) := by
    unfold longest
    simp
  have hsucc : ofNat payloads.length + 1 = ofNat (payloads.length + 1) :=
    (ofNat_add _ _).symm
  unfold pushSource collecting
  dsimp only
  rw [if_neg hidx, hlongest, hsucc, length_append, length_singleton]

theorem encodeGroup_of_lt (hlen : payloads.length < k.toNat) :
    encodeGroup (.new groupId k r) payloads = some (none, collecting groupId k r payloads) := by
  have hk := k.toNat_lt
  induction payloads using reverseRecOn with
  | nil => rfl
  | append_singleton payloads payload ih =>
    rw [length_append, length_singleton] at hlen
    unfold encodeGroup at ih ⊢
    rw [foldlM_append, ih (by omega)]
    simp only [bind_eq_bind, bind_some, foldlM_cons, foldlM_nil]
    rw [pushSource_collecting (by omega), if_neg (by omega)]
    rfl

theorem encodeGroup_eq (G : FecGroup) :
    ∃ e, encodeGroup (.new G.groupId G.k G.r) G.payloads = some (some G.repairs, e) := by
  obtain ⟨e, he⟩ := emitRepairs_collecting G
  have hk := G.complete
  have hfew := G.few
  have hpos := G.pos
  have hne : G.payloads ≠ [] := by
    intro hnil
    rw [hnil, length_nil] at hk
    omega
  have hsplit := dropLast_append_getLast hne
  have hlen : G.payloads.dropLast.length + 1 = G.k.toNat := by
    rw [length_dropLast, hk]
    omega
  refine ⟨e, ?_⟩
  unfold encodeGroup
  rw [← hsplit, foldlM_append]
  have hfirst : encodeGroup (.new G.groupId G.k G.r) G.payloads.dropLast
      = some (none, collecting G.groupId G.k G.r G.payloads.dropLast) := encodeGroup_of_lt (by omega)
  unfold encodeGroup at hfirst
  rw [hfirst]
  simp only [bind_eq_bind, bind_some, foldlM_cons, foldlM_nil]
  rw [pushSource_collecting (by omega), if_pos hlen, hsplit, he]
  rfl

end SeamProtocol
