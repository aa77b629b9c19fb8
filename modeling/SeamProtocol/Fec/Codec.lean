import SeamProtocol.Fec.Field
import SeamProtocol.Lib.Cauchy
import SeamProtocol.Lib.Elimination
import SeamProtocol.Lib.SortedMap

/-! # Forward error correction

A group of `k` source packets gets `r` repair symbols, combinations of the padded sources with the
coefficients of a Cauchy matrix; the decoder finds the sources by Gaussian elimination. A call that
panics gives `none`; this includes the assertions and overflow checks of a debug build. -/

namespace SeamProtocol

open Lib List Option

abbrev Symbol := List Gf

def resize (data : Symbol) (len : Nat) : Symbol :=
  data.take len ++ List.replicate (len - data.length) 0

/-- An entry of the Cauchy matrix, `1 / (i + (r + j))`; `none` for a division by zero. -/
def cauchy (i j r : UInt8) : Option Gf := Gf.inv (i ^^^ (r + j))

def mulAddSlice (dst src : Symbol) (scalar : Gf) : Option Symbol :=
  if dst.length ≠ src.length then none
  else if scalar = 0 then some dst
  else if scalar = 1 then some (List.zipWith Gf.add dst src)
  else
    let logS := Gf.log scalar
    some (List.zipWith (fun d s => Gf.add d (if s = 0 then 0 else Gf.exp (logS + Gf.log s))) dst src)

/-! ## Repair packets -/

structure FecRepairData where
  groupId : UInt32
  repairIdx : UInt8
  k : UInt8
  r : UInt8
  paddedLen : UInt16
  data : Symbol
  deriving DecidableEq

namespace FecRepairData

def headerLen : Nat := 9

def toBytes (rep : FecRepairData) : Bytes :=
  leBytes 4 rep.groupId.toNat ++ [rep.repairIdx, rep.k, rep.r] ++ leBytes 2 rep.paddedLen.toNat
    ++ rep.data.map Gf.toByte

def fromBytes (buf : Bytes) : Option FecRepairData :=
  if buf.length < headerLen then none
  else
    let paddedLen := UInt16.ofNat (leNat ((buf.drop 7).take 2))
    if buf.length < headerLen + paddedLen.toNat then none
    else
      some
        { groupId := UInt32.ofNat (leNat (buf.take 4))
          repairIdx := buf.getD 4 0
          k := buf.getD 5 0
          r := buf.getD 6 0
          paddedLen
          data := (buf.drop headerLen).take paddedLen.toNat }

end FecRepairData

/-! ## Encoder -/

structure FecEncoder where
  groupId : UInt32
  k : UInt8
  r : UInt8
  sources : List Symbol
  paddedLen : Nat
  sourceIdx : UInt8
  deriving DecidableEq

namespace FecEncoder

def new (groupId : UInt32) (k r : UInt8) : FecEncoder := ⟨groupId, k, r, [], 0, 0⟩

def symbol (sources : List Symbol) (len k : Nat) (r i : UInt8) : Option Symbol :=
  (List.range k).foldlM (fun sym j =>
    (cauchy i (UInt8.ofNat j) r).bind fun c =>
      sources[j]?.bind fun source => mulAddSlice sym source c) (List.replicate len 0)

def emitRepairs (e : FecEncoder) (actualK : UInt8) : Option (List FecRepairData × FecEncoder) :=
  let len := e.paddedLen
  let sources := e.sources.map fun source => resize source len
  let repairs := (List.range e.r.toNat).mapM fun i =>
    (symbol sources len actualK.toNat e.r (UInt8.ofNat i)).map fun data =>
      ({ groupId := e.groupId, repairIdx := UInt8.ofNat i, k := actualK, r := e.r,
         paddedLen := UInt16.ofNat len, data } : FecRepairData)
  repairs.map fun repairs =>
    (repairs, { e with groupId := e.groupId + 1, sources := [], paddedLen := 0, sourceIdx := 0 })

def pushSource (e : FecEncoder) (payload : Symbol) :
    Option (Option (List FecRepairData) × FecEncoder) :=
  if e.sourceIdx = 255 then none
  else
    let e := { e with
      paddedLen := max e.paddedLen payload.length
      sources := e.sources ++ [payload]
      sourceIdx := e.sourceIdx + 1 }
    if e.sources.length = e.k.toNat then
      (e.emitRepairs e.k).map fun r => (some r.1, r.2)
    else some (none, e)

def flush (e : FecEncoder) : Option (Option (List FecRepairData) × FecEncoder) :=
  if e.sources.isEmpty then some (none, e)
  else (e.emitRepairs (UInt8.ofNat e.sources.length)).map fun r => (some r.1, r.2)

end FecEncoder

/-! ## Decoder -/

def collect {k : Nat} {α : Type*} (f : Fin k → Option α) : Option (Fin k → α) :=
  if h : ∀ i, (f i).isSome = true then some fun i => (f i).get (h i) else none

abbrev Recovered := List (Nat × Symbol)

structure GroupState where
  k : UInt8
  r : UInt8
  paddedLen : Nat
  sources : SortedMap Nat Symbol
  repairs : SortedMap Nat Symbol
  recovered : Bool
  deriving DecidableEq

namespace GroupState

def new (k r : UInt8) (paddedLen : Nat) : GroupState := ⟨k, r, paddedLen, ∅, ∅, false⟩

def missing (g : GroupState) : List Nat :=
  (List.range g.k.toNat).filter fun i => (g.sources.get? i).isNone

def row (g : GroupState) (places : List (Nat × Nat)) (col : Fin g.k.toNat) :
    Option ((Fin g.k.toNat → Gf) × Symbol) :=
  match g.sources.get? col with
  | some source => some (fun j => if col = j then 1 else 0, source)
  | none =>
    -- there is a place for every missing column
    (places.lookup (col : Nat)).bind fun ri =>
      (collect fun j => cauchy (UInt8.ofNat ri) (UInt8.ofNat j) g.r).bind fun coeffs =>
        (g.repairs.get? ri).map fun symbol => (coeffs, symbol)

def gaussRhs {k : Nat} (s : System Gf k) : Option (Option (System Gf k)) := s.eliminate

def solve (g : GroupState) : Option (Option Recovered × GroupState) :=
  let missing := g.missing
  let availRep := g.repairs.keys.take missing.length
  if availRep.length ≠ missing.length then none
  else
    match collect (g.row (missing.zip availRep)) with
    | none => some (none, g)
    | some rows =>
      match gaussRhs ⟨fun i => (rows i).1, fun i => (rows i).2⟩ with
      | none => none
      | some none => some (none, g)
      | some (some s) =>
        some (some (missing.map fun i => (i, if h : i < g.k.toNat then s.rhs ⟨i, h⟩ else [])),
          { g with recovered := true })

def tryRecover (g : GroupState) : Option (Option Recovered × GroupState) :=
  if g.recovered then some (none, g)
  else
    let haveSrc := UInt8.ofNat g.sources.size
    let haveRep := UInt8.ofNat g.repairs.size
    if haveSrc = g.k then some (some [], { g with recovered := true })
    else if 256 ≤ haveSrc.toNat + haveRep.toNat then none
    else if haveSrc.toNat + haveRep.toNat < g.k.toNat then some (none, g)
    else if haveRep < UInt8.ofNat g.missing.length then some (none, g)
    else g.solve

def withSource (g : GroupState) (sourceIdx : UInt8) (data : Symbol) : GroupState :=
  let paddedLen := max g.paddedLen data.length
  { g with paddedLen, sources := g.sources.insert sourceIdx.toNat (resize data paddedLen) }

def withRepair (g : GroupState) (rep : FecRepairData) : GroupState :=
  let paddedLen := max g.paddedLen rep.paddedLen.toNat
  { g with paddedLen, repairs := g.repairs.insert rep.repairIdx.toNat (resize rep.data paddedLen) }

end GroupState

structure FecDecoder where
  groups : SortedMap Nat GroupState
  deriving DecidableEq

namespace FecDecoder

def new : FecDecoder := ⟨∅⟩

def update (d : FecDecoder) (groupId : UInt32) (g : GroupState) :
    Option (Option Recovered × FecDecoder) :=
  g.tryRecover.map fun r => (r.1, ⟨d.groups.insert groupId.toNat r.2⟩)

def addSource (d : FecDecoder) (groupId : UInt32) (sourceIdx k r : UInt8) (data : Symbol) :
    Option (Option Recovered × FecDecoder) :=
  let group := (d.groups.get? groupId.toNat).getD (GroupState.new k r data.length)
  d.update groupId (group.withSource sourceIdx data)

def addRepair (d : FecDecoder) (rep : FecRepairData) : Option (Option Recovered × FecDecoder) :=
  let group := (d.groups.get? rep.groupId.toNat).getD
    (GroupState.new rep.k rep.r rep.paddedLen.toNat)
  d.update rep.groupId (group.withRepair rep)

end FecDecoder

/-! ## Slices -/

@[simp] theorem length_resize (data : Symbol) (len : Nat) : (resize data len).length = len := by
  simp only [resize, length_append, length_take, length_replicate]
  omega

theorem mulAddSlice_eq (dst src : Symbol) (scalar : Gf) :
    mulAddSlice dst src scalar = if dst.length ≠ src.length then none
      else some (List.zipWith (fun d s => d + scalar * s) dst src) := by
  unfold mulAddSlice
  by_cases hlen : dst.length = src.length
  · rw [if_neg (not_not.mpr hlen), if_neg (not_not.mpr hlen)]
    split_ifs with hzero hone
    · simp only [hzero, zero_mul, add_zero]
      congr 1
      exact ext_getElem (by simp [hlen]) fun i _ _ => by simp
    · simp only [hone, one_mul]
      rfl
    · have hmul : ∀ d s : Gf, Gf.add d (if s = 0 then 0 else Gf.exp (Gf.log scalar + Gf.log s))
          = d + scalar * s := by
        intro d s
        rw [Gf.mul_def]
        simp only [hzero, false_or]
        rfl
      simp only [hmul]
  · rw [if_pos hlen, if_pos hlen]

/-! ## Rows -/

theorem collect_eq_some {k : Nat} {α : Type*} {f : Fin k → Option α} {g : Fin k → α} :
    collect f = some g ↔ ∀ i, f i = some (g i) := by
  unfold collect
  constructor
  · intro h i
    split_ifs at h with hall
    rw [← Option.some.inj h, some_get]
  · intro h
    have hall : ∀ i, (f i).isSome = true := fun i => by rw [h i]; rfl
    rw [dif_pos hall]
    congr 1
    funext i
    exact Option.some.inj ((some_get _).trans (h i))

variable {g : GroupState} {col : Fin g.k.toNat}

theorem GroupState.row_of_source {source : Symbol} (h : g.sources.get? col = some source)
    (places : List (Nat × Nat)) :
    g.row places col = some (fun j => if col = j then 1 else 0, source) := by
  unfold row
  rw [h]

theorem GroupState.row_rhs {places : List (Nat × Nat)} {row : (Fin g.k.toNat → Gf) × Symbol}
    (h : g.row places col = some row) :
    (∃ i, g.sources.get? i = some row.2) ∨ ∃ i, g.repairs.get? i = some row.2 := by
  unfold GroupState.row at h
  split at h
  · next source hsource =>
      cases h
      exact .inl ⟨_, hsource⟩
  · obtain ⟨ri, -, h⟩ := bind_eq_some_iff.mp h
    obtain ⟨coeffs, -, h⟩ := bind_eq_some_iff.mp h
    obtain ⟨symbol, hsymbol, rfl⟩ := map_eq_some_iff.mp h
    exact .inr ⟨ri, hsymbol⟩

theorem GroupState.tryRecover_of_recovered (h : g.recovered = true) :
    g.tryRecover = some (none, g) := by
  rw [tryRecover, if_pos h]

theorem GroupState.ofNat_size_ne (h : g.sources.size < g.k.toNat) :
    UInt8.ofNat g.sources.size ≠ g.k := by
  have hsize : (UInt8.ofNat g.sources.size).toNat = g.sources.size :=
    UInt8.toNat_ofNat_of_lt' (h.trans g.k.toNat_lt)
  intro heq
  rw [← heq, hsize] at h
  exact lt_irrefl _ h

theorem GroupState.tryRecover_of_lt (hactive : g.recovered = false)
    (hlt : g.sources.size + g.repairs.size < g.k.toNat) : g.tryRecover = some (none, g) := by
  have hk := g.k.toNat_lt
  unfold tryRecover
  rw [if_neg (by rw [hactive]; decide), if_neg (ofNat_size_ne (by omega)),
    UInt8.toNat_ofNat_of_lt' (show _ < 256 by omega), UInt8.toNat_ofNat_of_lt' (show _ < 256 by omega),
    if_neg (by omega), if_pos hlt]

theorem GroupState.length_take_keys (h : g.missing.length ≤ g.repairs.size) :
    (g.repairs.keys.take g.missing.length).length = g.missing.length := by
  rw [length_take, SortedMap.length_keys]
  exact Nat.min_eq_left h

end SeamProtocol
