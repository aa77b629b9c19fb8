import SeamProtocol.Fec.Holding

/-! # Recovery of a group

The decoder acts on the `k`-th packet of a group, whichever it is: unit rows for the sources and Cauchy
rows for the repair symbols make a system that determines the sources. -/

namespace SeamProtocol

open Lib List Option SortedMap GroupState UInt8 System

namespace FecGroup

variable {G : FecGroup}

/-! ## The equations of a group -/

def repairRow (G : FecGroup) (k i : Nat) (j : Fin k) : Gf := coefficient G.r.toNat i j

def unitRow {k : Nat} (col j : Fin k) : Gf := if col = j then 1 else 0

variable {as bs : List Nat} {a : Nat}

theorem exists_lookup_zip (hlen : as.length ≤ bs.length) (ha : a ∈ as) :
    ∃ b ∈ bs, (as.zip bs).lookup a = some b := by
  induction as generalizing bs with
  | nil => cases ha
  | cons a' as ih =>
    cases bs with
    | nil => exact absurd hlen (by simp)
    | cons b bs =>
      rw [zip_cons_cons, lookup_cons_eq_ite]
      split_ifs with heq
      · exact ⟨b, mem_cons_self, rfl⟩
      · obtain ⟨c, hc, hlookup⟩ := ih (Nat.le_of_succ_le_succ hlen)
          ((mem_cons.mp ha).resolve_left heq)
        exact ⟨c, mem_cons_of_mem b hc, hlookup⟩

theorem lookup_zip_injective (hnodup : bs.Nodup) {a' b : Nat} (h : (as.zip bs).lookup a = some b)
    (h' : (as.zip bs).lookup a' = some b) : a = a' := by
  induction as generalizing bs with
  | nil => cases h
  | cons a₀ as ih =>
    cases bs with
    | nil => cases h
    | cons b₀ bs =>
      have hrest : ∀ a, (as.zip bs).lookup a ≠ some b₀ := by
        intro a hlookup
        obtain ⟨l₁, l₂, heq, -⟩ := lookup_eq_some_iff.mp hlookup
        have hmem : (a, b₀) ∈ as.zip bs := heq ▸ mem_append_right l₁ mem_cons_self
        exact (nodup_cons.mp hnodup).1 (of_mem_zip hmem).2
      rw [zip_cons_cons, lookup_cons_eq_ite] at h h'
      split_ifs at h h' with heq heq'
      · rw [heq, heq']
      · cases h
        exact absurd h' (hrest a')
      · cases h'
        exact absurd h (hrest a)
      · exact ih (nodup_cons.mp hnodup).2 h h'

structure Equations (G : FecGroup) (g : GroupState)
    (rows : Fin g.k.toNat → (Fin g.k.toNat → Gf) × Symbol) (sub : Fin g.k.toNat → Nat) : Prop where
  held : ∀ (col : Fin g.k.toNat) (data : Symbol), g.sources.get? col = some data →
    rows col = (unitRow col, data)
  missing : ∀ col : Fin g.k.toNat, g.sources.get? col = none → sub col < G.r.toNat ∧
    rows col = (G.repairRow _ (sub col), G.symbol (sub col))
  distinct : ∀ col col' : Fin g.k.toNat, g.sources.get? col = none →
    g.sources.get? col' = none → sub col = sub col' → col = col'

section

variable {first : FecPacket} {pre : List FecPacket} {g : GroupState}

theorem Holds.size_add_missing (h : G.Holds first pre g) :
    g.sources.size + g.missing.length = G.k.toNat := by
  rw [← h.k_eq]
  refine size_add_length_missing fun j data hj => ?_
  rw [h.k_eq]
  exact h.has _ (h.mem_of_get? hj)

theorem Holds.mem_of_mem_keys (h : G.Holds first pre g) {i : Nat} (hi : i ∈ g.repairs.keys) :
    .repair i ∈ pre := by
  obtain ⟨data, hget⟩ := (g.repairs.mem_keys_iff i).mp hi
  rw [h.repair i] at hget
  by_contra hnot
  rw [if_neg hnot] at hget
  cases hget

def places (g : GroupState) : List (Nat × Nat) :=
  g.missing.zip (g.repairs.keys.take g.missing.length)

theorem row_of_missing (hfew : g.k.toNat + g.r.toNat ≤ 256) (hrep : ∀ i ∈ g.repairs.keys, i < g.r.toNat)
    (hlen : g.missing.length ≤ g.repairs.size) {col : Fin g.k.toNat} (hcol : g.sources.get? col = none) :
    ∃ ri data, (places g).lookup (col : Nat) = some ri ∧ ri < g.r.toNat ∧
      g.repairs.get? ri = some data ∧
      g.row (places g) col = some (fun j : Fin _ => coefficient g.r.toNat ri j, data) := by
  have hmem : (col : Nat) ∈ g.missing :=
    mem_filter.mpr ⟨mem_range.mpr col.2, by rw [hcol]; rfl⟩
  obtain ⟨ri, hri, hlookup⟩ := exists_lookup_zip (g.length_take_keys hlen).ge hmem
  have hkey := mem_of_mem_take hri
  have hlt := hrep ri hkey
  obtain ⟨data, hdata⟩ := (g.repairs.mem_keys_iff ri).mp hkey
  refine ⟨ri, data, hlookup, hlt, hdata, ?_⟩
  have hcoeffs : collect (fun j : Fin g.k.toNat => cauchy (ofNat ri) (ofNat j) g.r)
      = some fun j : Fin _ => coefficient g.r.toNat ri j :=
    collect_eq_some.mpr fun j => cauchy_eq_coefficient hlt (by omega)
  unfold row
  rw [hcol]
  simp [places, hlookup, hcoeffs, hdata]

theorem exists_rows (hfew : g.k.toNat + g.r.toNat ≤ 256) (hrep : ∀ i ∈ g.repairs.keys, i < g.r.toNat)
    (hlen : g.missing.length ≤ g.repairs.size) :
    ∃ (rows : Fin g.k.toNat → (Fin g.k.toNat → Gf) × Symbol) (sub : Fin g.k.toNat → Nat),
      collect (g.row (places g)) = some rows ∧
      (∀ (col : Fin g.k.toNat) data, g.sources.get? col = some data → rows col = (unitRow col, data)) ∧
      (∀ col : Fin g.k.toNat, g.sources.get? col = none → sub col < g.r.toNat ∧ ∃ data,
        g.repairs.get? (sub col) = some data ∧
        rows col = (fun j : Fin _ => coefficient g.r.toNat (sub col) j, data)) ∧
      ∀ col col' : Fin g.k.toNat, g.sources.get? col = none → g.sources.get? col' = none →
        sub col = sub col' → col = col' := by
  have hcol : ∀ col : Fin g.k.toNat, ∃ row ri, g.row (places g) col = some row ∧
      (∀ data, g.sources.get? col = some data → row = (unitRow col, data)) ∧
      (g.sources.get? col = none → (places g).lookup (col : Nat) = some ri ∧ ri < g.r.toNat ∧
        ∃ data, g.repairs.get? ri = some data ∧
          row = (fun j : Fin _ => coefficient g.r.toNat ri j, data)) := by
    intro col
    cases hget : g.sources.get? col with
    | none =>
      obtain ⟨ri, data, hlookup, hlt, hdata, hrow⟩ := row_of_missing hfew hrep hlen hget
      exact ⟨_, ri, hrow, nofun, fun _ => ⟨hlookup, hlt, data, hdata, rfl⟩⟩
    | some data =>
      refine ⟨_, 0, row_of_source hget _, fun data' hdata => ?_, nofun⟩
      cases hdata
      rfl
  choose rows sub hrow hheld hmissing using hcol
  refine ⟨rows, sub, collect_eq_some.mpr hrow, hheld, fun col hnone => (hmissing col hnone).2, ?_⟩
  intro col col' hnone hnone' heq
  have hlookup := (hmissing col hnone).1
  have hlookup' := (hmissing col' hnone').1
  rw [← heq] at hlookup'
  exact Fin.ext (lookup_zip_injective ((g.repairs.nodup_keys).sublist (take_sublist _ _))
    hlookup hlookup')

theorem Holds.equations (h : G.Holds first pre g) (hlen : g.missing.length ≤ g.repairs.size) :
    ∃ rows sub, collect (g.row (places g)) = some rows ∧ G.Equations g rows sub := by
  have hfew := G.few
  have hrep : ∀ i ∈ g.repairs.keys, i < g.r.toNat := fun i hi => h.r_eq ▸ h.has _ (h.mem_of_mem_keys hi)
  obtain ⟨rows, sub, hrows, hheld, hmissing, hdistinct⟩ := exists_rows (by rw [h.k_eq, h.r_eq]; omega)
    hrep hlen
  refine ⟨rows, sub, hrows, hheld, fun col hcol => ?_, hdistinct⟩
  obtain ⟨hlt, data, hdata, hrow⟩ := hmissing col hcol
  rw [h.repair] at hdata
  split_ifs at hdata
  cases hdata
  rw [h.r_eq] at hlt hrow
  exact ⟨hlt, hrow⟩

variable {rows : Fin g.k.toNat → (Fin g.k.toNat → Gf) × Symbol} {sub : Fin g.k.toNat → Nat}

theorem regular_of_rows {r : Nat} (hfew : g.k.toNat + r ≤ 256)
    (hheld : ∀ (col : Fin g.k.toNat) data, g.sources.get? col = some data → rows col = (unitRow col, data))
    (hmissing : ∀ col : Fin g.k.toNat, g.sources.get? col = none → sub col < r ∧
      (rows col).1 = fun j : Fin _ => coefficient r (sub col) j)
    (hdistinct : ∀ col col' : Fin g.k.toNat, g.sources.get? col = none → g.sources.get? col' = none →
      sub col = sub col' → col = col') :
    (⟨fun i => (rows i).1, fun i => (rows i).2⟩ : System Gf g.k.toNat).Regular := by
  have hnone : ∀ col : Fin g.k.toNat, ¬ (g.sources.get? col).isSome → g.sources.get? col = none :=
    fun _ => not_isSome_iff_eq_none.mp
  refine regular_of_unit_or_cauchy hfew (fun col => (g.sources.get? col).isSome) sub ?_
    (fun col hcol => hmissing col (hnone col hcol))
    fun col col' hcol hcol' => hdistinct col col' (hnone col hcol) (hnone col' hcol')
  intro col hcol
  obtain ⟨data, hdata⟩ := isSome_iff_exists.mp hcol
  exact congrArg Prod.fst (hheld col data hdata)

theorem Equations.regular (h : G.Equations g rows sub) (hk : g.k = G.k) :
    (⟨fun i => (rows i).1, fun i => (rows i).2⟩ : System Gf g.k.toNat).Regular := by
  have hfew := G.few
  refine regular_of_rows (r := G.r.toNat) (by rw [hk]; omega) h.held (fun col hcol => ?_) h.distinct
  obtain ⟨hlt, hrow⟩ := h.missing col hcol
  exact ⟨hlt, congrArg Prod.fst hrow⟩

/-! ## Recovery -/

def system (rows : Fin g.k.toNat → (Fin g.k.toNat → Gf) × Symbol) : System Gf g.k.toNat :=
  ⟨fun i => (rows i).1, fun i => (rows i).2⟩

theorem Holds.symbol_eq (h : G.Holds first pre g) (i : Nat) :
    G.symbol i = combine (G.repairRow g.k.toNat i) (fun j => G.padded j) G.len := by
  rw [h.k_eq]
  rfl

theorem Holds.solution (h : G.Holds first pre g) (hfull : G.lengthOf first = G.len)
    (heqs : G.Equations g rows sub) : (system rows).Solution (fun j => G.padded j) G.len := by
  intro col
  show (rows col).2 = combine (rows col).1 _ _
  cases hget : g.sources.get? col with
  | none =>
    rw [(heqs.missing col hget).2]
    exact h.symbol_eq _
  | some data =>
    obtain ⟨hlower, hupper, hdata⟩ := h.stored hget
    have hpadded : data = G.padded col := by
      rw [hfull] at hlower
      rw [hdata, hupper.antisymm hlower]
      rfl
    have hunit : combine (unitRow col) (fun j : Fin g.k.toNat => G.padded j) G.len
        = G.padded col := combine_unit (length_resize _ _) fun j => rfl
    rw [heqs.held col data hget, hunit]
    exact hpadded

theorem Holds.solve_eq (h : G.Holds first pre g) (hlen : g.missing.length ≤ g.repairs.size) :
    ∃ rows sub, G.Equations g rows sub ∧ g.solve = match (system rows).eliminate with
      | none => none
      | some none => some (none, g)
      | some (some s) =>
        some (some (g.missing.map fun i => (i, if h : i < g.k.toNat then s.rhs ⟨i, h⟩ else [])),
          { g with recovered := true }) := by
  obtain ⟨rows, sub, hrows, heqs⟩ := h.equations hlen
  refine ⟨rows, sub, heqs, ?_⟩
  unfold places at hrows
  unfold solve
  rw [if_neg (not_not.mpr (g.length_take_keys hlen)), hrows]
  rfl

def lost (G : FecGroup) (g : GroupState) : Recovered := g.missing.map fun j => (j, G.padded j)

section

variable (h : G.Holds first pre g)
include h

theorem Holds.solve_of_full (hlen : g.missing.length ≤ g.repairs.size)
    (hfull : G.lengthOf first = G.len) :
    g.solve = some (some (G.lost g), { g with recovered := true }) := by
  obtain ⟨rows, sub, heqs, hsolve⟩ := h.solve_eq hlen
  obtain ⟨s, hs, hrhs⟩ := eliminate_of_solution (heqs.regular h.k_eq) (h.solution hfull heqs)
    fun j => length_resize _ _
  rw [hsolve]
  unfold system
  rw [hs]
  rw [lost, map_congr_left fun i hi => ?_]
  have hlt : i < g.k.toNat := mem_range.mp (mem_filter.mp hi).1
  rw [dif_pos hlt, hrhs]

/-- **A short first packet leads to a panic** if a repair symbol is used: two rows of different lengths
have an entry in the same column. -/
theorem Holds.solve_of_short (hlen : g.missing.length ≤ g.repairs.size)
    (hpre : pre ≠ []) (hshort : G.lengthOf first ≠ G.len) (hmissing : g.missing ≠ []) :
    g.solve = none := by
  obtain ⟨rows, sub, heqs, hsolve⟩ := h.solve_eq hlen
  have hfew := G.few
  have hk : g.k.toNat = G.k.toNat := congrArg toNat h.k_eq
  rw [hsolve]
  cases hres : (system rows).eliminate with
  | none => rfl
  | some res =>
    cases res with
    | none => exact absurd hres (eliminate_ne_some_none (heqs.regular h.k_eq))
    | some s =>
      exfalso
      have hfits := length_eq_of_eliminate hres
      cases first with
      | repair i => exact hshort rfl
      | source j =>
        obtain ⟨data, hdata, hdlen⟩ := h.head hpre j rfl
        have hj : j < g.k.toNat := hk ▸ h.has _ (h.mem_of_get? hdata)
        obtain ⟨i, hi⟩ := exists_mem_of_ne_nil _ hmissing
        obtain ⟨hi, hnone⟩ := mem_filter.mp hi
        rw [mem_range] at hi
        rw [isNone_iff_eq_none] at hnone
        obtain ⟨hsub, hrow⟩ := heqs.missing ⟨i, hi⟩ hnone
        -- column `j` has an entry in its own row and in that of the repair symbol
        have hown := hfits ⟨j, hj⟩ ⟨j, hj⟩
        have hother := hfits ⟨i, hi⟩ ⟨j, hj⟩
        dsimp only [system] at hown hother
        rw [heqs.held ⟨j, hj⟩ data hdata] at hown
        rw [hrow] at hother
        have hlen' := hown (by simp [unitRow])
        rw [← hother (coefficient_ne_zero hsub (by show _ + j < _; omega)), length_symbol, hdlen]
          at hlen'
        exact hshort hlen'

theorem Holds.tryRecover_of_lt (hlt : pre.length < G.k.toNat) : g.tryRecover = some (none, g) :=
  GroupState.tryRecover_of_lt h.active (by rw [h.size, h.k_eq]; exact hlt)

theorem Holds.tryRecover_of_eq (hlen : pre.length = G.k.toNat) :
    g.tryRecover = if g.repairs.size = 0 then some (some [], { g with recovered := true })
      else g.solve := by
  have hsize := h.size
  have hsum := h.size_add_missing
  have hfew := G.few
  have hk : g.k.toNat = G.k.toNat := congrArg UInt8.toNat h.k_eq
  have hsrc : UInt8.ofNat g.sources.size = g.k ↔ g.repairs.size = 0 := by
    rw [← UInt8.toNat_inj, toNat_index (by omega)]
    omega
  unfold tryRecover
  rw [if_neg (by rw [h.active]; decide)]
  by_cases hzero : g.repairs.size = 0
  · simp [hsrc.mpr hzero, hzero]
  · have hrep : ¬UInt8.ofNat g.repairs.size < UInt8.ofNat g.missing.length := by
      rw [UInt8.lt_iff_toNat_lt, toNat_index (by omega), toNat_index (by omega)]
      omega
    rw [if_neg (fun heq => hzero (hsrc.mp heq)), if_neg hzero, toNat_index (by omega),
      toNat_index (by omega), if_neg (by omega), if_neg (by omega), if_neg hrep]

theorem Holds.repairs_size_eq_zero_iff : g.repairs.size = 0 ↔ ∀ p ∈ pre, p.isSource = true := by
  constructor
  · intro hzero p hp
    cases p with
    | source j => rfl
    | repair i =>
      have hget := h.repair i
      rw [if_pos hp, show g.repairs = ∅ from eq_of_entries
        (eq_nil_of_length_eq_zero hzero)] at hget
      cases hget
  · intro hall
    have hempty : g.repairs = ∅ := by
      refine ext_get? fun i => ?_
      have hnot : FecPacket.repair i ∉ pre := fun hmem => Bool.false_ne_true (hall _ hmem)
      simp [h.repair i, hnot]
    rw [hempty]
    rfl

theorem Holds.tryRecover (hlen : pre.length = G.k.toNat) :
    g.tryRecover = if (∀ p ∈ pre, p.isSource = true) ∨ G.lengthOf first = G.len then
      some (some (G.lost g), { g with recovered := true }) else none := by
  have hsize := h.size
  have hsum := h.size_add_missing
  have hpos := G.pos
  have hpre : pre ≠ [] := by
    rintro rfl
    rw [length_nil] at hlen
    omega
  have hzero_iff := h.repairs_size_eq_zero_iff
  rw [h.tryRecover_of_eq hlen]
  by_cases hzero : g.repairs.size = 0
  · have hnil : g.missing = [] := eq_nil_of_length_eq_zero (by omega)
    simp [hzero, Or.inl (hzero_iff.mp hzero), lost, hnil]
  · rw [if_neg hzero]
    by_cases hfull : G.lengthOf first = G.len
    · rw [if_pos (.inr hfull), h.solve_of_full (by omega) hfull]
    · have hmissing : g.missing ≠ [] := by
        intro hnil
        rw [hnil, length_nil] at hsum
        omega
      simp [not_or.mpr ⟨hzero ∘ hzero_iff.mpr, hfull⟩, h.solve_of_short (by omega) hpre hfull hmissing]

theorem Holds.mem_lost_iff {j : Nat} {data : Symbol} :
    (j, data) ∈ G.lost g ↔ j < G.k.toNat ∧ .source j ∉ pre ∧ data = G.padded j := by
  have hmissing : j ∈ g.missing ↔ j < G.k.toNat ∧ .source j ∉ pre := by
    rw [missing, List.mem_filter, List.mem_range, isNone_iff_eq_none, h.k_eq]
    refine and_congr_right fun _ => ⟨fun hnone hmem => ?_, h.absent j⟩
    obtain ⟨data, hdata, -⟩ := h.source j hmem
    rw [hnone] at hdata
    cases hdata
  rw [lost, List.mem_map, ← and_assoc, ← hmissing]
  constructor
  · rintro ⟨i, hi, heq⟩
    cases heq
    exact ⟨hi, rfl⟩
  · rintro ⟨hj, rfl⟩
    exact ⟨j, hj, rfl⟩

end

/-! ## All packets -/

def Holding (G : FecGroup) (first : FecPacket) (pre : List FecPacket) (d : FecDecoder) : Prop :=
  ∀ p, (pre = [] → p = first) → G.Holds first pre (G.groupFor d p)

variable {p : FecPacket}

theorem Holding.feed {d : FecDecoder} (h : G.Holding first pre d) (hp : G.Has p) (hnew : p ∉ pre)
    (hfirst : pre = [] → p = first) :
    ∃ g, G.Holds first (pre ++ [p]) g ∧ ∀ outs, G.feed G.repairs (outs, d) p
      = g.tryRecover.map fun res =>
          (outs ++ [res.1], ⟨d.groups.insert G.groupId.toNat res.2⟩) := by
  refine ⟨_, (h p hfirst).store hp hnew fun hnil => (hfirst hnil).symm, fun outs => ?_⟩
  rw [feed_eq hp, FecDecoder.update, Option.map_map]
  rfl

variable {l rest : List FecPacket}

theorem not_mem_of_nodup (h : (l ++ p :: rest).Nodup) : p ∉ l :=
  fun hmem => (nodup_append.mp h).2.2 p hmem p mem_cons_self rfl

theorem head?_of_first {es : List FecPacket} (h : l ++ [p] <+: es) (hnil : l = []) :
    es.head? = some p := by
  obtain ⟨rest, rfl⟩ := h
  rw [hnil]
  rfl

theorem exec_of_lt (hnodup : pre.Nodup) (hhas : ∀ p ∈ pre, G.Has p)
    (hfirst : ∀ p ∈ pre.head?, p = first) (hlt : pre.length < G.k.toNat) :
    ∃ d, exec (G.feed G.repairs) ([], .new) pre = some (replicate pre.length none, d) ∧
      G.Holding first pre d := by
  refine exec_replicate (G.Holding first) (fun p hp => ?_) fun l p d hpre hholding => ?_
  · cases hp rfl
    exact holds_new _
  obtain ⟨g, hg, hfeed⟩ := hholding.feed (hhas p (hpre.subset (by simp)))
    (not_mem_of_nodup (hnodup.sublist hpre.sublist)) (fun hnil => hfirst p (head?_of_first hpre hnil))
  rw [hg.tryRecover_of_lt (hpre.length_le.trans_lt hlt)] at hfeed
  refine ⟨⟨d.groups.insert G.groupId.toNat g⟩, hfeed, fun q _ => ?_⟩
  rw [groupFor, get?_insert_self]
  exact hg

theorem exec_of_recovered (outs : List (Option Recovered)) (groups : SortedMap Nat GroupState)
    (hrec : g.recovered = true) (hhas : ∀ p ∈ rest, G.Has p) :
    ∃ d, exec (G.feed G.repairs) (outs, ⟨groups.insert G.groupId.toNat g⟩) rest
      = some (outs ++ replicate rest.length none, d) := by
  induction rest generalizing outs groups g with
  | nil =>
    simp
  | cons p rest ih =>
    have hstore : (G.store g p).recovered = true := by
      cases p <;> exact hrec
    have hfor : G.groupFor ⟨groups.insert G.groupId.toNat g⟩ p = g := by
      rw [groupFor, get?_insert_self]
      rfl
    obtain ⟨d, hrun⟩ := ih (outs ++ [none]) (groups.insert G.groupId.toNat g) hstore
      fun q hq => hhas q (mem_cons_of_mem p hq)
    refine ⟨d, ?_⟩
    rw [exec_cons, feed_eq (hhas p mem_cons_self), FecDecoder.update, hfor,
      tryRecover_of_recovered hstore]
    simp only [map_some, bind_some]
    rw [hrun, append_assoc, length_cons, replicate_succ]
    rfl

/-- **A run with packet `k`** goes through if it leads to a recovery, and otherwise stops there. -/
theorem exec_eq (hnodup : (pre ++ p :: rest).Nodup) (hhas : ∀ q ∈ pre ++ p :: rest, G.Has q)
    (hlen : pre.length + 1 = G.k.toNat) (hfirst : ∀ q ∈ (pre ++ [p]).head?, q = first) :
    ∃ g, G.Holds first (pre ++ [p]) g ∧
      if (∀ q ∈ pre ++ [p], q.isSource = true) ∨ G.lengthOf first = G.len then
        ∃ d, exec (G.feed G.repairs) ([], .new) (pre ++ p :: rest) = some
          (replicate pre.length none ++ some (G.lost g) :: replicate rest.length none, d)
      else exec (G.feed G.repairs) ([], .new) (pre ++ p :: rest) = none := by
  have hfirst' : ∀ q ∈ pre.head?, q = first := by
    intro q hq
    refine hfirst q ?_
    rw [head?_append, hq]
    rfl
  obtain ⟨d, hrun, hholding⟩ := exec_of_lt (nodup_append.mp hnodup).1
    (fun q hq => hhas q (mem_append_left _ hq)) hfirst' (by omega)
  obtain ⟨g, hg, hfeed⟩ := hholding.feed (hhas p (mem_append_right _ mem_cons_self))
    (not_mem_of_nodup hnodup) (fun hnil => hfirst p (by rw [hnil]; rfl))
  rw [hg.tryRecover (by simp [hlen])] at hfeed
  refine ⟨g, hg, ?_⟩
  rw [exec_append, hrun, bind_some, exec_cons, hfeed]
  by_cases hgood : (∀ q ∈ pre ++ [p], q.isSource = true) ∨ G.lengthOf first = G.len
  · rw [if_pos hgood, if_pos hgood]
    obtain ⟨d', hrest⟩ := exec_of_recovered (g := { g with recovered := true })
      (replicate pre.length none ++ [some (G.lost g)]) d.groups rfl
      fun q hq => hhas q (mem_append_right _ (mem_cons_of_mem p hq))
    simp [hrest]
  · rw [if_neg hgood, if_neg hgood]
    rfl

end

theorem nodup_lost (G : FecGroup) (g : GroupState) : ((G.lost g).map Prod.fst).Nodup := by
  rw [lost, List.map_map]
  exact (congrArg List.Nodup (List.map_id _)).mpr (List.nodup_range.filter _)

theorem getElem?_results {n m i : Nat} {list other : Recovered}
    (h : (replicate n none ++ some list :: replicate m none)[i]? = some (some other)) :
    i = n := by
  rw [getElem?_append] at h
  split_ifs at h with hlt
  · rw [length_replicate] at hlt
    rw [getElem?_replicate_of_lt hlt] at h
    cases h
  · rw [length_replicate] at hlt h
    cases hsub : i - n with
    | zero => omega
    | succ k =>
      rw [hsub, getElem?_cons_succ, getElem?_replicate] at h
      split_ifs at h
      cases h

theorem recovers_iff_of_split {pre rest : List FecPacket} {p : FecPacket}
    (hnodup : (pre ++ p :: rest).Nodup) (hhas : ∀ q ∈ pre ++ p :: rest, G.Has q)
    (hlen : pre.length + 1 = G.k.toNat) :
    G.Recovers G.repairs (pre ++ p :: rest) ↔ G.LongFirst (pre ++ p :: rest) := by
  have htake : (pre ++ p :: rest).take (pre.length + 1) = pre ++ [p] := by
    rw [take_append, take_of_length_le (by omega), Nat.add_sub_cancel_left]
    rfl
  have hhead : ∀ l : List FecPacket, (pre ++ p :: l).head? = some (pre.headD p) := by
    intro l
    cases pre <;> rfl
  have hlong : G.LongFirst (pre ++ p :: rest) ↔
      (∀ q ∈ pre ++ [p], q.isSource = true) ∨ G.lengthOf (pre.headD p) = G.len := by
    unfold LongFirst
    rw [← hlen, htake, hhead]
    simp
  obtain ⟨g, hg, hrun⟩ := exec_eq hnodup hhas hlen
    (show ∀ q ∈ (pre ++ [p]).head?, q = pre.headD p by
      rw [hhead]
      exact fun q hq => (Option.some.inj hq).symm)
  rw [hlong]
  split_ifs at hrun with hgood
  · obtain ⟨d, hrun⟩ := hrun
    refine iff_of_true ⟨_, d, hrun, pre.length, by omega, G.lost g, ?_, ?_, nodup_lost G g, ?_⟩ hgood
    · simp
    · intro m hm other hother
      exact hm (getElem?_results hother)
    · intro j data
      rw [htake]
      exact hg.mem_lost_iff
  · refine iff_of_false ?_ hgood
    rintro ⟨outs, d, hsome, -⟩
    rw [hrun] at hsome
    cases hsome

end FecGroup

/-- **The sources of a group are recovered from any `k` packets if and only if the first packet has the
full length, or no repair symbol is needed**, for every selection and order. -/
theorem recovers_iff_longFirst (G : FecGroup) {packets : List FecPacket} (hnodup : packets.Nodup)
    (hhas : ∀ p ∈ packets, G.Has p) (henough : G.k.toNat ≤ packets.length) :
    ∃ repairs e, encodeGroup (.new G.groupId G.k G.r) G.payloads = some (some repairs, e) ∧
      repairs.length = G.r.toNat ∧ (G.Recovers repairs packets ↔ G.LongFirst packets) := by
  obtain ⟨e, he⟩ := encodeGroup_eq G
  refine ⟨G.repairs, e, he, by simp [FecGroup.repairs], ?_⟩
  have hpos := G.pos
  obtain ⟨p, rest, hdrop⟩ : ∃ p rest, packets.drop (G.k.toNat - 1) = p :: rest :=
    exists_cons_of_ne_nil (by rw [ne_eq, drop_eq_nil_iff]; omega)
  have hsplit : packets = packets.take (G.k.toNat - 1) ++ p :: rest := by
    simp [← hdrop]
  have hlen : (packets.take (G.k.toNat - 1)).length + 1 = G.k.toNat := by
    rw [length_take]
    omega
  rw [hsplit] at hnodup hhas ⊢
  exact FecGroup.recovers_iff_of_split hnodup hhas hlen

/-! ## Concrete packets -/

def twoSources : FecGroup where
  groupId := 1
  k := 2
  r := 1
  payloads := [[Gf.ofNat 7], [Gf.ofNat 8, Gf.ofNat 9]]
  pos := by decide
  few := by decide
  complete := rfl
  short := by decide

/-- The longer source and the repair symbol are enough. -/
theorem recovers_long_source_first :
    ∃ repairs e, encodeGroup (.new 1 2 1) twoSources.payloads = some (some repairs, e) ∧
      repairs.length = 1 ∧ twoSources.Recovers repairs [.source 1, .repair 0] := by
  obtain ⟨repairs, e, he, hlen, hiff⟩ := recovers_iff_longFirst twoSources
    (show [FecPacket.source 1, .repair 0].Nodup by decide) (by decide) (by decide)
  exact ⟨repairs, e, he, hlen, hiff.mpr (by decide)⟩

/-- **With the shorter source first, the repair symbol makes the decoder panic.** -/
theorem short_source_then_repair_panics :
    ∃ repairs e, encodeGroup (.new 1 2 1) twoSources.payloads = some (some repairs, e) ∧
      exec (twoSources.feed repairs) ([], .new) [.source 0, .repair 0] = none ∧
      ¬twoSources.Recovers repairs [.source 0, .repair 0] := by
  have hany : (encodeGroup (.new 1 2 1) twoSources.payloads).any (fun res =>
      res.1.any fun repairs =>
        decide (exec (twoSources.feed repairs) ([], .new) [.source 0, .repair 0] = none)) = true := by
    decide +kernel
  obtain ⟨⟨repairs, e⟩, he, hres⟩ := (any_eq_true _ _).mp hany
  obtain ⟨repairs, rfl, hpanic⟩ := (any_eq_true _ _).mp hres
  have hnone := of_decide_eq_true hpanic
  refine ⟨repairs, e, he, hnone, ?_⟩
  rintro ⟨outs, d, hsome, -⟩
  rw [hnone] at hsome
  cases hsome

end SeamProtocol
