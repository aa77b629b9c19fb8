import SeamProtocol.Error
import SeamProtocol.Lib.Bitmap

/-! # The anti-replay window

A base number and a 1024-bit bitmap of the packet numbers accepted from the base on. `check` is made
before a packet is authenticated, `commit` records the number afterwards and slides the window when
needed. -/

namespace SeamProtocol

open Lib UInt64 Bitmap

structure ReplayWindow where
  baseSeq : UInt64
  bitmap : Bitmap 16
  deriving DecidableEq

namespace ReplayWindow

def new : ReplayWindow := ⟨0, Bitmap.zero⟩

def check (w : ReplayWindow) (seq : UInt64) : Except SeamError Unit :=
  if seq < w.baseSeq then .error (.tooOld seq)
  else
    let offset := seq - w.baseSeq
    if offset < 1024 then
      if w.bitmap.test offset.toNat then .error (.replay seq) else .ok ()
    else .ok ()

/-- Slide the window forward so that `offset` falls on its last slot, if it lies past the end. -/
def slideTo (w : ReplayWindow) (offset : UInt64) : ReplayWindow :=
  if 1024 ≤ offset then
    let slide := offset - 1023
    { baseSeq := w.baseSeq + slide
      bitmap := if 1024 ≤ slide then Bitmap.zero else w.bitmap.shiftDown slide.toNat }
  else w

def commit (w : ReplayWindow) (seq : UInt64) : Except SeamError Unit × ReplayWindow :=
  if seq < w.baseSeq then (.error (.tooOld seq), w)
  else
    let w := w.slideTo (seq - w.baseSeq)
    let bitPos := (seq - w.baseSeq).toNat
    if w.bitmap.test bitPos then (.error (.replay seq), w)
    else (.ok (), { w with bitmap := w.bitmap.setBit bitPos })

def checkAndInsert (w : ReplayWindow) (seq : UInt64) : Except SeamError Unit × ReplayWindow :=
  match w.check seq with
  | .error e => (.error e, w)
  | .ok () => w.commit seq

/-! ## The slide, in natural numbers -/

variable {w : ReplayWindow} {seq : UInt64}

section

variable (h : ¬ seq < w.baseSeq)
include h

theorem toNat_offset : (seq - w.baseSeq).toNat = seq.toNat - w.baseSeq.toNat :=
  UInt64.toNat_sub_of_le _ _ (UInt64.not_lt.mp h)

theorem base_le : w.baseSeq.toNat ≤ seq.toNat :=
  UInt64.le_iff_toNat_le.mp (UInt64.not_lt.mp h)

theorem toNat_slide (hs : 1024 ≤ seq - w.baseSeq) :
    w.baseSeq.toNat + 1024 ≤ seq.toNat ∧
      (seq - w.baseSeq - 1023).toNat = seq.toNat - w.baseSeq.toNat - 1023 := by
  have hfar : 1024 ≤ (seq - w.baseSeq).toNat := UInt64.le_iff_toNat_le.mp hs
  have h1023 : (1023 : UInt64) ≤ seq - w.baseSeq :=
    UInt64.le_iff_toNat_le.mpr (le_trans (by decide) hfar)
  rw [UInt64.toNat_sub_of_le _ _ h1023, toNat_offset h]
  rw [toNat_offset h] at hfar
  exact ⟨by omega, rfl⟩

theorem lt_of_not_slide (hs : ¬ 1024 ≤ seq - w.baseSeq) : seq.toNat < w.baseSeq.toNat + 1024 := by
  have hlt : (seq - w.baseSeq).toNat < 1024 := UInt64.lt_iff_toNat_lt.mp (UInt64.not_le.mp hs)
  rw [toNat_offset h] at hlt
  omega

theorem toNat_slideTo_baseSeq :
    (w.slideTo (seq - w.baseSeq)).baseSeq.toNat = max w.baseSeq.toNat (seq.toNat - 1023) := by
  have hlt := seq.toNat_lt
  unfold slideTo
  split
  · next hs =>
      obtain ⟨hfar, hslide⟩ := toNat_slide h hs
      simp only [UInt64.toNat_add, hslide]
      omega
  · next hs =>
      have hin := lt_of_not_slide h hs
      omega

theorem bit_slideTo {p : Nat} (hp : p < 1024) :
    (w.slideTo (seq - w.baseSeq)).bitmap.bit p =
      w.bitmap.bit ((w.slideTo (seq - w.baseSeq)).baseSeq.toNat + p - w.baseSeq.toNat) := by
  rw [toNat_slideTo_baseSeq h]
  unfold slideTo
  split
  · next hs =>
      obtain ⟨hlong, hslide⟩ := toNat_slide h hs
      have hpos : max w.baseSeq.toNat (seq.toNat - 1023) + p - w.baseSeq.toNat
          = p + (seq.toNat - w.baseSeq.toNat - 1023) := by omega
      rw [hpos]
      by_cases hfar : (1024 : UInt64) ≤ seq - w.baseSeq - 1023
      · -- the whole old window has left: every slot it would read lies past its end
        have hfar' : 1024 ≤ (seq - w.baseSeq - 1023).toNat := le_iff_toNat_le.mp hfar
        have hpast : ¬ (p + (seq.toNat - w.baseSeq.toNat - 1023)) / 64 < 16 := by omega
        simp only [hfar, if_true, bit_zero]
        rw [bit, dif_neg hpast]
      · simp only [hfar, if_false]
        rw [bit_shiftDown _ _ (by omega), hslide]
  · next hs =>
      have hin := lt_of_not_slide h hs
      congr 1
      omega

theorem bit_commit_slot :
    (w.slideTo (seq - w.baseSeq)).bitmap.bit
        (seq - (w.slideTo (seq - w.baseSeq)).baseSeq).toNat
      = w.bitmap.bit (seq.toNat - w.baseSeq.toNat) := by
  have hbase := toNat_slideTo_baseSeq h
  have hle := base_le h
  have hnot : ¬ seq < (w.slideTo (seq - w.baseSeq)).baseSeq := by
    rw [lt_iff_toNat_lt, hbase]
    omega
  rw [toNat_offset hnot, hbase, bit_slideTo h (by omega), hbase]
  congr 1
  omega

end

/-! ## `check` and `commit` agree -/

theorem check_eq (w : ReplayWindow) (seq : UInt64) :
    w.check seq = if seq.toNat < w.baseSeq.toNat then .error (.tooOld seq)
      else if w.bitmap.bit (seq.toNat - w.baseSeq.toNat) then .error (.replay seq) else .ok () := by
  unfold check
  by_cases h : seq < w.baseSeq
  · simp [h, lt_iff_toNat_lt.mp h]
  · rw [if_neg h, if_neg (fun hc => h (lt_iff_toNat_lt.mpr hc))]
    simp only [test_eq_bit, toNat_offset h]
    by_cases hin : seq - w.baseSeq < 1024
    · rw [if_pos hin]
    · have hpast : ¬ (seq.toNat - w.baseSeq.toNat) / 64 < 16 := by
        rw [lt_iff_toNat_lt, toNat_offset h] at hin
        have : (1024 : UInt64).toNat = 1024 := rfl
        omega
      simp [hin, bit, hpast]

theorem commit_fst (w : ReplayWindow) (seq : UInt64) : (w.commit seq).1 = w.check seq := by
  rw [check_eq]
  unfold commit
  by_cases h : seq < w.baseSeq
  · simp [h, lt_iff_toNat_lt.mp h]
  · rw [if_neg h, if_neg (fun hc => h (lt_iff_toNat_lt.mpr hc))]
    simp only [test_eq_bit, bit_commit_slot h]
    split <;> rfl

/-- **A refused commit changes nothing**: the only slot a slide brings in is a clear one. -/
theorem commit_snd_of_error {e : SeamError} (h : (w.commit seq).1 = .error e) :
    (w.commit seq).2 = w := by
  rw [commit_fst, check_eq] at h
  unfold commit
  by_cases hlt : seq < w.baseSeq
  · rw [if_pos hlt]
  · rw [if_neg (fun hc => hlt (lt_iff_toNat_lt.mpr hc))] at h
    have hbit : w.bitmap.bit (seq.toNat - w.baseSeq.toNat) = true := by
      by_contra hc
      rw [if_neg hc] at h
      cases h
    -- the bit is set, so the number lies inside the window and no slide is made
    have hin : (seq.toNat - w.baseSeq.toNat) / 64 < 16 := by
      by_contra hc
      rw [bit, dif_neg hc] at hbit
      cases hbit
    have hstay : w.slideTo (seq - w.baseSeq) = w := by
      unfold slideTo
      rw [if_neg]
      rw [le_iff_toNat_le, toNat_offset hlt]
      have : (1024 : UInt64).toNat = 1024 := rfl
      omega
    rw [if_neg hlt, hstay]
    simp [test_eq_bit, toNat_offset hlt, hbit]

theorem commit_snd_of_ok (hok : (w.commit seq).1 = .ok ()) :
    ¬ seq < w.baseSeq ∧
      (w.commit seq).2 = { w.slideTo (seq - w.baseSeq) with
        bitmap := (w.slideTo (seq - w.baseSeq)).bitmap.setBit
          (seq.toNat - (w.slideTo (seq - w.baseSeq)).baseSeq.toNat) } := by
  have hnot : ¬ seq < w.baseSeq := by
    intro hc
    rw [commit_fst, ReplayWindow.check_eq, if_pos (lt_iff_toNat_lt.mp hc)] at hok
    cases hok
  have hbase := toNat_slideTo_baseSeq hnot
  have hle := base_le hnot
  set w' := w.slideTo (seq - w.baseSeq) with hw'
  have hnot' : ¬ seq < w'.baseSeq := by
    rw [lt_iff_toNat_lt, hbase]
    omega
  have htest : ¬ w'.bitmap.test (seq - w'.baseSeq).toNat = true := by
    intro hc
    unfold commit at hok
    simp only [if_neg hnot, ← hw', if_pos hc] at hok
    cases hok
  refine ⟨hnot, ?_⟩
  unfold commit
  simp only [if_neg hnot, ← hw', if_neg htest]
  rw [toNat_offset hnot']

variable {s : UInt64}

/-- **Refusal is for good**: a number the window admits after a commit was admitted before it, and is
not the committed one. -/
theorem check_of_check_commit (hok : (w.commit seq).1 = .ok ())
    (hs : (w.commit seq).2.check s = .ok ()) : w.check s = .ok () ∧ s ≠ seq := by
  obtain ⟨hnot, hstate⟩ := commit_snd_of_ok hok
  have hbase := toNat_slideTo_baseSeq hnot
  rw [hstate, check_eq] at hs
  rw [check_eq]
  set w' := w.slideTo (seq - w.baseSeq) with hw'
  by_cases hlow : s.toNat < w'.baseSeq.toNat
  · simp only [if_pos hlow] at hs
    cases hs
  · simp only [if_neg hlow] at hs
    have hlow' : ¬ s.toNat < w.baseSeq.toNat := by omega
    rw [if_neg hlow']
    by_cases hin : (s.toNat - w'.baseSeq.toNat) / 64 < 16
    · -- inside the new window the slot kept its bit over the slide
      have hslot : w'.bitmap.bit (s.toNat - w'.baseSeq.toNat)
          = w.bitmap.bit (s.toNat - w.baseSeq.toNat) := by
        have hp : s.toNat - w'.baseSeq.toNat < 1024 := by omega
        have hidx : w'.baseSeq.toNat + (s.toNat - w'.baseSeq.toNat) - w.baseSeq.toNat
            = s.toNat - w.baseSeq.toNat := by omega
        rw [hw', bit_slideTo hnot hp, ← hw', hidx]
      rw [bit_setBit _ (show (seq.toNat - w'.baseSeq.toNat) / 64 < 16 by omega),
        hslot] at hs
      by_cases hbit : w.bitmap.bit (s.toNat - w.baseSeq.toNat) = true
      · simp [hbit] at hs
      · refine ⟨if_neg hbit, fun heq => ?_⟩
        simp [heq] at hs
    · have hpast : ¬ (s.toNat - w.baseSeq.toNat) / 64 < 16 := by omega
      rw [bit, dif_neg hpast]
      exact ⟨rfl, fun heq => by rw [heq] at hin; omega⟩

/-! ## The window as an image of the accepted numbers -/

def maxSeq (accepted : List UInt64) : Nat := (accepted.map UInt64.toNat).foldr max 0

@[simp] theorem maxSeq_cons (s : UInt64) (accepted : List UInt64) :
    maxSeq (s :: accepted) = max s.toNat (maxSeq accepted) := rfl

variable {accepted : List UInt64}

theorem toNat_le_maxSeq (h : s ∈ accepted) : s.toNat ≤ maxSeq accepted := by
  induction accepted with
  | nil => cases h
  | cons a as ih =>
    rcases List.mem_cons.mp h with rfl | h
    · exact le_max_left _ _
    · exact le_max_of_le_right (ih h)

/-- The base of the window is 1023 below the largest accepted number, and each slot is set exactly when
its number has been accepted. -/
structure Represents (w : ReplayWindow) (accepted : List UInt64) : Prop where
  base : w.baseSeq.toNat = maxSeq accepted - 1023
  bits : ∀ p, p < 1024 →
    (w.bitmap.bit p = true ↔ ∃ s ∈ accepted, s.toNat = w.baseSeq.toNat + p)

theorem represents_new : Represents new [] :=
  ⟨rfl, fun p _ => by simp [new]⟩

theorem Represents.bit_iff (h : Represents w accepted) (hle : w.baseSeq.toNat ≤ seq.toNat) :
    w.bitmap.bit (seq.toNat - w.baseSeq.toNat) = true ↔ seq ∈ accepted := by
  by_cases hin : seq.toNat - w.baseSeq.toNat < 1024
  · rw [h.bits _ hin]
    constructor
    · rintro ⟨s, hs, heq⟩
      have : s = seq := UInt64.toNat_inj.mp (by omega)
      exact this ▸ hs
    · intro hs
      exact ⟨seq, hs, by omega⟩
  · have hpast : ¬ (seq.toNat - w.baseSeq.toNat) / 64 < 16 := by omega
    rw [bit, dif_neg hpast]
    constructor
    · intro hc
      cases hc
    · intro hs
      have := toNat_le_maxSeq hs
      have := h.base
      omega

theorem Represents.check_eq (h : Represents w accepted) (seq : UInt64) :
    w.check seq = if seq.toNat + 1023 < maxSeq accepted then .error (.tooOld seq)
      else if seq ∈ accepted then .error (.replay seq) else .ok () := by
  have hb := h.base
  rw [ReplayWindow.check_eq]
  by_cases hold : seq.toNat < w.baseSeq.toNat
  · have hold' : seq.toNat + 1023 < maxSeq accepted := by omega
    rw [if_pos hold, if_pos hold']
  · have hold' : ¬ seq.toNat + 1023 < maxSeq accepted := by omega
    rw [if_neg hold, if_neg hold']
    by_cases hs : seq ∈ accepted
    · simp [hs, (h.bit_iff (by omega)).mpr hs]
    · rw [if_neg hs, if_neg (fun hc => hs ((h.bit_iff (by omega)).mp hc))]

/-- **A successful commit adds its number to the record**, whatever the slide distance. -/
theorem represents_commit (h : Represents w accepted) (hok : (w.commit seq).1 = .ok ()) :
    Represents (w.commit seq).2 (seq :: accepted) := by
  have hb := h.base
  obtain ⟨hnot, hstate⟩ := commit_snd_of_ok hok
  have hle := base_le hnot
  have hbase := toNat_slideTo_baseSeq hnot
  set w' := w.slideTo (seq - w.baseSeq) with hw'
  rw [hstate]
  refine ⟨?_, fun p hp => ?_⟩
  · simp only [maxSeq_cons]
    omega
  · -- slot `p` of the new window is the number `w'.baseSeq + p`
    have hbit : w'.bitmap.bit p = true ↔ ∃ s ∈ accepted, s.toNat = w'.baseSeq.toNat + p := by
      rw [hw', bit_slideTo hnot hp, ← hw']
      by_cases hin : w'.baseSeq.toNat + p - w.baseSeq.toNat < 1024
      · rw [h.bits _ hin]
        have : w.baseSeq.toNat + (w'.baseSeq.toNat + p - w.baseSeq.toNat)
            = w'.baseSeq.toNat + p := by omega
        rw [this]
      · have hpast : ¬ (w'.baseSeq.toNat + p - w.baseSeq.toNat) / 64 < 16 := by omega
        rw [bit, dif_neg hpast]
        constructor
        · intro hc
          cases hc
        · rintro ⟨s, hs, heq⟩
          have := toNat_le_maxSeq hs
          omega
    simp only [bit_setBit _ (show (seq.toNat - w'.baseSeq.toNat) / 64 < 16 by omega),
      Bool.or_eq_true, decide_eq_true_eq, hbit, List.mem_cons, exists_eq_or_imp]
    constructor
    · rintro (hs | hs)
      · exact .inr hs
      · exact .inl (by omega)
    · rintro (hs | hs)
      · exact .inr (by omega)
      · exact .inl hs

end ReplayWindow

/-! ## Runs of the window -/

inductive ReplayOp where
  | check (seq : UInt64)
  | commit (seq : UInt64)
  | checkAndInsert (seq : UInt64)

def ReplayOp.apply (w : ReplayWindow) : ReplayOp → Except SeamError Unit × ReplayWindow
  | .check seq => (w.check seq, w)
  | .commit seq => w.commit seq
  | .checkAndInsert seq => w.checkAndInsert seq

def ReplayOp.committed : ReplayOp → Option UInt64
  | .check _ => none
  | .commit seq => some seq
  | .checkAndInsert seq => some seq

def replayStep (state : ReplayWindow × List UInt64) (op : ReplayOp) :
    ReplayWindow × List UInt64 :=
  match (op.apply state.1).1, op.committed with
  | .ok (), some seq => ((op.apply state.1).2, seq :: state.2)
  | _, _ => ((op.apply state.1).2, state.2)

def replayRun (ops : List ReplayOp) : ReplayWindow × List UInt64 :=
  ops.foldl replayStep (ReplayWindow.new, [])

theorem ReplayWindow.checkAndInsert_eq (w : ReplayWindow) (seq : UInt64) :
    w.checkAndInsert seq = w.commit seq := by
  have hfst := commit_fst w seq
  unfold checkAndInsert
  cases h : w.check seq with
  | error e =>
    rw [h] at hfst
    exact Prod.ext hfst.symm (commit_snd_of_error hfst).symm
  | ok u => rfl

theorem ReplayOp.apply_snd_of_error {w : ReplayWindow} {op : ReplayOp} {e : SeamError}
    (h : (op.apply w).1 = .error e) : (op.apply w).2 = w := by
  cases op with
  | check seq => rfl
  | commit seq => exact ReplayWindow.commit_snd_of_error h
  | checkAndInsert seq =>
    simp only [ReplayOp.apply, ReplayWindow.checkAndInsert_eq] at h ⊢
    exact ReplayWindow.commit_snd_of_error h

theorem represents_replayStep {state : ReplayWindow × List UInt64} (op : ReplayOp)
    (h : ReplayWindow.Represents state.1 state.2) (hnd : state.2.Nodup) :
    ReplayWindow.Represents (replayStep state op).1 (replayStep state op).2 ∧
      (replayStep state op).2.Nodup := by
  have hcommit : ∀ seq, op.apply state.1 = state.1.commit seq → op.committed = some seq →
      ReplayWindow.Represents (replayStep state op).1 (replayStep state op).2 ∧
        (replayStep state op).2.Nodup := by
    intro seq happly hseq
    unfold replayStep
    rw [happly, hseq]
    cases hres : (state.1.commit seq).1 with
    | error e => exact ⟨by rw [ReplayWindow.commit_snd_of_error hres]; exact h, hnd⟩
    | ok u =>
      refine ⟨ReplayWindow.represents_commit h hres, List.nodup_cons.mpr ⟨fun hmem => ?_, hnd⟩⟩
      rw [ReplayWindow.commit_fst, h.check_eq] at hres
      split at hres <;> cases hres
  cases op with
  | check seq =>
    have hstep : replayStep state (.check seq) = state := by
      unfold replayStep ReplayOp.committed
      split
      · next hc => cases hc
      · rfl
    rw [hstep]
    exact ⟨h, hnd⟩
  | commit seq => exact hcommit seq rfl rfl
  | checkAndInsert seq => exact hcommit seq (state.1.checkAndInsert_eq seq) rfl

theorem represents_replayRun (ops : List ReplayOp) :
    ReplayWindow.Represents (replayRun ops).1 (replayRun ops).2 ∧ (replayRun ops).2.Nodup := by
  have hrun : ∀ (ops : List ReplayOp) (state : ReplayWindow × List UInt64),
      ReplayWindow.Represents state.1 state.2 → state.2.Nodup →
      ReplayWindow.Represents (ops.foldl replayStep state).1 (ops.foldl replayStep state).2 ∧
        (ops.foldl replayStep state).2.Nodup := by
    intro ops
    induction ops with
    | nil => exact fun state h hnd => ⟨h, hnd⟩
    | cons op ops ih =>
      intro state h hnd
      obtain ⟨h', hnd'⟩ := represents_replayStep op h hnd
      exact ih (replayStep state op) h' hnd'
  exact hrun ops (ReplayWindow.new, []) ReplayWindow.represents_new List.nodup_nil

/-- **Anti-replay specification.** After any run of calls: `check s` succeeds exactly when `s` is new
and at most 1023 below the largest accepted number, says `TooOld` exactly when `s` is further below, and
`Replay` otherwise; `commit` answers as `check` does; no number is accepted twice; and a refused call
leaves the window unchanged. -/
theorem replayRun_spec (ops : List ReplayOp) :
    (∀ s : UInt64,
      ((replayRun ops).1.check s = .ok () ↔ s ∉ (replayRun ops).2 ∧
        ((replayRun ops).2 = [] ∨ ReplayWindow.maxSeq (replayRun ops).2 ≤ s.toNat + 1023)) ∧
      ((replayRun ops).1.check s = .error (.tooOld s) ↔
        s.toNat + 1023 < ReplayWindow.maxSeq (replayRun ops).2) ∧
      ((replayRun ops).1.check s = .error (.replay s) ↔ s ∈ (replayRun ops).2 ∧
        ReplayWindow.maxSeq (replayRun ops).2 ≤ s.toNat + 1023)) ∧
    (∀ (w : ReplayWindow) (s : UInt64), (w.commit s).1 = w.check s) ∧
    (replayRun ops).2.Nodup ∧
    (∀ (w : ReplayWindow) (op : ReplayOp) (e : SeamError),
      (op.apply w).1 = .error e → (op.apply w).2 = w) := by
  obtain ⟨h, hnd⟩ := represents_replayRun ops
  refine ⟨fun s => ?_, ReplayWindow.commit_fst, hnd, fun w op e => ReplayOp.apply_snd_of_error⟩
  rw [h.check_eq s]
  by_cases hold : s.toNat + 1023 < ReplayWindow.maxSeq (replayRun ops).2
  · have hne : (replayRun ops).2 ≠ [] := by
      intro hc
      rw [hc] at hold
      exact absurd hold (Nat.not_lt_zero _)
    simp [hold, hne, Nat.not_le.mpr hold]
  · by_cases hs : s ∈ (replayRun ops).2
    · simp [hold, hs, Nat.not_lt.mp hold]
    · simp [hold, hs, Nat.not_lt.mp hold]

end SeamProtocol
