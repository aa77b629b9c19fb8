import SeamProtocol.Lib.Bytes
import SeamProtocol.Lib.Run

/-! # Multi-path transport

An endpoint sends over several paths, in turn or every packet on all of them, and the receiver removes
the copies. Reading outside of the list of paths is `none`. -/

namespace SeamProtocol

open Lib List

structure PathState (A : Type) where
  localAddr : A
  remoteAddr : A
  active : Bool
  lastSeen : Nat
  dedupWindow : List Nat

structure MultiPathEndpoint (A : Type) where
  paths : List (PathState A)
  rrCursor : Nat
  sendSeq : Nat
  globalDedup : List Nat
  redundantRecovered : Nat

def pathDeadTimeout : Nat := 10 * 10 ^ 9

namespace MultiPathEndpoint

variable {A : Type}

def new : MultiPathEndpoint A := ⟨[], 0, 0, [], 0⟩

def addPath (ep : MultiPathEndpoint A) (localAddr remoteAddr : A) (now : Nat) : MultiPathEndpoint A :=
  { ep with paths := ep.paths ++ [⟨localAddr, remoteAddr, true, now, []⟩] }

def removePath [DecidableEq A] (ep : MultiPathEndpoint A) (localAddr : A) : MultiPathEndpoint A :=
  match ep.paths.findIdx? (·.localAddr = localAddr) with
  | none => ep
  | some pos =>
    let paths := ep.paths.eraseIdx pos
    { ep with
      paths
      rrCursor := if paths.length ≤ ep.rrCursor ∧ paths ≠ [] then 0 else ep.rrCursor }

def tickHealth (paths : List (PathState A)) (now : Nat) : List (PathState A) :=
  paths.map fun p =>
    if p.active && pathDeadTimeout ≤ now - p.lastSeen then { p with active := false } else p

def advance (paths : List (PathState A)) : Nat → Nat → Option Nat
  | 0, cursor => some cursor
  | k + 1, cursor =>
    let cursor := (cursor + 1) % paths.length
    paths[cursor]?.bind fun p => if p.active then some cursor else advance paths k cursor

def sendRoundRobin (ep : MultiPathEndpoint A) : Option (Option Nat × MultiPathEndpoint A) :=
  if ep.paths.all (!·.active) then some (none, ep)
  else (advance ep.paths ep.paths.length ep.rrCursor).bind fun idx =>
    ep.paths[idx]?.map fun _ => (some idx, { ep with rrCursor := idx })

def prepare (ep : MultiPathEndpoint A) (now : Nat) : MultiPathEndpoint A :=
  { ep with paths := tickHealth ep.paths now, sendSeq := (ep.sendSeq + 1) % 2 ^ 64 }

def sends (ep : MultiPathEndpoint A) : List Nat → Option (List Nat × MultiPathEndpoint A)
  | [] => some ([], ep)
  | now :: nows => (ep.prepare now).sendRoundRobin.bind fun r =>
    (r.2.sends nows).map fun rest => (r.1.toList ++ rest.1, rest.2)

end MultiPathEndpoint

inductive PathEvent (A : Type) where
  | addPath (localAddr remoteAddr : A) (now : Nat)
  | removePath (localAddr : A)
  | setActive (idx : Nat) (active : Bool)
  | send (now : Nat)

namespace MultiPathEndpoint

variable {A : Type}

def step [DecidableEq A] (ep : MultiPathEndpoint A) : PathEvent A → Option (MultiPathEndpoint A)
  | .addPath l r now => some (ep.addPath l r now)
  | .removePath l => some (ep.removePath l)
  | .setActive idx active =>
    some { ep with paths := ep.paths.modify idx fun p => { p with active := active } }
  | .send now => (ep.prepare now).sendRoundRobin.map Prod.snd

/-! ## Round robin -/

def IsActive (paths : List (PathState A)) (i : Nat) : Prop := ∃ p ∈ paths[i]?, p.active = true

/-- How many places after the next one an index comes, around a list of length `n`. -/
def rank (n cursor i : Nat) : Nat :=
  if (cursor + 1) % n ≤ i then i - (cursor + 1) % n else i + n - (cursor + 1) % n

theorem mod_succ_cases {n b : Nat} (hb : b < n) :
    b + 1 = n ∧ (b + 1) % n = 0 ∨ b + 1 < n ∧ (b + 1) % n = b + 1 := by
  rcases Nat.lt_or_eq_of_le hb with h | h
  · exact .inr ⟨h, Nat.mod_eq_of_lt h⟩
  · exact .inl ⟨h, h ▸ Nat.mod_self _⟩

section Rank

variable {n c p i j : Nat} (hi : i < n)
include hi

theorem rank_lt : rank n c i < n := by
  unfold rank
  split_ifs <;> omega

theorem rank_succ (hne : i ≠ (c + 1) % n) : rank n c i = rank n ((c + 1) % n) i + 1 := by
  unfold rank
  have hb := Nat.mod_lt (c + 1) (Nat.zero_lt_of_lt hi)
  rcases mod_succ_cases hb with ⟨h, hmod⟩ | ⟨h, hmod⟩ <;> rw [hmod] <;> split_ifs <;> omega

theorem rank_inj (hj : j < n) (h : rank n c i = rank n c j) : i = j := by
  have := Nat.mod_lt (c + 1) (Nat.zero_lt_of_lt hi)
  unfold rank at h
  split_ifs at h <;> omega

theorem rank_after (hp : p < n) (hj : j < n) (hfirst : rank n c p ≤ rank n c i)
    (hlt : rank n c i < rank n c j) :
    (p = i → rank n p j < rank n p i) ∧ (p ≠ i → rank n p i < rank n p j) := by
  have := Nat.mod_lt (c + 1) (Nat.zero_lt_of_lt hi)
  unfold rank at *
  rcases mod_succ_cases hp with ⟨h, hmod⟩ | ⟨h, hmod⟩ <;> rw [hmod] <;> split_ifs at * <;> omega

end Rank

variable {paths : List (PathState A)} {i j : Nat} {ep : MultiPathEndpoint A}

theorem IsActive.lt (h : IsActive paths i) : i < paths.length := by
  obtain ⟨p, hp, -⟩ := h
  exact (List.getElem?_eq_some_iff.mp hp).1

theorem advance_spec (hi : IsActive paths i) (hk : rank paths.length cursor i < k) :
    ∃ idx, advance paths k cursor = some idx ∧ IsActive paths idx ∧
      ∀ j, IsActive paths j → rank paths.length cursor idx ≤ rank paths.length cursor j := by
  induction k generalizing cursor with
  | zero => omega
  | succ k ih =>
    have hlt := Nat.mod_lt (cursor + 1) (Nat.zero_lt_of_lt hi.lt)
    rw [advance, getElem?_eq_getElem hlt, Option.bind_some]
    by_cases hactive : paths[(cursor + 1) % paths.length].active = true
    · rw [if_pos hactive]
      exact ⟨_, rfl, ⟨_, getElem?_eq_getElem hlt, hactive⟩, fun j _ => by simp [rank]⟩
    · rw [if_neg hactive]
      -- the path that is skipped is not active, so every active one comes later
      have hsucc : ∀ j, IsActive paths j → rank paths.length cursor j
          = rank paths.length ((cursor + 1) % paths.length) j + 1 := by
        intro j hj
        refine rank_succ hj.lt fun heq => hactive ?_
        obtain ⟨p, hp, hpa⟩ := hj
        rw [heq, getElem?_eq_getElem hlt, Option.mem_some_iff] at hp
        rwa [hp]
      rw [hsucc i hi] at hk
      obtain ⟨idx, hidx, hact, hmin⟩ := ih (Nat.lt_of_succ_lt_succ hk)
      refine ⟨idx, hidx, hact, fun j hj => ?_⟩
      rw [hsucc idx hact, hsucc j hj]
      exact Nat.succ_le_succ (hmin j hj)

theorem sendRoundRobin_spec (ep : MultiPathEndpoint A) (hi : IsActive ep.paths i) :
    ∃ idx, ep.sendRoundRobin = some (some idx, { ep with rrCursor := idx }) ∧ IsActive ep.paths idx ∧
      ∀ j, IsActive ep.paths j →
        rank ep.paths.length ep.rrCursor idx ≤ rank ep.paths.length ep.rrCursor j := by
  obtain ⟨idx, hidx, hact, hmin⟩ := advance_spec hi (rank_lt hi.lt)
  refine ⟨idx, ?_, hact, hmin⟩
  obtain ⟨p, hp, hpa⟩ := hi
  have hsome : ¬ ep.paths.all (!·.active) := by
    simp only [all_eq_true, not_forall]
    exact ⟨p, mem_of_getElem? hp, by simp [hpa]⟩
  rw [sendRoundRobin, if_neg hsome, hidx, Option.bind_some, getElem?_eq_getElem hact.lt]
  rfl

theorem sendRoundRobin_isSome (ep : MultiPathEndpoint A) : ∃ r, ep.sendRoundRobin = some r := by
  by_cases hnone : ep.paths.all (!·.active)
  · exact ⟨_, by rw [sendRoundRobin, if_pos hnone]⟩
  · simp only [all_eq_true, not_forall, Bool.not_eq_true', Bool.not_eq_false] at hnone
    obtain ⟨p, hp, hpa⟩ := hnone
    obtain ⟨i, hi⟩ := mem_iff_getElem?.mp hp
    obtain ⟨idx, hsend, -⟩ := ep.sendRoundRobin_spec ⟨p, hi, hpa⟩
    exact ⟨_, hsend⟩

theorem sends_isSome (ep : MultiPathEndpoint A) (nows : List Nat) : ∃ r, ep.sends nows = some r := by
  induction nows generalizing ep with
  | nil => exact ⟨_, rfl⟩
  | cons now nows ih =>
    obtain ⟨r, hsend⟩ := (ep.prepare now).sendRoundRobin_isSome
    obtain ⟨rest, hrest⟩ := ih r.2
    exact ⟨_, by rw [sends, hsend, Option.bind_some, hrest, Option.map_some]⟩

theorem sends_fair {nows : List Nat} {r : List Nat × MultiPathEndpoint A}
    (hhealth : ∀ now ∈ nows, tickHealth ep.paths now = ep.paths) (hsends : ep.sends nows = some r)
    (hi : IsActive ep.paths i) (hj : IsActive ep.paths j)
    (hlt : rank ep.paths.length ep.rrCursor i < rank ep.paths.length ep.rrCursor j) :
    r.1.count j ≤ r.1.count i ∧ r.1.count i ≤ r.1.count j + 1 := by
  induction nows generalizing ep r i j with
  | nil =>
    cases hsends
    simp
  | cons now nows ih =>
    obtain ⟨hnow, hnows⟩ := forall_mem_cons.mp hhealth
    rw [sends, prepare, hnow] at hsends
    obtain ⟨idx, hsend, hact, hmin⟩ :=
      sendRoundRobin_spec { ep with sendSeq := (ep.sendSeq + 1) % 2 ^ 64 } hi
    rw [hsend, Option.bind_some] at hsends
    obtain ⟨rest, hrest, rfl⟩ := Option.map_eq_some_iff.mp hsends
    obtain ⟨hsame, hother⟩ := rank_after hi.lt hact.lt hj.lt (hmin i hi) hlt
    have hne : idx ≠ j := by
      rintro rfl
      exact absurd (hmin i hi) (Nat.not_le.mpr hlt)
    by_cases heq : idx = i
    · -- the path that was first is now last
      obtain ⟨hle, hle'⟩ := ih (by exact hnows) hrest hj hi (hsame heq)
      simp [heq, heq ▸ hne]
      omega
    · simpa [heq, hne] using ih (by exact hnows) hrest hi hj (hother heq)

end MultiPathEndpoint

open MultiPathEndpoint

/-- **Round robin is fair**: in every run no call reads outside of the list of paths; a send chooses an
active path if there is one; and as long as nothing else changes, no active path gets two packets more
than another. -/
theorem round_robin_fair {A : Type} [DecidableEq A] (es : List (PathEvent A)) :
    ∃ ep, exec step .new es = some ep ∧
      (∀ now i, IsActive (ep.prepare now).paths i → ∃ idx ep',
        (ep.prepare now).sendRoundRobin = some (some idx, ep') ∧ IsActive (ep.prepare now).paths idx) ∧
      ∀ nows, (∀ now ∈ nows, tickHealth ep.paths now = ep.paths) →
        ∃ picks ep', ep.sends nows = some (picks, ep') ∧
          ∀ i j, IsActive ep.paths i → IsActive ep.paths j → picks.count i ≤ picks.count j + 1 := by
  have hstep : ∀ (ep : MultiPathEndpoint A) e, True → True → ∃ ep', ep.step e = some ep' ∧ True := by
    rintro ep (_ | _ | _ | now) - -
    case send =>
      obtain ⟨r, hr⟩ := (ep.prepare now).sendRoundRobin_isSome
      exact ⟨r.2, by rw [step, hr, Option.map_some], trivial⟩
    all_goals exact ⟨_, rfl, trivial⟩
  obtain ⟨ep, hrun, -⟩ := exec_total_of_meets (fun _ => True) hstep trivial
    (Meets.of_forall fun _ _ _ => trivial)
  refine ⟨ep, hrun, fun now i hi => ?_, fun nows hhealth => ?_⟩
  · obtain ⟨idx, hsend, hact, -⟩ := (ep.prepare now).sendRoundRobin_spec hi
    exact ⟨idx, _, hsend, hact⟩
  · obtain ⟨r, hr⟩ := ep.sends_isSome nows
    refine ⟨r.1, r.2, hr, fun i j hi hj => ?_⟩
    rcases lt_trichotomy (rank ep.paths.length ep.rrCursor i) (rank ep.paths.length ep.rrCursor j)
      with h | h | h
    · exact (sends_fair hhealth hr hi hj h).2
    · rw [rank_inj hi.lt hj.lt h]
      exact Nat.le_succ _
    · exact (sends_fair hhealth hr hj hi h).1.trans (Nat.le_succ _)

/-! ## Redundant packets -/

def dedupSize : Nat := 64

def pushWindow (w : List Nat) (seq : Nat) : List Nat :=
  (if dedupSize ≤ w.length then w.tail else w) ++ [seq]

def seqOf (packet : Bytes) : Nat := beNat (packet.take 8)

def PathState.recordRecv {A : Type} (p : PathState A) (seq now : Nat) : PathState A :=
  if seq ∈ p.dedupWindow then p
  else { p with dedupWindow := pushWindow p.dedupWindow seq, lastSeen := now, active := true }

namespace MultiPathEndpoint

variable {A : Type}

def sendRedundant (ep : MultiPathEndpoint A) (data : Bytes) : List (Nat × Bytes) :=
  (ep.paths.zipIdx.filter (·.1.active)).map fun p => (p.2, data)

/-- What `recv_any` can return: it reads from the socket of the first path only. -/
def inbox (arrivals : List (Nat × Bytes)) : List Bytes :=
  (arrivals.filter (·.1 = 0)).map Prod.snd

/-- Receive the next packet that is not a copy; `none` while the call waits. -/
def recvDedup (ep : MultiPathEndpoint A) (now : Nat) :
    List Bytes → Option (Bytes × MultiPathEndpoint A × List Bytes)
  | [] => none
  | data :: rest =>
    let seen := { ep with paths := ep.paths.modify 0 fun p => { p with lastSeen := now } }
    if data.length < 8 then some (data, seen, rest)
    else if seqOf data ∈ ep.globalDedup then
      recvDedup { seen with redundantRecovered := ep.redundantRecovered + 1 } now rest
    else
      some (data,
        { seen with
          globalDedup := pushWindow ep.globalDedup (seqOf data)
          paths := seen.paths.modify 0 fun p => p.recordRecv (seqOf data) now },
        rest)

def received (ep : MultiPathEndpoint A) (queue : List Bytes) : List Nat → List Bytes
  | [] => []
  | now :: nows =>
    match ep.recvDedup now queue with
    | none => []
    | some (data, ep', rest) => data :: ep'.received rest nows

end MultiPathEndpoint

/-- The packets whose sequence number is not in the window when they arrive. -/
def fresh (w : List Nat) : List Bytes → List Bytes
  | [] => []
  | d :: rest => if seqOf d ∈ w then fresh w rest else d :: fresh (pushWindow w (seqOf d)) rest

theorem received_eq {A : Type} (ep : MultiPathEndpoint A) {queue : List Bytes} {nows : List Nat}
    (hlen : queue.length ≤ nows.length) (hseq : ∀ d ∈ queue, 8 ≤ d.length) :
    ep.received queue nows = fresh ep.globalDedup queue := by
  induction queue generalizing ep nows with
  | nil => cases nows <;> rfl
  | cons d queue ih =>
    obtain ⟨hd, hqueue⟩ := forall_mem_cons.mp hseq
    cases nows with
    | nil => simp at hlen
    | cons now nows =>
      have hlen' := Nat.le_of_succ_le_succ hlen
      rw [received, recvDedup, if_neg (Nat.not_lt.mpr hd), fresh]
      split_ifs with hmem
      · exact ih _ (show queue.length ≤ (now :: nows).length from Nat.le_succ_of_le hlen') hqueue
      · exact congrArg (d :: ·) (ih _ hlen' hqueue)

/-- The window after these sequence numbers: a number that is missing was followed by many others. -/
structure Window (w done : List Nat) : Prop where
  nodup : w.Nodup
  sublist : w <+ done
  covers : ∀ x ∈ done, x ∈ w ∨ ∃ l, x :: l <+ done ∧ (x :: l).Nodup ∧ dedupSize ≤ l.length

/-- Copies of one number lie within so many distinct numbers that the window still holds it. -/
def Close (seqs : List Nat) : Prop :=
  ∀ x l, x :: l ++ [x] <+ seqs → (x :: l).toFinset.card ≤ dedupSize

namespace Window

variable {w done : List Nat} {seq : Nat}

theorem skip (h : Window w done) (hmem : seq ∈ w) : Window w (done ++ [seq]) := by
  refine ⟨h.nodup, h.sublist.trans (sublist_append_left ..), fun x hx => ?_⟩
  rcases mem_append.mp hx with hx | hx
  · exact (h.covers x hx).imp id fun ⟨l, hl, hrest⟩ => ⟨l, hl.trans (sublist_append_left ..), hrest⟩
  · exact .inl (mem_singleton.mp hx ▸ hmem)

open Sublist

theorem push (h : Window w done) (hmem : seq ∉ done) : Window (pushWindow w seq) (done ++ [seq]) := by
  have hsub : (if dedupSize ≤ w.length then w.tail else w) <+ w := by
    split_ifs
    · exact tail_sublist w
    · exact refl w
  have hfull : (w ++ [seq]).Nodup :=
    nodup_append.mpr ⟨h.nodup, nodup_singleton _, fun x hx y hy => by
      rintro rfl
      exact hmem (mem_singleton.mp hy ▸ h.sublist.subset hx)⟩
  have hdone : w ++ [seq] <+ done ++ [seq] := h.sublist.append (refl _)
  refine ⟨hfull.sublist (hsub.append (refl _)), (hsub.append (refl _)).trans hdone, ?_⟩
  intro x hx
  rcases mem_append.mp hx with hx | hx
  · rcases h.covers x hx with hw | ⟨l, hl, hrest⟩
    · by_cases hlen : dedupSize ≤ w.length
      · rw [pushWindow, if_pos hlen]
        cases w with
        | nil => simp at hw
        | cons y w =>
          rcases mem_cons.mp hw with rfl | hw
          · -- the oldest number goes, and the whole window came after it
            exact .inr ⟨w ++ [seq], hdone, hfull, by simpa using hlen⟩
          · exact .inl (mem_append_left _ hw)
      · rw [pushWindow, if_neg hlen]
        exact .inl (mem_append_left _ hw)
    · exact .inr ⟨l, hl.trans (sublist_append_left ..), hrest⟩
  · exact .inl (mem_append_right _ hx)

theorem count_fresh (h : Window w done) {packets : List Bytes}
    (hclose : Close (done ++ packets.map seqOf))
    (hinj : ∀ d ∈ packets, ∀ e ∈ packets, seqOf d = seqOf e → d = e) (d : Bytes) :
    (fresh w packets).count d = if d ∈ packets ∧ seqOf d ∉ done then 1 else 0 := by
  induction packets generalizing w done with
  | nil => simp [fresh]
  | cons e packets ih =>
    rw [map_cons, append_cons] at hclose
    have hinj' := fun d hd e he => hinj d (mem_cons_of_mem _ hd) e (mem_cons_of_mem _ he)
    rw [fresh]
    by_cases hw : seqOf e ∈ w
    · rw [if_pos hw, ih (h.skip hw) hclose hinj']
      have hold : seqOf e ∈ done := h.sublist.subset hw
      grind
    · have hnew : seqOf e ∉ done := by
        intro hmem
        obtain ⟨l, hl, hnodup, hlen⟩ := (h.covers _ hmem).resolve_left hw
        have hcard := hclose _ l ((hl.append (refl _)).trans (sublist_append_left ..))
        rw [toFinset_card_of_nodup hnodup, length_cons] at hcard
        omega
      rw [if_neg hw, count_cons, ih (h.push hnew) hclose hinj']
      grind

end Window

/-- **Redundant packets are returned exactly once**, whatever the copies that arrive, exactly if each
packet has a copy that arrives on the first path of the receiver. -/
theorem redundant_once_iff {A : Type} {sent : List Bytes} (hseq : ∀ d ∈ sent, 8 ≤ d.length)
    (hdistinct : (sent.map seqOf).Nodup) {arrivals : List (Nat × Bytes)}
    (harrive : ∀ a ∈ arrivals, ∃ tx : MultiPathEndpoint A, ∃ d ∈ sent, a ∈ tx.sendRedundant d)
    (hclose : Close (arrivals.map fun a => seqOf a.2)) (rx : MultiPathEndpoint A)
    (hrx : rx.globalDedup = []) {nows : List Nat} (hcalls : arrivals.length ≤ nows.length) :
    (∀ d ∈ sent, (rx.received (inbox arrivals) nows).count d = 1) ↔ ∀ d ∈ sent, (0, d) ∈ arrivals := by
  have hmem : ∀ d, d ∈ inbox arrivals ↔ (0, d) ∈ arrivals := by simp [inbox]
  have hsent : ∀ d ∈ inbox arrivals, d ∈ sent := by
    intro d hd
    obtain ⟨tx, e, he, hcopy⟩ := harrive _ ((hmem d).mp hd)
    obtain ⟨p, -, heq⟩ := mem_map.mp hcopy
    exact (Prod.mk.inj heq).2 ▸ he
  have hlen : (inbox arrivals).length ≤ nows.length := by
    rw [inbox, length_map]
    exact (length_filter_le ..).trans hcalls
  have hsub : (inbox arrivals).map seqOf <+ arrivals.map fun a => seqOf a.2 := by
    rw [inbox, map_map]
    exact filter_sublist.map _
  have hcount := Window.count_fresh ⟨nodup_nil, Sublist.refl [], nofun⟩
    (fun x l h => hclose x l (h.trans hsub))
    fun d hd e he => inj_on_of_nodup_map hdistinct (hsent d hd) (hsent e he)
  rw [received_eq rx hlen fun d hd => hseq d (hsent d hd), hrx]
  refine forall₂_congr fun d _ => ?_
  rw [hcount, ← hmem]
  simp

def twoPaths : MultiPathEndpoint Nat := (MultiPathEndpoint.new.addPath 1 3 0).addPath 2 4 0

/-- Packets that arrive on both paths, the second one first there. -/
theorem redundant_once_two :
    (twoPaths.received (inbox [(1, beBytes 8 2), (0, beBytes 8 1), (1, beBytes 8 1), (0, beBytes 8 2)])
      [0, 0, 0, 0]).count (beBytes 8 2) = 1 :=
  (@redundant_once_iff _ [beBytes 8 1, beBytes 8 2] (by decide) (by decide) _
    (fun a ha => ⟨twoPaths, a.2, by revert a; decide, by revert a; decide⟩)
    (fun x l h => (toFinset_card_le _).trans (by have := h.length_le; simp [dedupSize] at this ⊢; omega))
    twoPaths rfl _ (by decide)).mpr (by decide) _ (by decide)

/-- **A packet that is jammed on the first path is lost**: it arrives on the second one, and no call
returns it. -/
theorem second_path_not_read :
    (1, beBytes 8 1) ∈ twoPaths.sendRedundant (beBytes 8 1) ∧
      ∀ nows, (twoPaths.received (inbox [(1, beBytes 8 1)]) nows).count (beBytes 8 1) = 0 := by
  refine ⟨by decide, fun nows => ?_⟩
  cases nows <;> rfl

end SeamProtocol
