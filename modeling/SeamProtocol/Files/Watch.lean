import SeamProtocol.Lib.Run

/-! # The sync loop of watch

A thread enters changed files into a map; the loop takes those that have been stable for a while out of
it, connects and pushes them. What it has taken out is not put back. -/

namespace SeamProtocol

open Lib List Option

variable {P : Type} [DecidableEq P]

/-- Where the sync loop is: the files that it holds, and the version it has read of those it has sent.
-/
inductive WatchPhase (P : Type) where
  | top
  | building (ready batch : List P)
  | connecting (batch : List P)
  | pushing (batch : List P) (read : List (P × Nat))

structure Watch (P : Type) where
  regular : P → Bool
  version : P → Nat := fun _ => 0
  /-- the content of the last successful push -/
  pushed : P → Nat := fun _ => 0
  events : List P := []
  pending : List (P × Nat) := []
  session : Bool := true
  phase : WatchPhase P := .top

inductive WatchEvent (P : Type) where
  | write (file : P)
  | remove (file : P)
  /-- the watcher thread handles the next path -/
  | watcher (now : Nat)
  | collect (now : Nat)
  | metadata
  | connect (ok : Bool)
  | read
  | pushBatch (ok : Bool)

namespace Watch

def insert (pending : List (P × Nat)) (file : P) (now : Nat) : List (P × Nat) :=
  (file, now) :: pending.filter (·.1 ≠ file)

def step (debounce : Nat) (s : Watch P) (e : WatchEvent P) : Option (Watch P) :=
  match e, s.phase with
  | .write f, _ => some { s with
      regular := Function.update s.regular f true
      version := Function.update s.version f (s.version f + 1)
      events := s.events ++ [f] }
  | .remove f, _ => some { s with
      regular := Function.update s.regular f false, events := s.events ++ [f] }
  | .watcher now, _ =>
    match s.events with
    | [] => none
    | f :: events => some { s with
        events, pending := if s.regular f then insert s.pending f now else s.pending }
  | .collect now, .top => some { s with
      pending := s.pending.filter fun p => ¬ debounce ≤ now - p.2
      phase := .building ((s.pending.filter fun p => debounce ≤ now - p.2).map Prod.fst) [] }
  | .metadata, .building (f :: ready) batch => some { s with
      phase := .building ready (if s.regular f then batch ++ [f] else batch) }
  | .metadata, .building [] batch => some { s with
      phase := if batch = [] then .top else if s.session then .pushing batch [] else .connecting batch }
  -- "will retry next sync"
  | .connect ok, .connecting batch => some { s with
      session := ok, phase := if ok then .pushing batch [] else .top }
  | .read, .pushing (f :: batch) read => some { s with
      phase := .pushing batch ((f, s.version f) :: read) }
  | .pushBatch true, .pushing [] read => some { s with
      pushed := fun f => (read.lookup f).getD (s.pushed f), phase := .top }
  -- "will reconnect next sync"
  | .pushBatch false, .pushing _ _ => some { s with session := false, phase := .top }
  | _, _ => none

def Noted (s : Watch P) (f : P) : Prop := f ∈ s.events ∨ f ∈ s.pending.map Prod.fst

/-- The loop is going to read the file, or the remote has its content or will have it. -/
def Held (s : Watch P) (f : P) : Prop :=
  match s.phase with
  | .top => s.pushed f = s.version f
  | .building ready batch => f ∈ ready ∨ f ∈ batch ∨ s.pushed f = s.version f
  | .connecting batch => f ∈ batch ∨ s.pushed f = s.version f
  | .pushing batch read => f ∈ batch ∨ (read.lookup f).getD (s.pushed f) = s.version f

def succeeds : WatchEvent P → Bool
  | .pushBatch ok | .connect ok => ok
  | _ => true

variable {debounce : Nat} {s s' : Watch P} {e : WatchEvent P} {f g : P}

theorem mem_insert (pending : List (P × Nat)) (now : Nat) :
    f ∈ (insert pending g now).map Prod.fst ↔ f = g ∨ f ∈ pending.map Prod.fst := by
  by_cases hf : f = g <;> simp [insert, hf]

omit [DecidableEq P] in
theorem mem_map_filter_or (p : P × Nat → Prop) [DecidablePred p] {pending : List (P × Nat)}
    (hf : f ∈ pending.map Prod.fst) : f ∈ (pending.filter fun e => ¬ p e).map Prod.fst
      ∨ f ∈ (pending.filter fun e => p e).map Prod.fst := by
  obtain ⟨e, he, rfl⟩ := mem_map.mp hf
  by_cases hp : p e
  · exact .inr (mem_map_of_mem (mem_filter.mpr ⟨he, decide_eq_true hp⟩))
  · exact .inl (mem_map_of_mem (mem_filter.mpr ⟨he, decide_eq_true hp⟩))

theorem noted_or_held_step (hs : ∀ f, s.regular f → s.Noted f ∨ s.Held f) (he : succeeds e)
    (hstep : s.step debounce e = some s') (f : P) (hf : s'.regular f) : s'.Noted f ∨ s'.Held f := by
  have hsf := hs f
  unfold step at hstep
  split at hstep
  case h_10 => cases he
  case h_11 => cases hstep
  case h_1 g | h_2 g =>
    -- The file itself is in the queue now, and for the others nothing has changed.
    obtain rfl := some.inj hstep
    by_cases hfg : f = g
    · simp [Noted, hfg]
    · simp only [Noted, Held, Function.update_of_ne hfg, mem_append] at hf hsf ⊢
      grind
  case h_3 now =>
    split at hstep
    · cases hstep
    · next g events hev =>
      obtain rfl := some.inj hstep
      simp only [Noted, Held, hev, mem_cons] at hf hsf ⊢
      by_cases hg : s.regular g
      · rw [if_pos hg, mem_insert]
        grind
      · grind
  case h_4 now hphase =>
    obtain rfl := some.inj hstep
    have hsplit : f ∈ s.pending.map Prod.fst → _ := mem_map_filter_or fun p => debounce ≤ now - p.2
    simp only [Noted, Held, hphase] at hf hsf ⊢
    grind
  all_goals
    have hphase : s.phase = _ := ‹_›
    obtain rfl := some.inj hstep
    simp only [Noted, Held, hphase, mem_cons, not_mem_nil, lookup_cons] at hf hsf ⊢
    grind [succeeds]

end Watch

end SeamProtocol
