import Mathlib.Data.List.ReduceOption
import SeamProtocol.Lib.Run

/-! # Dialogues over streams

Two sequential, deterministic programs talk over numbered streams; frames arrive reliably and in order,
and a stream becomes visible to the other side with its first frame. The steps of the two commute, so
that one complete run decides about all of them. -/

namespace Lib

open List Option

/-! ## Runs whose events commute -/

section Commuting

variable {σ ε : Type*} {step : σ → ε → Option σ}

/-- Different events can happen in any order, with the same result. -/
def Commutes (step : σ → ε → Option σ) : Prop :=
  ∀ s e e' s₁ s₂, e ≠ e' → step s e = some s₁ → step s e' = some s₂ →
    ∃ t, step s₁ e' = some t ∧ step s₂ e = some t

def Final (step : σ → ε → Option σ) (s : σ) : Prop := ∀ e, step s e = none

variable {s t : σ} {es : List ε}

theorem exec_shorten [DecidableEq ε] (hcomm : Commutes step) (hrun : exec step s es = some t)
    (ht : Final step t) {e : ε} {s₁ : σ} (he : step s e = some s₁) :
    ∃ es', exec step s₁ es' = some t ∧ es.length = es'.length + 1 := by
  induction es generalizing s s₁ with
  | nil =>
    rw [exec_nil, some.injEq] at hrun
    rw [hrun, ht e] at he
    cases he
  | cons e' es ih =>
    rw [exec_cons, bind_eq_some_iff] at hrun
    obtain ⟨s₂, he', hrun⟩ := hrun
    by_cases heq : e = e'
    · subst heq
      cases he.symm.trans he'
      exact ⟨es, hrun, rfl⟩
    · -- the event is moved over the first one, and then into the rest
      obtain ⟨u, hu₁, hu₂⟩ := hcomm s e e' s₁ s₂ heq he he'
      obtain ⟨es', hrest, hlen⟩ := ih hrun hu₂
      refine ⟨e' :: es', ?_, ?_⟩
      · rw [exec_cons, hu₁]
        exact hrest
      · simp [hlen]

/-- **One run decides about all.** Every run is at most as long as one that comes to an end, and can be
continued to the same end. -/
theorem exec_le_of_commutes [DecidableEq ε] (hcomm : Commutes step) (hrun : exec step s es = some t)
    (ht : Final step t) {fs : List ε} {u : σ} (hrun' : exec step s fs = some u) :
    fs.length ≤ es.length ∧ ∃ es', exec step u es' = some t := by
  induction fs generalizing s es with
  | nil =>
    rw [exec_nil, some.injEq] at hrun'
    exact ⟨Nat.zero_le _, es, hrun' ▸ hrun⟩
  | cons e fs ih =>
    rw [exec_cons, bind_eq_some_iff] at hrun'
    obtain ⟨s₁, he, hrun'⟩ := hrun'
    obtain ⟨es', hes', hlen⟩ := exec_shorten hcomm hrun ht he
    obtain ⟨hle, hcont⟩ := ih hes' hrun'
    exact ⟨by rw [length_cons]; omega, hcont⟩

end Commuting

/-! ## Programs -/

inductive Act (σ F ρ : Type*) where
  | tau (next : σ)
  | send (sid : Nat) (f : F) (next : σ)
  | recv (sid : Nat) (next : F → σ)
  | openStream (next : Nat → σ)
  | accept (next : Nat → σ)
  | done (res : ρ)

/-- Run a program as a part of another one: `wrap` is the state in which it runs, and `ret` the one in
which it has returned. -/
def Act.call {σ τ F ρ ρ' : Type*} (wrap : σ → τ) (ret : ρ → τ) : Act σ F ρ → Act τ F ρ'
  | .tau s => .tau (wrap s)
  | .send sid f s => .send sid f (wrap s)
  | .recv sid k => .recv sid fun f => wrap (k f)
  | .openStream k => .openStream fun sid => wrap (k sid)
  | .accept k => .accept fun sid => wrap (k sid)
  | .done res => .tau (ret res)

structure Endpoint (σ : Type*) where
  state : σ
  nextId : Nat
  known : List Nat

namespace Endpoint

variable {σ F ρ : Type*}

def client (state : σ) : Endpoint σ := ⟨state, 1, []⟩

def server (state : σ) : Endpoint σ := ⟨state, 2, []⟩

def takeFrame (sid : Nat) : List (Nat × F) → Option (F × List (Nat × F))
  | [] => none
  | (sid', f) :: rest =>
    if sid' = sid then some (f, rest)
    else (takeFrame sid rest).map fun r => (r.1, (sid', f) :: r.2)

/-- One step, with the frames that have been sent to this side; gives those that are left and those that
it sends. `none` if it waits or has returned. -/
def step (act : σ → Act σ F ρ) (e : Endpoint σ) (inbox : List (Nat × F)) :
    Option (Endpoint σ × List (Nat × F) × List (Nat × F)) :=
  match act e.state with
  | .tau s => some ({ e with state := s }, inbox, [])
  | .send sid f s => some ({ e with state := s }, inbox, [(sid, f)])
  | .recv sid k => (takeFrame sid inbox).map fun r => ({ e with state := k r.1 }, r.2, [])
  | .openStream k =>
    some (⟨k e.nextId, e.nextId + 2, e.nextId :: e.known⟩, inbox, [])
  | .accept k =>
    (inbox.find? fun p => p.1 ∉ e.known).map fun p =>
      ({ e with state := k p.1, known := p.1 :: e.known }, inbox, [])
  | .done _ => none

def result (act : σ → Act σ F ρ) (e : Endpoint σ) : Option ρ :=
  match act e.state with
  | .done res => some res
  | _ => none

variable {inbox : List (Nat × F)}

theorem takeFrame_append {sid : Nat} {r : F × List (Nat × F)} (h : takeFrame sid inbox = some r)
    (more : List (Nat × F)) : takeFrame sid (inbox ++ more) = some (r.1, r.2 ++ more) := by
  induction inbox generalizing r with
  | nil => cases h
  | cons p rest ih =>
    simp only [takeFrame, cons_append] at h ⊢
    split_ifs at h ⊢ with heq
    · cases h
      rfl
    · obtain ⟨r', hr', rfl⟩ := map_eq_some_iff.mp h
      rw [ih hr']
      rfl

variable {act : σ → Act σ F ρ} {e : Endpoint σ}

theorem step_append {r : Endpoint σ × List (Nat × F) × List (Nat × F)} (h : e.step act inbox = some r)
    (more : List (Nat × F)) : e.step act (inbox ++ more) = some (r.1, r.2.1 ++ more, r.2.2) := by
  unfold step at h ⊢
  cases hact : act e.state with
  | tau s | send sid f s | openStream k =>
    rw [hact] at h
    cases h
    rfl
  | recv sid k =>
    rw [hact] at h
    obtain ⟨p, hp, rfl⟩ := map_eq_some_iff.mp h
    dsimp only
    rw [takeFrame_append hp]
    rfl
  | accept k =>
    rw [hact] at h
    obtain ⟨p, hp, rfl⟩ := map_eq_some_iff.mp h
    rw [find?_append, hp]
    rfl
  | done res =>
    rw [hact] at h
    cases h

theorem step_of_result {res : ρ} (h : e.result act = some res) (inbox : List (Nat × F)) :
    e.step act inbox = none := by
  unfold result at h
  unfold step
  cases hact : act e.state <;> rw [hact] at h <;> first | rfl | cases h

end Endpoint

/-! ## Both sides -/

structure Dialogue (σ τ F : Type*) where
  left : Endpoint σ
  right : Endpoint τ
  toRight : List (Nat × F)
  toLeft : List (Nat × F)

inductive Side where
  | left
  | right
  deriving DecidableEq

namespace Dialogue

variable {σ τ F ρ ρ' : Type*}

def start (a : σ) (b : τ) : Dialogue σ τ F := ⟨.client a, .server b, [], []⟩

def step (A : σ → Act σ F ρ) (B : τ → Act τ F ρ') (c : Dialogue σ τ F) : Side → Option (Dialogue σ τ F)
  | .left => (c.left.step A c.toLeft).map fun r => ⟨r.1, c.right, c.toRight ++ r.2.2, r.2.1⟩
  | .right => (c.right.step B c.toRight).map fun r => ⟨c.left, r.1, r.2.1, c.toLeft ++ r.2.2⟩

variable {A : σ → Act σ F ρ} {B : τ → Act τ F ρ'}

open Endpoint

/-- **The sides do not interfere**: each takes frames where the other does not add any. -/
theorem commutes_step : Commutes (step A B) := by
  have hcomm : ∀ c c₁ c₂ : Dialogue σ τ F, step A B c .left = some c₁ →
      step A B c .right = some c₂ →
      ∃ d, step A B c₁ .right = some d ∧ step A B c₂ .left = some d := by
    intro c c₁ c₂ hleft hright
    obtain ⟨r, hr, rfl⟩ := map_eq_some_iff.mp hleft
    obtain ⟨q, hq, rfl⟩ := map_eq_some_iff.mp hright
    refine ⟨⟨r.1, q.1, q.2.1 ++ r.2.2, r.2.1 ++ q.2.2⟩, ?_, ?_⟩
    · simp [step, step_append hq]
    · simp [step, step_append hr]
  intro c e e' c₁ c₂ hne he he'
  cases e with
  | left =>
    cases e' with
    | left => exact absurd rfl hne
    | right => exact hcomm c c₁ c₂ he he'
  | right =>
    cases e' with
    | left =>
      obtain ⟨d, hd₁, hd₂⟩ := hcomm c c₂ c₁ he' he
      exact ⟨d, hd₂, hd₁⟩
    | right => exact absurd rfl hne

variable {c d : Dialogue σ τ F} {sides : List Side} {res : ρ}

theorem result_left_of_exec (hrun : exec (step A B) c sides = some d)
    (h : c.left.result A = some res) : d.left.result A = some res := by
  refine exec_invariant (fun c => c.left.result A = some res) (fun c side c' hc hstep => ?_) h hrun
  cases side with
  | left =>
    simp only [step, step_of_result hc] at hstep
    cases hstep
  | right =>
    obtain ⟨r, -, rfl⟩ := map_eq_some_iff.mp hstep
    exact hc

theorem result_right_of_exec (hrun : exec (step A B) c sides = some d) {res : ρ'}
    (h : c.right.result B = some res) : d.right.result B = some res := by
  refine exec_invariant (fun c => c.right.result B = some res) (fun c side c' hc hstep => ?_) h hrun
  cases side with
  | left =>
    obtain ⟨r, -, rfl⟩ := map_eq_some_iff.mp hstep
    exact hc
  | right =>
    simp only [step, step_of_result hc] at hstep
    cases hstep

theorem final_of_results {res' : ρ'} (hleft : c.left.result A = some res)
    (hright : c.right.result B = some res') : Final (step A B) c := by
  intro side
  cases side with
  | left => simp only [step, step_of_result hleft, map_none]
  | right => simp only [step, step_of_result hright, map_none]

end Dialogue

/-! ## What a dialogue leads to -/

def Leads {σ τ F ρ ρ' : Type*} (A : σ → Act σ F ρ) (B : τ → Act τ F ρ') (c d : Dialogue σ τ F) : Prop :=
  ∃ sides, exec (Dialogue.step A B) c sides = some d

namespace Leads

variable {σ τ F ρ ρ' : Type*} {A : σ → Act σ F ρ} {B : τ → Act τ F ρ'}

theorem refl (c : Dialogue σ τ F) : Leads A B c c := ⟨[], rfl⟩

variable {c d : Dialogue σ τ F}

theorem trans {e : Dialogue σ τ F} (h : Leads A B c d) (h' : Leads A B d e) : Leads A B c e := by
  obtain ⟨sides, hrun⟩ := h
  obtain ⟨sides', hrun'⟩ := h'
  refine ⟨sides ++ sides', ?_⟩
  rw [exec_append, hrun]
  exact hrun'

open Dialogue

theorem single (side : Side) (h : step A B c side = some d) : Leads A B c d := by
  refine ⟨[side], ?_⟩
  rw [exec_cons, h]
  rfl

variable {c' : Dialogue σ τ F} {sides : List Side}

/-- **There is only one end**: every run can be continued to the end that one run leads to. -/
theorem continues (h : Leads A B c d) (hd : Final (step A B) d)
    (hrun : exec (step A B) c sides = some c') : Leads A B c' d := by
  obtain ⟨es, hes⟩ := h
  exact (exec_le_of_commutes commutes_step hes hd hrun).2

theorem eq_of_final (h : Leads A B c d) (hd : Final (step A B) d)
    (hrun : exec (step A B) c sides = some c') (hc' : Final (step A B) c') :
    c' = d := by
  obtain ⟨fs, hcont⟩ := h.continues hd hrun
  cases fs with
  | nil =>
    rw [exec_nil, some.injEq] at hcont
    exact hcont
  | cons side fs =>
    rw [exec_cons, hc' side] at hcont
    cases hcont

/-- **All runs end like one that ends**: their length is bounded, a side that returns does so with the
same result, and where no side can move both have returned. -/
theorem complete (h : Leads A B c d) {res : ρ} {res' : ρ'} (hleft : d.left.result A = some res)
    (hright : d.right.result B = some res') :
    ∃ n, ∀ sides c', exec (step A B) c sides = some c' → sides.length ≤ n ∧
      (∀ r, c'.left.result A = some r → r = res) ∧ (∀ r, c'.right.result B = some r → r = res') ∧
      (Final (step A B) c' → c' = d) := by
  have hd := final_of_results hleft hright
  obtain ⟨es, hes⟩ := id h
  refine ⟨es.length, fun sides c' hrun' => ?_⟩
  obtain ⟨hle, fs, hcont⟩ := exec_le_of_commutes commutes_step hes hd hrun'
  refine ⟨hle, fun r hr => ?_, fun r hr => ?_, h.eq_of_final hd hrun'⟩
  · exact some.inj ((result_left_of_exec hcont hr).symm.trans hleft)
  · exact some.inj ((result_right_of_exec hcont hr).symm.trans hright)

section Rules

variable {a a' : σ} {b b' : τ} {n n' sid : Nat} {s s' : List Nat} {p q : List (Nat × F)} {f : F}

theorem tauLeft (hA : A a = .tau a') :
    Leads A B ⟨⟨a, n, s⟩, ⟨b, n', s'⟩, p, q⟩ ⟨⟨a', n, s⟩, ⟨b, n', s'⟩, p, q⟩ := by
  refine single .left ?_
  simp [step, Endpoint.step, hA]

theorem tauRight (hB : B b = .tau b') :
    Leads A B ⟨⟨a, n, s⟩, ⟨b, n', s'⟩, p, q⟩ ⟨⟨a, n, s⟩, ⟨b', n', s'⟩, p, q⟩ := by
  refine single .right ?_
  simp [step, Endpoint.step, hB]

theorem sendLeft (hA : A a = .send sid f a') :
    Leads A B ⟨⟨a, n, s⟩, ⟨b, n', s'⟩, p, q⟩ ⟨⟨a', n, s⟩, ⟨b, n', s'⟩, p ++ [(sid, f)], q⟩ := by
  refine single .left ?_
  simp [step, Endpoint.step, hA]

theorem sendRight (hB : B b = .send sid f b') :
    Leads A B ⟨⟨a, n, s⟩, ⟨b, n', s'⟩, p, q⟩ ⟨⟨a, n, s⟩, ⟨b', n', s'⟩, p, q ++ [(sid, f)]⟩ := by
  refine single .right ?_
  simp [step, Endpoint.step, hB]

variable {k : F → σ}

theorem recvLeft (hA : A a = .recv sid k) (hk : k f = a') :
    Leads A B ⟨⟨a, n, s⟩, ⟨b, n', s'⟩, p, (sid, f) :: q⟩ ⟨⟨a', n, s⟩, ⟨b, n', s'⟩, p, q⟩ := by
  subst hk
  refine single .left ?_
  simp [step, Endpoint.step, hA, Endpoint.takeFrame]

theorem recvRight {k : F → τ} (hB : B b = .recv sid k) (hk : k f = b') :
    Leads A B ⟨⟨a, n, s⟩, ⟨b, n', s'⟩, (sid, f) :: p, q⟩ ⟨⟨a, n, s⟩, ⟨b', n', s'⟩, p, q⟩ := by
  subst hk
  refine single .right ?_
  simp [step, Endpoint.step, hB, Endpoint.takeFrame]

theorem openLeft {k : Nat → σ} (hA : A a = .openStream k) :
    Leads A B ⟨⟨a, n, s⟩, ⟨b, n', s'⟩, p, q⟩ ⟨⟨k n, n + 2, n :: s⟩, ⟨b, n', s'⟩, p, q⟩ := by
  refine single .left ?_
  simp [step, Endpoint.step, hA]

theorem openRight {k : Nat → τ} (hB : B b = .openStream k) :
    Leads A B ⟨⟨a, n, s⟩, ⟨b, n', s'⟩, p, q⟩ ⟨⟨a, n, s⟩, ⟨k n', n' + 2, n' :: s'⟩, p, q⟩ := by
  refine single .right ?_
  simp [step, Endpoint.step, hB]

theorem acceptLeft {k : Nat → σ} (hA : A a = .accept k) (hsid : sid ∉ s) :
    Leads A B ⟨⟨a, n, s⟩, ⟨b, n', s'⟩, p, (sid, f) :: q⟩
      ⟨⟨k sid, n, sid :: s⟩, ⟨b, n', s'⟩, p, (sid, f) :: q⟩ := by
  refine single .left ?_
  simp only [step, Endpoint.step, hA, find?_cons, hsid, not_false_eq_true, decide_true,
    map_some, append_nil]

theorem acceptRight {k : Nat → τ} (hB : B b = .accept k) (hsid : sid ∉ s') :
    Leads A B ⟨⟨a, n, s⟩, ⟨b, n', s'⟩, (sid, f) :: p, q⟩
      ⟨⟨a, n, s⟩, ⟨k sid, n', sid :: s'⟩, (sid, f) :: p, q⟩ := by
  refine single .right ?_
  simp only [step, Endpoint.step, hB, find?_cons, hsid, not_false_eq_true, decide_true,
    map_some, append_nil]

theorem transmitRight {k : F → τ} (hA : A a = .send sid f a') (hB : B b = .recv sid k)
    (hk : k f = b') : Leads A B ⟨⟨a, n, s⟩, ⟨b, n', s'⟩, [], q⟩ ⟨⟨a', n, s⟩, ⟨b', n', s'⟩, [], q⟩ :=
  (sendLeft hA).trans (recvRight hB hk)

theorem transmitLeft (hB : B b = .send sid f b') (hA : A a = .recv sid k) (hk : k f = a') :
    Leads A B ⟨⟨a, n, s⟩, ⟨b, n', s'⟩, p, []⟩ ⟨⟨a', n, s⟩, ⟨b', n', s'⟩, p, []⟩ :=
  (sendRight hB).trans (recvLeft hA hk)

end Rules

end Leads

/-! ## The same dialogue from the other side -/

def Side.swap : Side → Side
  | .left => .right
  | .right => .left

def Dialogue.swap {σ τ F : Type*} (c : Dialogue σ τ F) : Dialogue τ σ F :=
  ⟨c.right, c.left, c.toLeft, c.toRight⟩

variable {σ τ F ρ ρ' : Type*} {c d : Dialogue σ τ F} {A : σ → Act σ F ρ}

theorem Leads.swap {B : τ → Act τ F ρ'} (h : Leads A B c d) : Leads B A c.swap d.swap := by
  obtain ⟨sides, hrun⟩ := h
  refine ⟨sides.map Side.swap, exec_map Dialogue.swap Side.swap (fun c side d hstep => ?_) hrun⟩
  cases side with
  | left | right =>
    obtain ⟨r, hr, rfl⟩ := map_eq_some_iff.mp hstep
    exact map_eq_some_iff.mpr ⟨r, hr, rfl⟩

/-! ## Programs as parts of others -/

/-- A program runs as a part of another one in the states `wrap`, as long as it does not return. -/
def Runs {σ σ' F ρ ρ' : Type*} (A : σ → Act σ F ρ) (A' : σ' → Act σ' F ρ') (wrap : σ → σ') : Prop :=
  ∃ ret : ρ → σ', ∀ s, A' (wrap s) = (A s).call wrap ret

namespace Dialogue

variable {σ σ' τ τ' F : Type*}

def map (wrap : σ → σ') (wrap' : τ → τ') (c : Dialogue σ τ F) : Dialogue σ' τ' F :=
  ⟨⟨wrap c.left.state, c.left.nextId, c.left.known⟩,
    ⟨wrap' c.right.state, c.right.nextId, c.right.known⟩, c.toRight, c.toLeft⟩

end Dialogue

variable {σ' : Type*} {wrap : σ → σ'}

theorem Endpoint.step_of_runs {A' : σ' → Act σ' F ρ'} (hruns : Runs A A' wrap) {e : Endpoint σ}
    {inbox : List (Nat × F)} {r : Endpoint σ × List (Nat × F) × List (Nat × F)}
    (h : e.step A inbox = some r) :
    (⟨wrap e.state, e.nextId, e.known⟩ : Endpoint σ').step A' inbox
      = some (⟨wrap r.1.state, r.1.nextId, r.1.known⟩, r.2.1, r.2.2) := by
  obtain ⟨ret, hact⟩ := hruns
  unfold step at h ⊢
  rw [hact]
  cases hA : A e.state <;> rw [hA] at h
  case done res => cases h
  case recv sid k =>
    obtain ⟨p, hp, rfl⟩ := map_eq_some_iff.mp h
    simp [Act.call, hp]
  case accept k =>
    obtain ⟨p, hp, rfl⟩ := map_eq_some_iff.mp h
    simp only [Act.call, hp, map_some]
  all_goals
    cases h
    rfl

theorem Leads.map {τ' ρ₁ ρ₁' ρ₂ ρ₂' : Type*} {A : σ → Act σ F ρ₁} {A' : σ' → Act σ' F ρ₁'}
    {B : τ → Act τ F ρ₂} {B' : τ' → Act τ' F ρ₂'} {wrap' : τ → τ'} (hleft : Runs A A' wrap)
    (hright : Runs B B' wrap') (h : Leads A B c d) :
    Leads A' B' (c.map wrap wrap') (d.map wrap wrap') := by
  obtain ⟨sides, hrun⟩ := h
  refine ⟨sides.map id, exec_map (Dialogue.map wrap wrap') id (fun c side d hstep => ?_) hrun⟩
  cases side with
  | left =>
    obtain ⟨r, hr, rfl⟩ := map_eq_some_iff.mp hstep
    simp [Dialogue.step, Dialogue.map, Endpoint.step_of_runs hleft hr]
  | right =>
    obtain ⟨r, hr, rfl⟩ := map_eq_some_iff.mp hstep
    simp [Dialogue.step, Dialogue.map, Endpoint.step_of_runs hright hr]

/-! ## One side alone

A program against any other side: all that it sees of it are the frames that arrive. -/

namespace Act

variable {σ F ρ : Type*}

/-- The program goes on by itself or sends, or a frame arrives that it waits for. -/
def advance (A : σ → Act σ F ρ) (s : σ) : Option F → Option σ
  | none =>
    match A s with
    | .tau s' => some s'
    | .send _ _ s' => some s'
    | _ => none
  | some f =>
    match A s with
    | .recv _ k => some (k f)
    | _ => none

/-- **In every state of every run**, of the frames seen and the state, if no frames arrive but these. -/
def Always (A : σ → Act σ F ρ) (Q : List F → σ → Prop) (seen : List F) (s : σ) (frames : List F) : Prop :=
  ∀ evs s', exec (advance A) s evs = some s' → evs.reduceOption <+: frames →
    Q (seen ++ evs.reduceOption) s'

variable {A : σ → Act σ F ρ} {Q : List F → σ → Prop} {seen frames : List F} {s s' : σ}

theorem Always.now (h : Always A Q seen s frames) : Q seen s := by
  simpa using h [] s rfl nil_prefix

theorem always_iff_of_advance (hnone : advance A s none = some s')
    (hsome : ∀ f, advance A s (some f) = none) :
    Always A Q seen s frames ↔ Q seen s ∧ Always A Q seen s' frames := by
  constructor
  · intro h
    refine ⟨h.now, fun evs t hrun hpre => ?_⟩
    have hrun' : exec (advance A) s (none :: evs) = some t := by
      rw [exec_cons, hnone]
      exact hrun
    simpa using h (none :: evs) t hrun' (by simpa using hpre)
  · rintro ⟨hnow, hlater⟩ evs t hrun hpre
    rcases evs with _ | ⟨_ | f, evs⟩
    · cases hrun
      simpa using hnow
    · rw [exec_cons, hnone] at hrun
      exact hlater evs t hrun hpre
    · rw [exec_cons, hsome f] at hrun
      cases hrun

theorem always_tau (hA : A s = .tau s') :
    Always A Q seen s frames ↔ Q seen s ∧ Always A Q seen s' frames :=
  always_iff_of_advance (by simp only [advance, hA]) fun f => by simp only [advance, hA]

variable {sid : Nat} {f : F}

theorem always_send (hA : A s = .send sid f s') :
    Always A Q seen s frames ↔ Q seen s ∧ Always A Q seen s' frames :=
  always_iff_of_advance (by simp only [advance, hA]) fun f => by simp only [advance, hA]

variable {k : F → σ}

theorem always_recv_nil (hA : A s = .recv sid k) : Always A Q seen s [] ↔ Q seen s := by
  refine ⟨Always.now, fun hnow evs t hrun hpre => ?_⟩
  rcases evs with _ | ⟨_ | f, evs⟩
  · cases hrun
    simpa using hnow
  · simp only [exec_cons, advance, hA] at hrun
    cases hrun
  · exact absurd (eq_nil_of_prefix_nil hpre) (cons_ne_nil _ _)

theorem always_recv_cons (hA : A s = .recv sid k) :
    Always A Q seen s (f :: frames) ↔ Q seen s ∧ Always A Q (seen ++ [f]) (k f) frames := by
  constructor
  · intro h
    refine ⟨h.now, fun evs t hrun hpre => ?_⟩
    have hrun' : exec (advance A) s (some f :: evs) = some t := by
      simp only [exec_cons, advance, hA]
      exact hrun
    have hQ := h (some f :: evs) t hrun'
      (by rw [reduceOption_cons_of_some]; exact (prefix_cons_inj f).mpr hpre)
    rwa [append_assoc]
  · rintro ⟨hnow, hlater⟩ evs t hrun hpre
    rcases evs with _ | ⟨_ | f', evs⟩
    · cases hrun
      simpa using hnow
    · simp only [exec_cons, advance, hA] at hrun
      cases hrun
    · rw [reduceOption_cons_of_some, cons_prefix_cons] at hpre
      obtain ⟨rfl, hpre⟩ := hpre
      simp only [exec_cons, advance, hA] at hrun
      have hQ := hlater evs t hrun hpre
      rwa [append_assoc] at hQ

theorem always_done {res : ρ} (hA : A s = .done res) : Always A Q seen s frames ↔ Q seen s := by
  refine ⟨Always.now, fun hnow evs t hrun _ => ?_⟩
  rcases evs with _ | ⟨_ | f, evs⟩
  · cases hrun
    simpa using hnow
  · simp only [exec_cons, advance, hA] at hrun
    cases hrun
  · simp only [exec_cons, advance, hA] at hrun
    cases hrun

end Act

end Lib
