import SeamProtocol.Pins.KnownHosts

/-! # Commands against one host

A command starts a worker on the remote host, which tells it a key, and compares the key with the one
pinned for the host. But each worker makes its own key. -/

namespace SeamProtocol

open Lib List

/-! ## Workers -/

inductive Worker where
  | recv
  | send
  | syncRecv
  | shellRecv
  | proxyRecv
  | forwardRecv
  | forwardHopRecv
  | lsRecv
  | mountRecv
  | tunnelRecv
  | pipeRecv

/-- **The key that a worker presents**, and how many keys have been made then: all of them call
`IdentityKeypair::generate`. -/
def Worker.identity (generate : Nat → Bytes) (made : Nat) : Worker → Bytes × Nat
  | .recv | .send | .syncRecv | .shellRecv | .proxyRecv | .forwardRecv | .forwardHopRecv | .lsRecv
  | .mountRecv | .tunnelRecv | .pipeRecv => (generate made, made + 1)

inductive ClientCommand where
  /-- `cp` to the host, over one path or, with `--multipath`, over more of them. -/
  | cpPush (morePaths : Nat)
  | cpPull
  | sync
  | shell
  | proxy
  | forward (relay : Bool)
  | ls
  | mount
  | tunnel
  | pipe

namespace ClientCommand

def worker : ClientCommand → Worker
  | .cpPush _ => .recv
  | .cpPull => .send
  | .sync => .syncRecv
  | .shell => .shellRecv
  | .proxy => .proxyRecv
  | .forward relay => if relay then .forwardHopRecv else .forwardRecv
  | .ls => .lsRecv
  | .mount => .mountRecv
  | .tunnel => .tunnelRecv
  | .pipe => .pipeRecv

def dials : ClientCommand → Nat
  | .cpPush morePaths => morePaths + 1
  | _ => 1

theorem dials_pos (c : ClientCommand) : 0 < c.dials := by
  cases c <;> exact Nat.succ_pos _

end ClientCommand

/-! ## Histories -/

def dialAll (T : Tools) (host : Text) (key : Bytes) :
    Nat → Option Bytes → List (Except PinError Unit) × Option Bytes
  | 0, file => ([], file)
  | n + 1, file =>
    match verifyOrPin T host key .enforce file with
    | (.error e, file) => ([.error e], file)
    | (.ok (), file) => (.ok () :: (dialAll T host key n file).1, (dialAll T host key n file).2)

structure PinHistory where
  file : Option Bytes
  made : Nat
  results : List (Except PinError Unit)

def runCommand (T : Tools) (generate : Nat → Bytes) (host : Text) (h : PinHistory) (c : ClientCommand) :
    PinHistory :=
  let key := c.worker.identity generate h.made
  let calls := dialAll T host key.1 c.dials h.file
  ⟨calls.2, key.2, h.results ++ calls.1⟩

def runCommands (T : Tools) (generate : Nat → Bytes) (host : Text) (file : Option Bytes)
    (cs : List ClientCommand) : PinHistory :=
  cs.foldl (runCommand T generate host) ⟨file, 0, []⟩

section Comparisons

variable {T : Tools} {generate : Nat → Bytes} {host : Text} {key : Bytes} {file : Option Bytes}

def Free (T : Tools) (host : Text) (key : Bytes) (file : Option Bytes) : Prop :=
  ∀ fp, (loadPins file).get? host = some fp → fp = fingerprint T key

theorem free_of_get?_eq_none (hget : (loadPins file).get? host = none) : Free T host key file := by
  intro fp hfp
  rw [hget] at hfp
  cases hfp

theorem verifyOrPin_of_free (hfree : Free T host key file) :
    ∃ file', verifyOrPin T host key .enforce file = (.ok (), file') ∧ Free T host key file'
      ∧ (Recordable host → (loadPins file').get? host = some (fingerprint T key)) := by
  rw [verifyOrPin, if_neg nofun]
  unfold verifyOrPinLocked
  cases hget : (loadPins file).get? host with
  | some pinned =>
    dsimp only
    have hpinned := hfree pinned hget
    rw [if_pos hpinned]
    exact ⟨file, rfl, hfree, fun _ => hpinned ▸ hget⟩
  | none =>
    have hagain := fun hhost : Recordable host =>
      get?_loadPins_pin file hhost (storable_fingerprint T key)
    refine ⟨_, rfl, ?_, hagain⟩
    intro fp hfp
    rw [hagain (recordable_of_get?_loadPins hfp)] at hfp
    exact (Option.some.inj hfp).symm

theorem dialAll_of_free (hfree : Free T host key file) (n : Nat) :
    (∀ r ∈ (dialAll T host key n file).1, r = .ok ())
      ∧ (0 < n → Recordable host →
        (loadPins (dialAll T host key n file).2).get? host = some (fingerprint T key)) := by
  induction n generalizing file with
  | zero => exact ⟨fun _ hr => (nomatch hr), fun hpos => absurd hpos (Nat.lt_irrefl 0)⟩
  | succ n ih =>
    obtain ⟨file', hverify, hfree', hpinned⟩ := verifyOrPin_of_free hfree
    obtain ⟨hok, hlast⟩ := ih hfree'
    rw [dialAll, hverify]
    refine ⟨forall_mem_cons.mpr ⟨rfl, hok⟩, ?_⟩
    intro _ hhost
    cases n with
    | zero => exact hpinned hhost
    | succ n => exact hlast (Nat.succ_pos n) hhost

theorem dialAll_of_pinned {fp : Text} (hget : (loadPins file).get? host = some fp)
    (hne : fp ≠ fingerprint T key) {n : Nat} (hn : 0 < n) :
    .error (.mismatch host) ∈ (dialAll T host key n file).1 := by
  cases n with
  | zero => exact absurd hn (Nat.lt_irrefl 0)
  | succ n =>
    have hverify : verifyOrPin T host key .enforce file = (.error (.mismatch host), file) := by
      rw [verifyOrPin, if_neg nofun, verifyOrPinLocked, hget]
      exact if_neg hne
    rw [dialAll, hverify]
    exact mem_cons_self

variable {h : PinHistory}

theorem mem_results_foldl {r : Except PinError Unit} (hr : r ∈ h.results) (cs : List ClientCommand) :
    r ∈ (cs.foldl (runCommand T generate host) h).results := by
  induction cs generalizing h with
  | nil => exact hr
  | cons c cs ih => exact ih (mem_append_left _ hr)

theorem identity_eq (w : Worker) (made : Nat) :
    w.identity generate made = (generate made, made + 1) := by
  cases w <;> rfl

theorem runCommand_of_free (c : ClientCommand) (hfree : Free T host (generate h.made) h.file)
    (hok : ∀ r ∈ h.results, r = .ok ()) :
    (∀ r ∈ (runCommand T generate host h c).results, r = .ok ())
      ∧ (Recordable host → (loadPins (runCommand T generate host h c).file).get? host
        = some (fingerprint T (generate h.made))) := by
  rw [runCommand, identity_eq]
  obtain ⟨hall, hpinned⟩ := dialAll_of_free hfree c.dials
  refine ⟨?_, hpinned c.dials_pos⟩
  intro r hr
  rcases mem_append.mp hr with hold | hnew
  · exact hok r hold
  · exact hall r hnew

/-- **A second command is rejected**: the first one has pinned its key, and the second presents another
one. -/
theorem mismatch_mem_results (hnew : (loadPins file).get? host = none) (hhost : Recordable host)
    (hne : fingerprint T (generate 0) ≠ fingerprint T (generate 1)) (c₀ c₁ : ClientCommand)
    (cs : List ClientCommand) :
    .error (.mismatch host) ∈ (runCommands T generate host file (c₀ :: c₁ :: cs)).results := by
  have hfirst : Free T host (generate 0) file := free_of_get?_eq_none hnew
  have hpinned := (runCommand_of_free (h := ⟨file, 0, []⟩) c₀ hfirst nofun).2 hhost
  rw [runCommands, foldl_cons, foldl_cons]
  have hmade : (runCommand T generate host ⟨file, 0, []⟩ c₀).made = 1 := by
    rw [runCommand, identity_eq]
  refine mem_results_foldl ?_ cs
  rw [runCommand, identity_eq, hmade]
  exact mem_append_right _ (dialAll_of_pinned hpinned hne c₁.dials_pos)

theorem foldl_of_not_recordable (hhost : ¬ Recordable host) (cs : List ClientCommand)
    (hok : ∀ r ∈ h.results, r = .ok ()) :
    ∀ r ∈ (cs.foldl (runCommand T generate host) h).results, r = .ok () := by
  induction cs generalizing h with
  | nil => exact hok
  | cons c cs ih =>
    have hfree : Free T host (generate h.made) h.file := by
      intro fp hfp
      exact absurd (recordable_of_get?_loadPins hfp) hhost
    exact ih (runCommand_of_free c hfree hok).1

end Comparisons

/-! ## Trust on first use -/

def sampleHost : Text := "10.0.0.1".toList

theorem recordable_sampleHost : Recordable sampleHost :=
  ⟨⟨'1', "0.0.0.1".toList, rfl, by decide, by decide⟩, by decide, by decide⟩

def sampleKey (n : Nat) : Bytes := [UInt8.ofNat n]

end SeamProtocol
