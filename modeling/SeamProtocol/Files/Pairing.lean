import SeamProtocol.Files.Exchange
import SeamProtocol.Files.Sync

/-! # Both sides of a transfer

When the commands that talk to each other come to an end. RESUME is neither negotiated nor announced:
its sender decides by a partial file, and who receives it by a flag. -/

namespace SeamProtocol

open Lib List Leads

/-! ## Pairings -/

/-- **Every run of both sides ends, and both return without an error**: the number of steps is bounded,
no side has failed in any state, and where neither can go on both have returned. -/
def Concludes {σ τ α β : Type} (A : σ → Act σ Frame (Except TransferError α))
    (B : τ → Act τ Frame (Except TransferError β)) (a : σ) (b : τ) : Prop :=
  ∃ n, ∀ sides c, exec (Dialogue.step A B) (.start a b) sides = some c → sides.length ≤ n ∧
    (∀ e, c.left.result A ≠ some (.error e)) ∧ (∀ e, c.right.result B ≠ some (.error e)) ∧
    (Final (Dialogue.step A B) c →
      (∃ x, c.left.result A = some (.ok x)) ∧ ∃ y, c.right.result B = some (.ok y))

inductive Pairing where
  | copyTo (zstd resume fips recvFips : Bool) (files : List SourceFile) (disk : Disk)
  | copyFrom (zstd resume fips : Bool) (files : List SourceFile) (disk : Disk)
  | share (zstd resume fips shareFips : Bool) (token : Bytes) (remaining : Nat)
      (files : List SourceFile) (disk : Disk)
  | syncTo (client server : SyncConfig) (delete : Bool) (files dir : List SourceFile)
  | syncFrom (client server : SyncConfig) (delete : Bool) (files dir : List SourceFile)

namespace Pairing

def Ends (T : Tools) : Pairing → Prop
  | copyTo zstd resume fips recvFips files disk =>
    Concludes (copyPush T zstd resume fips none files) (recvRun T recvFips none disk) .start .start
  | copyFrom zstd resume fips files disk =>
    Concludes (copyPull T resume fips none disk) (sendRun T zstd files) .start .start
  | share zstd resume fips shareFips token remaining files disk =>
    Concludes (copyPull T resume fips (some token) disk)
      (handleShareConn T zstd shareFips token remaining files) .start .start
  | syncTo client server delete files dir =>
    Concludes (syncPush T client delete files) (syncRecvPush T server delete dir) .start .start
  | syncFrom client server delete files dir =>
    Concludes (syncPull T client delete dir) (syncRecvPull T server files) .start .start

/-- What both sides have to have in common: the same hash, and for `sync` the same compression; names
that are not refused; and for each file a partial one that can be resumed exactly if the sender waits for
RESUME, which `_send` always does and `share` never. -/
def Compatible : Pairing → Prop
  | copyTo _ resume fips recvFips files disk =>
    fips = recvFips ∧ (∀ f ∈ files, dangerous f.name = false) ∧ Agrees resume ⟨true, none⟩ disk files
  | copyFrom _ resume fips files disk =>
    fips = false ∧ (∀ f ∈ files, dangerous f.name = false) ∧ Agrees true ⟨resume, none⟩ disk files
  | share _ resume fips shareFips _ remaining files disk =>
    fips = shareFips ∧ 0 < remaining ∧ (∀ f ∈ files, dangerous f.name = false) ∧
      Agrees false ⟨resume, none⟩ disk files
  | syncTo client server _ files _ => client = server ∧ ∀ f ∈ files, dangerous f.name = false
  | syncFrom .. => False

instance : ∀ p : Pairing, Decidable p.Compatible
  | copyTo .. => inferInstanceAs (Decidable (_ ∧ _ ∧ _))
  | copyFrom .. => inferInstanceAs (Decidable (_ ∧ _ ∧ _))
  | share .. => inferInstanceAs (Decidable (_ ∧ _ ∧ _ ∧ _))
  | syncTo .. => inferInstanceAs (Decidable (_ ∧ _))
  | syncFrom .. => isFalse id

end Pairing

/-! ## Each pairing -/

variable {σ τ α β : Type} {a : σ} {b : τ} {A : σ → Act σ Frame (Except TransferError α)}
    {B : τ → Act τ Frame (Except TransferError β)}

theorem concludes_of_leads {d : Dialogue σ τ Frame} {x : α} {y : β} (h : Leads A B (.start a b) d)
    (hleft : d.left.result A = some (.ok x)) (hright : d.right.result B = some (.ok y)) :
    Concludes A B a b := by
  obtain ⟨n, hn⟩ := h.complete hleft hright
  refine ⟨n, fun sides c hrun => ?_⟩
  obtain ⟨hle, hl, hr, hfinal⟩ := hn sides c hrun
  refine ⟨hle, ?_, ?_, fun hf => ?_⟩
  · intro e he
    cases hl _ he
  · intro e he
    cases hr _ he
  · rw [hfinal hf]
    exact ⟨⟨x, hleft⟩, y, hright⟩

section

variable {T : Tools} {zstd resume fips : Bool} {token : Option Bytes} {files : List SourceFile}
  {disk : Disk} (sid : Nat)

theorem runs_copyPush : Runs (pushFiles T ⟨sid, zstd, fips⟩ resume files)
    (copyPush T zstd resume fips token files) (.push sid) := ⟨_, fun _ => rfl⟩

theorem runs_recvRun : Runs (receiveRound T sid fips true ⟨true, none⟩ disk)
    (recvRun T fips none disk) (.round sid) := ⟨_, fun _ => rfl⟩

theorem runs_copyPull : Runs (receiveRound T sid fips false ⟨resume, none⟩ disk)
    (copyPull T resume fips token disk) (.pull sid) := ⟨_, fun _ => rfl⟩

theorem runs_sendRun : Runs (pushFiles T ⟨sid, zstd, false⟩ true files)
    (sendRun T zstd files) (.push sid) := ⟨_, fun _ => rfl⟩

theorem runs_handleShareConn (expected : Bytes) (remaining : Nat) :
    Runs (pushFiles T ⟨sid, zstd, fips⟩ false files)
      (handleShareConn T zstd fips expected remaining files) (.push sid) := ⟨_, fun _ => rfl⟩

theorem copyTo_concludes (hsafe : ∀ f ∈ files, dangerous f.name = false)
    (hagree : Agrees resume ⟨true, none⟩ disk files) :
    Concludes (copyPush T zstd resume fips none files) (recvRun T fips none disk) .start .start := by
  -- the control stream becomes visible with HELLO
  have hhello : Leads (copyPush T zstd resume fips none files) (recvRun T fips none disk)
      (.start .start .start)
      ⟨⟨.push 1 .awaitAck, 3, [1]⟩, ⟨.round 1 (.ack zstd), 2, [1]⟩, [], []⟩ := by
    refine trans (openLeft rfl) ?_
    refine trans (tauLeft rfl) ?_
    refine trans (sendLeft rfl) ?_
    exact trans (acceptRight rfl not_mem_nil) (recvRight rfl rfl)
  have hround : Leads (copyPush T zstd resume fips none files) (recvRun T fips none disk)
      ⟨⟨.push 1 .awaitAck, 3, [1]⟩, ⟨.round 1 (.ack zstd), 2, [1]⟩, [], []⟩
      ⟨⟨.push 1 (.returned (.ok ())), 3, [1]⟩,
        ⟨.round 1 (.returned (.ok (Staging.receivedAll ⟨true, none⟩ disk files))), 2, [1]⟩, [], []⟩ :=
    map (runs_copyPush 1) (runs_recvRun 1) (leads_round hsafe hagree)
  exact concludes_of_leads (hhello.trans (hround.trans
    (trans (tauLeft rfl) (tauRight rfl)))) rfl rfl

theorem copyFrom_concludes (hsafe : ∀ f ∈ files, dangerous f.name = false)
    (hagree : Agrees true ⟨resume, none⟩ disk files) :
    Concludes (copyPull T resume false none disk) (sendRun T zstd files) .start .start := by
  have hhello : Leads (copyPull T resume false none disk) (sendRun T zstd files)
      (.start .start .start)
      ⟨⟨.pull 2 (.ack zstd), 1, [2]⟩, ⟨.push 2 .awaitAck, 4, [2]⟩, [], []⟩ := by
    refine trans (openRight rfl) ?_
    refine trans (sendRight rfl) ?_
    refine trans (acceptLeft rfl not_mem_nil) ?_
    exact trans (tauLeft rfl) (recvLeft rfl rfl)
  have hround : Leads (copyPull T resume false none disk) (sendRun T zstd files)
      ⟨⟨.pull 2 (.ack zstd), 1, [2]⟩, ⟨.push 2 .awaitAck, 4, [2]⟩, [], []⟩
      ⟨⟨.pull 2 (.returned (.ok (Staging.receivedAll ⟨resume, none⟩ disk files))), 1, [2]⟩,
        ⟨.push 2 (.returned (.ok ())), 4, [2]⟩, [], []⟩ :=
    map (runs_copyPull 2) (runs_sendRun 2) (leads_round hsafe hagree).swap
  exact concludes_of_leads (hhello.trans (hround.trans
    (trans (tauLeft rfl) (tauRight rfl)))) rfl rfl

theorem share_concludes {token : Bytes} {remaining : Nat} (hremaining : 0 < remaining)
    (hsafe : ∀ f ∈ files, dangerous f.name = false) (hagree : Agrees false ⟨resume, none⟩ disk files) :
    Concludes (copyPull T resume fips (some token) disk)
      (handleShareConn T zstd fips token remaining files) .start .start := by
  -- the control stream becomes visible with the token
  have hhello : Leads (copyPull T resume fips (some token) disk)
      (handleShareConn T zstd fips token remaining files) (.start .start .start)
      ⟨⟨.pull 1 (.ack zstd), 3, [1]⟩, ⟨.push 1 .awaitAck, 2, [1]⟩, [], []⟩ := by
    refine trans (openLeft rfl) ?_
    refine trans (sendLeft rfl) ?_
    refine trans (acceptRight rfl not_mem_nil) ?_
    refine trans (d := ⟨⟨.pull 1 .awaitHello, 3, [1]⟩, ⟨.push 1 .hello, 2, [1]⟩, [], []⟩)
      (recvRight rfl ?_) (transmitLeft rfl rfl rfl)
    dsimp only
    rw [if_neg (not_not.mpr rfl), if_neg (by omega)]
  have hround : Leads (copyPull T resume fips (some token) disk)
      (handleShareConn T zstd fips token remaining files)
      ⟨⟨.pull 1 (.ack zstd), 3, [1]⟩, ⟨.push 1 .awaitAck, 2, [1]⟩, [], []⟩
      ⟨⟨.pull 1 (.returned (.ok (Staging.receivedAll ⟨resume, none⟩ disk files))), 3, [1]⟩,
        ⟨.push 1 (.returned (.ok ())), 2, [1]⟩, [], []⟩ :=
    map (runs_copyPull 1) (runs_handleShareConn 1 token remaining) (leads_round hsafe hagree).swap
  exact concludes_of_leads (hhello.trans (hround.trans
    (trans (tauLeft rfl) (tauRight rfl)))) rfl rfl

end

section

variable {T : Tools} {client server : SyncConfig} {delete : Bool} {files dir : List SourceFile}
  (sid : Nat)

theorem runs_syncPush (remote : List ManifestEntry) :
    Runs (sendFiles T syncFormat (client.options sid) false) (syncPush T client delete files)
      (.files sid remote) := ⟨_, fun _ => rfl⟩

theorem runs_syncRecvPush :
    Runs (receiveFiles T syncFormat (server.options sid) unstaged) (syncRecvPush T server delete dir)
      (.files sid) := ⟨_, fun _ => rfl⟩

theorem leads_manifests :
    Leads (syncPush T client delete files) (syncRecvPush T server delete dir) (.start .start .start)
      ⟨⟨.files 1 (buildManifest T server.fips dir)
          (.loop (toSend T client.fips files (buildManifest T server.fips dir))), 3, [1]⟩,
        ⟨.files 1 (.loop (.ofFiles dir)), 2, [1]⟩, [], []⟩ := by
  refine trans (openLeft rfl) ?_
  refine trans (sendLeft rfl) ?_
  refine trans (acceptRight rfl not_mem_nil) ?_
  refine trans (recvRight rfl rfl) ?_
  exact transmitLeft rfl rfl rfl

def removeSafe (disk : Disk) (path : Name) : Disk := if dangerous path then disk else disk.remove path

theorem leads_deletes {sid n n' : Nat} {s s' : List Nat} (paths : List Name) (disk : Disk) :
    Leads (syncPush T client delete files) (syncRecvPush T server delete dir)
      ⟨⟨.deletes sid paths, n, s⟩, ⟨.deletes sid disk, n', s'⟩, [], []⟩
      ⟨⟨.returned (.ok ()), n, s⟩, ⟨.returned (.ok (paths.foldl removeSafe disk)), n', s'⟩, [], []⟩ := by
  induction paths generalizing disk with
  | nil => exact transmitRight rfl rfl rfl
  | cons path rest ih => exact trans (transmitRight rfl rfl rfl) (ih _)

def deleted (delete : Bool) (files : List SourceFile) (remote : List ManifestEntry) (disk : Disk) : Disk :=
  if delete then (toDelete files remote).foldl removeSafe disk else disk

theorem leads_end {remote : List ManifestEntry} {disk : Disk} :
    ∃ rest, Leads (syncPush T client delete files) (syncRecvPush T server delete dir)
      ⟨⟨.files 1 remote (.returned (.ok ())), 3, [1]⟩, ⟨.files 1 (.returned (.ok disk)), 2, [1]⟩, [], []⟩
      ⟨⟨.returned (.ok ()), 3, [1]⟩, ⟨.returned (.ok (deleted delete files remote disk)), 2, [1]⟩,
        rest, []⟩ := by
  cases delete with
  | false =>
    -- the server does not wait for the second SYNC_DONE
    exact ⟨_, trans (tauLeft rfl) (trans (tauRight rfl) (sendLeft rfl))⟩
  | true =>
    exact ⟨[], trans (tauLeft rfl) (trans (tauRight rfl)
      (leads_deletes (toDelete files remote) disk))⟩

theorem syncTo_concludes (hsafe : ∀ f ∈ files, dangerous f.name = false) :
    Concludes (syncPush T client delete files) (syncRecvPush T client delete dir) .start .start := by
  obtain ⟨remote, hremote⟩ : ∃ remote, buildManifest T client.fips dir = remote := ⟨_, rfl⟩
  have hfiles : Leads (syncPush T client delete files) (syncRecvPush T client delete dir)
      ⟨⟨.files 1 remote (.loop (toSend T client.fips files remote)), 3, [1]⟩,
        ⟨.files 1 (.loop (.ofFiles dir)), 2, [1]⟩, [], []⟩
      ⟨⟨.files 1 remote (.returned (.ok ())), 3, [1]⟩,
        ⟨.files 1 (.returned (.ok (unstaged.receivedAll (.ofFiles dir)
          (toSend T client.fips files remote)))), 2, [1]⟩, [], []⟩ :=
    map (runs_syncPush 1 remote) (runs_syncRecvPush 1)
      (leads_files (fun f hf => hsafe f (mem_of_mem_filter hf)) (agrees_of_not_resume rfl _ _))
  subst hremote
  obtain ⟨rest, hend⟩ := leads_end
  exact concludes_of_leads (leads_manifests.trans (hfiles.trans hend)) rfl rfl

end

/-- **Commands that are started for each other come to an end**, if both sides have in common what they
do not negotiate: however their steps are interleaved, there is no state in which both wait or one has
failed, and every run ends with success on both sides. -/
theorem pairing_concludes (T : Tools) (p : Pairing) (h : p.Compatible) : p.Ends T := by
  cases p with
  | copyTo zstd resume fips recvFips files disk =>
    obtain ⟨rfl, hsafe, hagree⟩ := h
    exact copyTo_concludes hsafe hagree
  | copyFrom zstd resume fips files disk =>
    obtain ⟨rfl, hsafe, hagree⟩ := h
    exact copyFrom_concludes hsafe hagree
  | share zstd resume fips shareFips token remaining files disk =>
    obtain ⟨rfl, hremaining, hsafe, hagree⟩ := h
    exact share_concludes hremaining hsafe hagree
  | syncTo client server delete files dir =>
    obtain ⟨rfl, hsafe⟩ := h
    exact syncTo_concludes hsafe
  | syncFrom client server delete files dir => exact h.elim

/-- A file that is resumed, and a directory. -/
theorem resumed_file_concludes :
    (Pairing.copyTo true true false false [⟨[0x61], [9, 2]⟩]
      (Disk.put (fun _ => none) (partialPath [0x61] none) [9])).Ends Tools.small ∧
    (Pairing.syncTo ⟨true, false⟩ ⟨true, false⟩ true [⟨[0x61], [1]⟩] [⟨[0x62], [2]⟩]).Ends Tools.small :=
  ⟨pairing_concludes _ _ (by decide +kernel), pairing_concludes _ _ (by decide +kernel)⟩

/-! ## Deadlocks and errors -/

/-- **`sync` from a remote directory never comes to an end**: the client opens a stream and waits for the
manifest of the server, which waits for the stream. -/
theorem syncPull_waits (T : Tools) (client server : SyncConfig) (delete : Bool)
    (files dir : List SourceFile) :
    ¬Concludes (syncPull T client delete dir) (syncRecvPull T server files) .start .start := by
  rintro ⟨n, hn⟩
  obtain ⟨-, -, -, hfinal⟩ := hn [.left] _ rfl
  obtain ⟨⟨x, hx⟩, -⟩ := hfinal fun side => by cases side <;> rfl
  cases hx

/-- A run to a state in which neither side can go on and one has not returned, or in which one has
failed. -/
def goesWrong {σ τ α β : Type} (A : σ → Act σ Frame (Except TransferError α))
    (B : τ → Act τ Frame (Except TransferError β)) (a : σ) (b : τ) (sides : List Side) : Bool :=
  (exec (Dialogue.step A B) (.start a b) sides).any fun c =>
    let failed := match c.left.result A with
      | some (.error _) => true
      | _ => false
    failed || ((Dialogue.step A B c .left).isNone && (Dialogue.step A B c .right).isNone &&
      (c.left.result A).isNone)

theorem not_concludes_of_goesWrong (sides : List Side) (h : goesWrong A B a b sides = true) :
    ¬Concludes A B a b := by
  rintro ⟨n, hn⟩
  obtain ⟨c, hrun, hc⟩ := exists_of_exec_any h
  obtain ⟨-, hleft, -, hfinal⟩ := hn sides c hrun
  rw [Bool.or_eq_true, Bool.and_eq_true, Bool.and_eq_true] at hc
  rcases hc with hfailed | ⟨⟨hl, hr⟩, hnone⟩
  · split at hfailed
    · next e he => exact hleft e he
    · cases hfailed
  · obtain ⟨⟨x, hx⟩, -⟩ := hfinal fun side => by
      cases side with
      | left => exact Option.isNone_iff_eq_none.mp hl
      | right => exact Option.isNone_iff_eq_none.mp hr
    rw [hx] at hnone
    cases hnone

def turns (counts : List (Side × Nat)) : List Side := counts.flatMap fun p => .replicate p.2 p.1

/-- A run in which both sides succeed, and what the right one returns passes a test. -/
theorem exists_run_of_any [DecidableEq α] {x : α} {p : β → Bool} {Q : β → Prop}
    (counts : List (Side × Nat)) (h : (exec (Dialogue.step A B) (.start a b) (turns counts)).any (fun c =>
      decide (c.left.result A = some (.ok x)) && (c.right.result B).any (·.toOption.any p)) = true)
    (hQ : ∀ y, p y = true → Q y) :
    ∃ sides c y, exec (Dialogue.step A B) (.start a b) sides = some c ∧
      c.left.result A = some (.ok x) ∧ c.right.result B = some (.ok y) ∧ Q y := by
  obtain ⟨c, hrun, hc⟩ := exists_of_exec_any h
  rw [Bool.and_eq_true, decide_eq_true_eq] at hc
  obtain ⟨hleft, hright⟩ := hc
  obtain ⟨res, hres, hp⟩ := Option.any_eq_true _ _ |>.mp hright
  cases res with
  | error e => cases hp
  | ok y => exact ⟨_, c, y, hrun, hleft, hres, hQ y hp⟩

def twoBytes : SourceFile := ⟨[0x61], [1, 2]⟩

def stalePart : Disk := Disk.put (fun _ => none) (partialPath twoBytes.name none) [9]

/-- **Runs that go wrong.** `_send` waits for RESUME, which `cp` without `--resume` never sends; `cp
--resume` waits for it, and `recv` without a partial file does not send it; with one it does, and `cp`
without `--resume` takes it for the confirmation, as `share` does against `cp --resume`. `sync` from a
remote directory waits for itself. -/
theorem pairings_stuck :
    ¬(Pairing.copyFrom false false false [twoBytes] fun _ => none).Ends Tools.small ∧
    ¬(Pairing.copyTo false true false false [twoBytes] fun _ => none).Ends Tools.small ∧
    ¬(Pairing.copyTo false false false false [twoBytes] stalePart).Ends Tools.small ∧
    ¬(Pairing.share false true false false [7] 1 [twoBytes] stalePart).Ends Tools.small ∧
    ¬(Pairing.syncFrom ⟨false, false⟩ ⟨false, false⟩ false [twoBytes] []).Ends Tools.small := by
  refine ⟨?_, ?_, ?_, ?_, syncPull_waits _ _ _ _ _ _⟩
  · exact not_concludes_of_goesWrong (turns [(.right, 2), (.left, 4), (.right, 3), (.left, 2)])
      (by decide +kernel)
  · exact not_concludes_of_goesWrong (turns [(.left, 3), (.right, 3), (.left, 3), (.right, 2)])
      (by decide +kernel)
  · exact not_concludes_of_goesWrong
      (turns [(.left, 3), (.right, 3), (.left, 5), (.right, 2), (.left, 4), (.right, 4)])
      (by decide +kernel)
  · exact not_concludes_of_goesWrong
      (turns [(.left, 2), (.right, 3), (.left, 2), (.right, 3), (.left, 2), (.right, 1),
        (.left, 1), (.right, 1), (.left, 3), (.right, 4)]) (by decide +kernel)

end SeamProtocol
