import SeamProtocol.Files.Exchange
import SeamProtocol.Files.Sync

/-! # The settings of both sides of a transfer

A side takes its hash and its compression from its own settings. HELLO tells the receiver whether data
is compressed; the hash is never announced, and `sync` announces neither. -/

namespace SeamProtocol

open Lib Leads

/-! ## Processes -/

structure Config where
  compress : Bool
  fipsMode : Bool

structure Host where
  config : Option Config
  env : Option String

structure Flags where
  noCompress : Bool
  fipsMode : Bool
  resume : Bool

namespace Host

def cfg (h : Host) : Config := h.config.getD ⟨true, false⟩

def effectiveFipsMode (h : Host) (configFips cliFips : Bool) : Bool :=
  cliFips || h.env.any (fun v => v == "1" || v.toLower == "true") || configFips

def fipsActive (h : Host) (cliFips : Bool) : Bool :=
  h.effectiveFipsMode ((h.config.map Config.fipsMode).getD false) cliFips

/-- Compression of `cp`, `watch`, `share` and `sync` where they are started. -/
def compress (h : Host) (flags : Flags) : Bool := !flags.noCompress && h.cfg.compress

/-- FIPS mode of `recv::run`, which resolves it once more. -/
def recvFips (h : Host) (cliFips : Bool) : Bool :=
  h.effectiveFipsMode h.cfg.fipsMode (h.fipsActive cliFips)

/-- FIPS mode of `sync::run_recv`, which is started without flags. -/
def syncRecvFips (h : Host) : Bool := h.fipsActive false || h.effectiveFipsMode h.cfg.fipsMode false

variable (h : Host)

theorem fipsMode_cfg : h.cfg.fipsMode = (h.config.map Config.fipsMode).getD false := by
  cases hconfig : h.config <;> simp [cfg, hconfig]

theorem fipsActive_eq (cliFips : Bool) : h.fipsActive cliFips = (cliFips || h.fipsActive false) := by
  simp [fipsActive, effectiveFipsMode, Bool.or_assoc]

theorem recvFips_eq (cliFips : Bool) : h.recvFips cliFips = h.fipsActive cliFips := by
  rw [recvFips, fipsMode_cfg, fipsActive, effectiveFipsMode, effectiveFipsMode]
  cases cliFips <;> cases h.env.any (fun v => v == "1" || v.toLower == "true") <;> simp

theorem syncRecvFips_eq : h.syncRecvFips = h.fipsActive false := by
  rw [syncRecvFips, fipsMode_cfg]
  exact Bool.or_self _

end Host

/-! ## Transfers -/

inductive Command where
  /-- `seam cp` to a remote destination, with `seam recv` there. -/
  | cpPush
  /-- `seam cp` from a remote source, with `seam _send` there. -/
  | cpPull
  /-- `seam watch`, with `seam recv` on the remote host. -/
  | watch
  /-- `seam share`, and `seam cp --direct` with the line that it prints. -/
  | share
  /-- `seam sync` to a remote directory, with `seam _sync-recv` there. -/
  | syncPush
  /-- `seam sync` from a remote directory. -/
  | syncPull

structure Transfer where
  command : Command
  flags : Flags
  near : Host
  far : Host
  /-- The flags of `seam cp --direct`, the only command that is started by hand on the other host. -/
  farFlags : Flags
  file : SourceFile
  disk : Disk

namespace Transfer

/-- **What the sender works with.** `_send` is told about `--no-compress`, and is never in FIPS mode. -/
def sender (t : Transfer) : Options :=
  match t.command with
  | .cpPush | .watch | .share | .syncPush => ⟨1, t.near.compress t.flags, t.near.fipsActive t.flags.fipsMode⟩
  | .cpPull => ⟨1, !t.flags.noCompress, false⟩
  | .syncPull => ⟨1, t.far.cfg.compress, t.far.syncRecvFips⟩

/-- **What the receiver works with.** `recv` is told about FIPS mode, and all but `_sync-recv` and `sync`
learn from HELLO whether data is compressed. -/
def receiver (t : Transfer) : Options :=
  match t.command with
  | .cpPush | .watch => ⟨1, t.sender.zstd, t.far.recvFips (t.near.fipsActive t.flags.fipsMode)⟩
  | .cpPull => ⟨1, t.sender.zstd, t.near.fipsActive t.flags.fipsMode⟩
  | .share => ⟨1, t.sender.zstd, t.far.fipsActive t.farFlags.fipsMode⟩
  | .syncPush => ⟨1, t.far.cfg.compress, t.far.syncRecvFips⟩
  | .syncPull => ⟨1, t.near.compress t.flags, t.near.fipsActive t.flags.fipsMode⟩

def format (t : Transfer) : Format :=
  match t.command with
  | .cpPush | .cpPull | .watch | .share => copyFormat
  | .syncPush | .syncPull => syncFormat

def awaitsResume (t : Transfer) : Bool :=
  match t.command with
  | .cpPush => t.flags.resume
  | .cpPull => true
  | .watch | .share | .syncPush | .syncPull => false

def staging (t : Transfer) : Staging :=
  match t.command with
  | .cpPush | .watch => ⟨true, none⟩
  | .cpPull => ⟨t.flags.resume, none⟩
  | .share => ⟨t.farFlags.resume, none⟩
  | .syncPush | .syncPull => unstaged

end Transfer

/-! ## Damage -/

def TransferError.isDamage : TransferError → Bool
  | .integrity _ | .notCompressed => true
  | _ => false

/-- **A file that is sent with some options and received with others is never found to be damaged**: no
run ends with such an error on either side. -/
def Undamaged (T : Tools) (fmt : Format) (o o' : Options) (resume : Bool) (g : Staging) (f : SourceFile)
    (disk : Disk) : Prop :=
  ∀ sides c, exec (Dialogue.step (sendFiles T fmt o resume) (receiveFiles T fmt o' g))
      (.start (.loop [f]) (.loop disk)) sides = some c →
    (∀ e, c.left.result (sendFiles T fmt o resume) = some (.error e) → e.isDamage = false) ∧
    ∀ e, c.right.result (receiveFiles T fmt o' g) = some (.error e) → e.isDamage = false

section

variable {T : Tools} {fmt : Format} {o : Options} {resume : Bool} {g : Staging} {f : SourceFile}
  {disk : Disk}

theorem undamaged_of_leads {d : Dialogue SendFiles ReceiveFiles Frame}
    (h : Leads (sendFiles T fmt o resume) (receiveFiles T fmt o g) (.start (.loop [f]) (.loop disk)) d)
    (hd : Final (Dialogue.step (sendFiles T fmt o resume) (receiveFiles T fmt o g)) d)
    (hleft : ∀ e, d.left.result (sendFiles T fmt o resume) = some (.error e) → e.isDamage = false)
    (hright : ∀ e, d.right.result (receiveFiles T fmt o g) = some (.error e) → e.isDamage = false) :
    Undamaged T fmt o o resume g f disk := by
  intro sides c hrun
  obtain ⟨rest, hrest⟩ := h.continues hd hrun
  exact ⟨fun e he => hleft e (Dialogue.result_left_of_exec hrest he),
    fun e he => hright e (Dialogue.result_right_of_exec hrest he)⟩

theorem leads_of_file {d : Dialogue SendFile ReceiveFile Frame}
    (h : Leads (sendFile T fmt o resume f) (receiveFile T fmt o g f.content.length f.name)
      ⟨⟨.begin resume, 1, []⟩, ⟨.start disk, 2, []⟩, [], []⟩ d) :
    Leads (sendFiles T fmt o resume) (receiveFiles T fmt o g) (.start (.loop [f]) (.loop disk))
      (d.map (.file f []) (.file f.content.length f.name)) := by
  refine trans (tauLeft rfl) (trans (transmitRight rfl rfl ?_)
    (map (runs_sendFile f []) (runs_receiveFile _ _) h))
  simp only [fmt.header_info]

theorem undamaged_of_dangerous (hname : dangerous f.name = true) :
    Undamaged T fmt o o resume g f disk := by
  have hstart : receiveFile T fmt o g f.content.length f.name (.start disk)
      = .tau (.returned disk (.error (.dangerousName f.name))) := if_pos hname
  cases resume with
  | true =>
    exact undamaged_of_leads ((leads_of_file (Leads.tauRight hstart)).trans (Leads.tauRight rfl))
      (fun side => by cases side <;> rfl) (fun e he => nomatch he) (by rintro e ⟨⟩; rfl)
  | false =>
    obtain ⟨payloads, hsend⟩ := leads_send (Nat.zero_le _)
    exact undamaged_of_leads
      ((leads_of_file (Leads.trans (Leads.tauRight hstart) hsend)).trans (Leads.tauRight rfl))
      (fun side => by cases side <;> rfl) (fun e he => nomatch he) (by rintro e ⟨⟩; rfl)

/-- **With the same options on both sides** a file is found to be damaged exactly if the receiver sends
RESUME and the sender takes it for the confirmation. -/
theorem undamaged_iff (hack : ∀ offset, fmt.ack ≠ .resume offset) :
    Undamaged T fmt o o resume g f disk ↔
      (dangerous f.name = false → g.usable disk f.content.length f.name = true → resume = true) := by
  cases hname : dangerous f.name with
  | true => exact iff_of_true (undamaged_of_dangerous hname) fun h => by cases h
  | false =>
    by_cases hagree : g.usable disk f.content.length f.name = resume
    · -- the file is received
      refine iff_of_true ?_ fun _ husable => hagree.symm.trans husable
      have hsafe : ∀ f' ∈ [f], dangerous f'.name = false := by simpa using hname
      exact undamaged_of_leads (leads_files hsafe ⟨hagree, trivial⟩)
        (fun side => by cases side <;> rfl) (fun e he => by cases he) (fun e he => by cases he)
    · cases resume with
      | true =>
        -- the sender waits for RESUME, and the receiver for data
        refine iff_of_true ?_ fun _ _ => rfl
        have hstart : receiveFile T fmt o g f.content.length f.name (.start disk)
            = .tau (.data (g.create disk f.content.length f.name) 0 []) := by
          simp [receiveFile, hname, hagree]
        exact undamaged_of_leads (leads_of_file (tauRight hstart))
          (fun side => by cases side <;> rfl) (fun e he => by cases he) (fun e he => by cases he)
      | false =>
        have husable := Bool.eq_true_of_not_eq_false hagree
        refine iff_of_false (fun h => ?_) fun h => Bool.false_ne_true (h rfl husable)
        obtain ⟨payloads, hsend⟩ := leads_send (Nat.zero_le _)
        have hreply : ∀ k, (if Frame.resume k = fmt.ack then Except.ok ()
            else Except.error (TransferError.integrity f.name)) = .error (.integrity f.name) :=
          fun k => if_neg fun heq => hack k heq.symm
        have hfile : Leads (sendFiles T fmt o false) (receiveFiles T fmt o g)
            (.start (.loop [f]) (.loop disk)) _ := leads_of_file ((sendRight (receiveFile_resume hname husable)).trans
          (hsend.trans (recvLeft rfl (congrArg _ (hreply _)))))
        obtain ⟨sides, hrun⟩ := hfile.trans (tauLeft rfl)
        exact absurd ((h sides _ hrun).1 _ rfl) (by simp [TransferError.isDamage])

end

namespace Transfer

/-- **Both sides use the same hash and the same compression, and the file is never found damaged.** -/
def Sound (T : Tools) (t : Transfer) : Prop :=
  t.sender = t.receiver ∧
    Undamaged T t.format t.sender t.receiver t.awaitsResume t.staging t.file t.disk

/-- The two hosts are configured alike, as far as the command depends on both: `recv` turns FIPS mode on
by itself; `_send` does not know it; `share` and `sync` do not pass it on, and `sync` not compression
either. -/
def Alike (t : Transfer) : Prop :=
  match t.command with
  | .cpPush | .watch => t.far.fipsActive false = true → t.near.fipsActive t.flags.fipsMode = true
  | .cpPull => t.near.fipsActive t.flags.fipsMode = false
  | .share => t.near.fipsActive t.flags.fipsMode = t.far.fipsActive t.farFlags.fipsMode
  | .syncPush | .syncPull =>
    t.near.compress t.flags = t.far.cfg.compress ∧
      t.near.fipsActive t.flags.fipsMode = t.far.fipsActive false

/-- A part of the file that the receiver would resume is found only if the sender waits for RESUME. -/
def ResumeAwaited (t : Transfer) : Prop :=
  dangerous t.file.name = false → t.staging.usable t.disk t.file.content.length t.file.name = true →
    t.awaitsResume = true

theorem sender_eq_receiver_iff (t : Transfer) : t.sender = t.receiver ↔ t.Alike := by
  obtain ⟨command, flags, near, far, farFlags, file, disk⟩ := t
  cases command <;> simp only [sender, receiver, Alike, Options.mk.injEq, true_and, Host.syncRecvFips_eq]
  case cpPush | watch =>
    rw [Host.recvFips_eq, far.fipsActive_eq (near.fipsActive flags.fipsMode)]
    cases near.fipsActive flags.fipsMode with
    | false | true => simp
  case cpPull => rw [eq_comm]
  case syncPull => rw [eq_comm, eq_comm (a := far.fipsActive false)]

/-- **When both sides of a transfer agree.** -/
theorem transfer_sound_iff (T : Tools) (t : Transfer) : t.Sound T ↔ t.Alike ∧ t.ResumeAwaited := by
  rw [← sender_eq_receiver_iff]
  refine and_congr_right fun heq => ?_
  rw [← heq]
  refine undamaged_iff fun offset => ?_
  unfold format
  cases t.command <;> exact Frame.noConfusion

end Transfer

def uncompressedRemote : Transfer :=
  ⟨.syncPush, ⟨false, false, false⟩, ⟨none, none⟩, ⟨some ⟨false, false⟩, none⟩, ⟨false, false, false⟩,
    ⟨[0x61], [1, 2]⟩, fun _ => none⟩

/-- **The server takes what it receives for the file itself**, and the hashes differ. -/
theorem uncompressed_remote_mismatch :
    uncompressedRemote.sender.zstd ≠ uncompressedRemote.receiver.zstd ∧
    ¬uncompressedRemote.Sound Tools.small ∧
    ∃ sides c, exec (Dialogue.step (sendFiles Tools.small syncFormat uncompressedRemote.sender false)
        (receiveFiles Tools.small syncFormat uncompressedRemote.receiver unstaged))
        (.start (.loop [⟨[0x61], [1, 2]⟩]) (.loop fun _ => none)) sides = some c ∧
      c.right.result (receiveFiles Tools.small syncFormat uncompressedRemote.receiver unstaged)
        = some (.error (.integrity [0x61])) := by
  refine ⟨by decide, fun h => ?_, ?_⟩
  · exact absurd (congrArg Options.zstd h.1) (by decide)
  · exact ⟨[.left, .left, .left, .left, .right, .right, .right, .right, .right], _, rfl, rfl⟩

end SeamProtocol
