import SeamProtocol.Files.Copy

/-! # The programs of `sync`

Both sides exchange manifests, and the files that differ are sent. The client always opens the control
stream, and the server always waits for it, whichever side is to speak first. -/

namespace SeamProtocol

open Lib

def buildManifest (T : Tools) (fips : Bool) (files : List SourceFile) : List ManifestEntry :=
  files.map fun f => ⟨f.name, f.content.length, T.hash fips f.content⟩

def indexManifest (entries : List ManifestEntry) (path : Name) : Option ManifestEntry :=
  entries.reverse.find? fun e => e.path = path

def toSend (T : Tools) (fips : Bool) (files : List SourceFile) (other : List ManifestEntry) :
    List SourceFile :=
  files.filter fun f =>
    match indexManifest other f.name with
    | none => true
    | some e => e.hash ≠ T.hash fips f.content

def toDelete (files : List SourceFile) (other : List ManifestEntry) : List Name :=
  (other.map ManifestEntry.path).filter fun path => files.all fun f => f.name ≠ path

structure SyncConfig where
  zstd : Bool
  fips : Bool
  deriving DecidableEq

def SyncConfig.options (cfg : SyncConfig) (sid : Nat) : Options := ⟨sid, cfg.zstd, cfg.fips⟩

def unstaged : Staging := ⟨false, none⟩

/-! ## Push -/

inductive SyncPush where
  | start
  | manifest (sid : Nat)
  | awaitManifest (sid : Nat)
  | files (sid : Nat) (remote : List ManifestEntry) (s : SendFiles)
  | deletes (sid : Nat) (rest : List Name)
  | returned (res : Except TransferError Unit)

def syncPush (T : Tools) (cfg : SyncConfig) (delete : Bool) (files : List SourceFile) :
    SyncPush → Act SyncPush Frame (Except TransferError Unit)
  | .start => .openStream .manifest
  | .manifest sid => .send sid (.syncManifest (buildManifest T cfg.fips files)) (.awaitManifest sid)
  | .awaitManifest sid => .recv sid fun
    | .syncManifest remote => .files sid remote (.loop (toSend T cfg.fips files remote))
    | _ => .returned (.error .expectedManifest)
  | .files sid remote s =>
    (sendFiles T syncFormat (cfg.options sid) false s).call (.files sid remote) fun
      | .ok () => .deletes sid (if delete then toDelete files remote else [])
      | .error e => .returned (.error e)
  | .deletes sid [] => .send sid .syncDone (.returned (.ok ()))
  | .deletes sid (path :: rest) => .send sid (.syncDelete path) (.deletes sid rest)
  | .returned res => .done res

inductive SyncRecvPush where
  | start
  | awaitManifest (sid : Nat)
  | manifest (sid : Nat)
  | files (sid : Nat) (s : ReceiveFiles)
  | deletes (sid : Nat) (disk : Disk)
  | returned (res : Except TransferError Disk)

def syncRecvPush (T : Tools) (cfg : SyncConfig) (delete : Bool) (dir : List SourceFile) :
    SyncRecvPush → Act SyncRecvPush Frame (Except TransferError Disk)
  | .start => .accept .awaitManifest
  | .awaitManifest sid => .recv sid fun
    | .syncManifest _ => .manifest sid
    | _ => .returned (.error .expectedManifest)
  | .manifest sid =>
    .send sid (.syncManifest (buildManifest T cfg.fips dir)) (.files sid (.loop (.ofFiles dir)))
  | .files sid s =>
    (receiveFiles T syncFormat (cfg.options sid) unstaged s).call (.files sid) fun
      | .ok disk => if delete then .deletes sid disk else .returned (.ok disk)
      | .error e => .returned (.error e)
  | .deletes sid disk => .recv sid fun
    | .syncDelete path => .deletes sid (if dangerous path then disk else disk.remove path)
    | .syncDone => .returned (.ok disk)
    | _ => .deletes sid disk
  | .returned res => .done res

/-! ## Pull -/

inductive SyncPull where
  | start
  | awaitManifest (sid : Nat)
  | manifest (sid : Nat) (remote : List ManifestEntry)
  | files (sid : Nat) (remote : List ManifestEntry) (s : ReceiveFiles)
  | returned (res : Except TransferError Disk)

/-- **`seam sync`** from a remote directory; with `--delete`, files that are not there are removed at
the end. -/
def syncPull (T : Tools) (cfg : SyncConfig) (delete : Bool) (dir : List SourceFile) :
    SyncPull → Act SyncPull Frame (Except TransferError Disk)
  | .start => .openStream .awaitManifest
  | .awaitManifest sid => .recv sid fun
    | .syncManifest remote => .manifest sid remote
    | _ => .returned (.error .expectedManifest)
  | .manifest sid remote =>
    .send sid (.syncManifest (buildManifest T cfg.fips dir)) (.files sid remote (.loop (.ofFiles dir)))
  | .files sid remote s =>
    (receiveFiles T syncFormat (cfg.options sid) unstaged s).call (.files sid remote) fun res =>
      .returned (res.map fun disk =>
        if delete then
          (dir.filter fun f => remote.all fun e => e.path ≠ f.name).foldl (·.remove ·.name) disk
        else disk)
  | .returned res => .done res

inductive SyncRecvPull where
  | start
  | manifest (sid : Nat)
  | awaitManifest (sid : Nat)
  | files (sid : Nat) (s : SendFiles)
  | returned (res : Except TransferError Unit)

def syncRecvPull (T : Tools) (cfg : SyncConfig) (files : List SourceFile) :
    SyncRecvPull → Act SyncRecvPull Frame (Except TransferError Unit)
  | .start => .accept .manifest
  | .manifest sid => .send sid (.syncManifest (buildManifest T cfg.fips files)) (.awaitManifest sid)
  | .awaitManifest sid => .recv sid fun
    | .syncManifest remote => .files sid (.loop (toSend T cfg.fips files remote))
    | _ => .returned (.error .expectedManifest)
  | .files sid s => (sendFiles T syncFormat (cfg.options sid) false s).call (.files sid) .returned
  | .returned res => .done res

end SeamProtocol
