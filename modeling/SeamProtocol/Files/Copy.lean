import SeamProtocol.Files.Frame

/-! # The programs of `cp` and `share`

Each function that waits for frames is a program of its own, with a state for every place where it sends
or waits; functions call each other with `Act.call`. -/

namespace SeamProtocol

open Lib

def chunkSize : Nat := 32 * 1024

structure Options where
  sid : Nat
  zstd : Bool
  fips : Bool

/-! ## Sending -/

inductive SendFile where
  | info
  | awaitResume
  /-- In the loop, after `sent` bytes; those of this transfer are hashed. -/
  | data (sent : Nat) (hashed : Bytes)
  | awaitReply
  | returned (res : Except TransferError Unit)

/-- **`send_file`**, and with the frames of `sync` and without `resume` also `send_sync_file`. -/
def sendFile (T : Tools) (fmt : Format) (o : Options) (resume : Bool) (f : SourceFile) :
    SendFile → Act SendFile Frame (Except TransferError Unit)
  | .info =>
    .send o.sid (fmt.info f.content.length f.name) (if resume then .awaitResume else .data 0 [])
  | .awaitResume => .recv o.sid fun
    | .resume offset => .data (if 0 < offset ∧ offset < f.content.length then offset else 0) []
    -- any other frame is taken for one that tells to start at the beginning
    | _ => .data 0 []
  | .data sent hashed =>
    let raw := (f.content.drop sent).take chunkSize
    if sent < f.content.length ∧ raw ≠ [] then
      .send o.sid (fmt.data (T.pack o.zstd raw)) (.data (sent + raw.length) (hashed ++ raw))
    else .send o.sid (.checksum (T.hash o.fips hashed)) .awaitReply
  | .awaitReply => .recv o.sid fun reply =>
    .returned (if reply = fmt.ack then .ok () else .error (.integrity f.name))
  | .returned res => .done res

inductive SendFiles where
  | loop (rest : List SourceFile)
  | file (f : SourceFile) (rest : List SourceFile) (s : SendFile)
  | returned (res : Except TransferError Unit)

def sendFiles (T : Tools) (fmt : Format) (o : Options) (resume : Bool) :
    SendFiles → Act SendFiles Frame (Except TransferError Unit)
  | .loop [] => .send o.sid fmt.last (.returned (.ok ()))
  | .loop (f :: rest) => .tau (.file f rest .info)
  | .file f rest s => (sendFile T fmt o resume f s).call (.file f rest) fun
    | .ok () => .loop rest
    | .error e => .returned (.error e)
  | .returned res => .done res

inductive PushFiles where
  | hello
  | awaitAck
  | files (s : SendFiles)
  | returned (res : Except TransferError Unit)

def pushFiles (T : Tools) (o : Options) (resume : Bool) (files : List SourceFile) :
    PushFiles → Act PushFiles Frame (Except TransferError Unit)
  | .hello => .send o.sid (.hello o.zstd) .awaitAck
  | .awaitAck => .recv o.sid fun
    | .ack => .files (.loop files)
    | _ => .returned (.error .expectedAck)
  | .files s => (sendFiles T copyFormat o resume s).call .files .returned
  | .returned res => .done res

/-! ## Receiving -/

/-- How files are received: `recv` always looks for a partial file, `cp` only with `--resume`, and `sync`
never. -/
structure Staging where
  /-- Files are staged in a partial file, and partial files are resumed. -/
  resume : Bool
  /-- The number of this path, if several paths deliver the same files. -/
  redundantPathIdx : Option Nat

def Staging.partialPath (g : Staging) (name : Name) : Name :=
  SeamProtocol.partialPath name g.redundantPathIdx

def Staging.usable (g : Staging) (disk : Disk) (size : Nat) (name : Name) : Bool :=
  g.resume && decide (0 < disk.size (g.partialPath name) ∧ disk.size (g.partialPath name) < size)

def Staging.writePath (g : Staging) (name : Name) : Name :=
  if g.resume then g.partialPath name else name

def Staging.discard (g : Staging) (disk : Disk) (name : Name) : Disk :=
  if g.resume then disk.remove (g.partialPath name) else disk

def Staging.create (g : Staging) (disk : Disk) (size : Nat) (name : Name) : Disk :=
  if g.usable disk size name then disk else (g.discard disk name).put (g.writePath name) []

def Staging.write (g : Staging) (disk : Disk) (name : Name) (raw : Bytes) : Disk :=
  disk.put (g.writePath name) ((disk (g.writePath name)).getD [] ++ raw)

def Staging.rename (g : Staging) (disk : Disk) (name : Name) : Disk :=
  if g.resume then
    match disk (g.partialPath name) with
    | none => disk
    | some file => (disk.remove (g.partialPath name)).put name file
  else disk

/-- The file is complete and correct, unless another path was faster. -/
def Staging.promote (g : Staging) (disk : Disk) (name : Name) : Disk :=
  if g.redundantPathIdx.isSome && (disk name).isSome then disk.remove (g.partialPath name)
  else g.rename disk name

inductive ReceiveFile where
  | start (disk : Disk)
  /-- In the loop, after `received` bytes; those of this transfer are hashed. -/
  | data (disk : Disk) (received : Nat) (hashed : Bytes)
  | ack (disk : Disk)
  | returned (disk : Disk) (res : Except TransferError Unit)

/-- **`receive_file`** of `recv` and `cp`, and with the frames of `sync` and without `resume` also
`recv_sync_file`. -/
def receiveFile (T : Tools) (fmt : Format) (o : Options) (g : Staging) (size : Nat) (name : Name) :
    ReceiveFile → Act ReceiveFile Frame (Disk × Except TransferError Unit)
  | .start disk =>
    if dangerous name then .tau (.returned disk (.error (.dangerousName name)))
    else if g.usable disk size name then
      .send o.sid (.resume (disk.size (g.partialPath name)))
        (.data (g.create disk size name) (disk.size (g.partialPath name)) [])
    else .tau (.data (g.create disk size name) 0 [])
  | .data disk received hashed => .recv o.sid fun frame =>
    if received < size then
      match fmt.payload frame with
      | none => .returned disk (.error .expectedData)
      | some payload =>
        match T.unpack o.zstd payload with
        | none => .returned disk (.error .notCompressed)
        | some raw => .data (g.write disk name raw) (received + raw.length) (hashed ++ raw)
    else
      match frame with
      | .checksum digest =>
        if digest.length = 32 then
          if T.hash o.fips hashed = digest then .ack (g.promote disk name)
          else .returned (g.discard disk name) (.error (.integrity name))
        else if fmt.older then .returned (g.rename disk name) (.ok ())
        else .returned disk (.error .expectedChecksum)
      -- whatever it is, the frame is taken for one of a sender without checksums
      | _ =>
        if fmt.older then .returned (g.rename disk name) (.ok ())
        else .returned disk (.error .expectedChecksum)
  | .ack disk => .send o.sid fmt.ack (.returned disk (.ok ()))
  | .returned disk res => .done (disk, res)

inductive ReceiveFiles where
  | loop (disk : Disk)
  | file (size : Nat) (name : Name) (s : ReceiveFile)
  | returned (res : Except TransferError Disk)

def receiveFiles (T : Tools) (fmt : Format) (o : Options) (g : Staging) :
    ReceiveFiles → Act ReceiveFiles Frame (Except TransferError Disk)
  | .loop disk => .recv o.sid fun frame =>
    match fmt.header frame with
    | some (size, name) => .file size name (.start disk)
    | none => .returned (if frame = fmt.last then .ok disk else .error .unexpectedFrame)
  | .file size name s => (receiveFile T fmt o g size name s).call (.file size name) fun
    | (disk, .ok ()) => .loop disk
    | (_, .error e) => .returned (.error e)
  | .returned res => .done res

inductive ReceiveRound where
  | awaitHello
  | ack (zstd : Bool)
  | files (zstd : Bool) (s : ReceiveFiles)
  | returned (res : Except TransferError Disk)

/-- **`receive_round`** with the HELLO before it, and the same in `cp`; only `recv` knows BYE. -/
def receiveRound (T : Tools) (sid : Nat) (fips bye : Bool) (g : Staging) (disk : Disk) :
    ReceiveRound → Act ReceiveRound Frame (Except TransferError Disk)
  | .awaitHello => .recv sid fun
    | .hello zstd => .ack zstd
    | .bye => .returned (if bye then .ok disk else .error .expectedHello)
    | _ => .returned (.error .expectedHello)
  | .ack zstd => .send sid .ack (.files zstd (.loop disk))
  | .files zstd s => (receiveFiles T copyFormat ⟨sid, zstd, fips⟩ g s).call (.files zstd) .returned
  | .returned res => .done res

/-! ## Commands -/

inductive CopyPush where
  | start
  | stream (sid : Nat)
  | push (sid : Nat) (s : PushFiles)
  | returned (res : Except TransferError Unit)

/-- **`seam cp`** to a remote destination: it speaks first, and opens the control stream. -/
def copyPush (T : Tools) (zstd resume fips : Bool) (token : Option Bytes) (files : List SourceFile) :
    CopyPush → Act CopyPush Frame (Except TransferError Unit)
  | .start => .openStream .stream
  | .stream sid =>
    match token with
    | none => .tau (.push sid .hello)
    | some t => .send sid (.token t) (.push sid .hello)
  | .push sid s => (pushFiles T ⟨sid, zstd, fips⟩ resume files s).call (.push sid) .returned
  | .returned res => .done res

inductive CopyPull where
  | start
  | stream (sid : Nat)
  | pull (sid : Nat) (s : ReceiveRound)
  | returned (res : Except TransferError Disk)

/-- **`seam cp`** from a remote source: it opens the control stream only if it has a token to send. -/
def copyPull (T : Tools) (resume fips : Bool) (token : Option Bytes) (disk : Disk) :
    CopyPull → Act CopyPull Frame (Except TransferError Disk)
  | .start => if token.isNone then .accept .stream else .openStream .stream
  | .stream sid =>
    match token with
    | none => .tau (.pull sid .awaitHello)
    | some t => .send sid (.token t) (.pull sid .awaitHello)
  | .pull sid s =>
    (receiveRound T sid fips false ⟨resume, none⟩ disk s).call (.pull sid) .returned
  | .returned res => .done res

inductive RecvRun where
  | start
  | round (sid : Nat) (s : ReceiveRound)
  | returned (res : Except TransferError Disk)

/-- **`seam recv --once`**: `serve_connection` with one round. -/
def recvRun (T : Tools) (fips : Bool) (redundantPathIdx : Option Nat) (disk : Disk) :
    RecvRun → Act RecvRun Frame (Except TransferError Disk)
  | .start => .accept fun sid => .round sid .awaitHello
  | .round sid s =>
    (receiveRound T sid fips true ⟨true, redundantPathIdx⟩ disk s).call (.round sid) .returned
  | .returned res => .done res

inductive SendRun where
  | start
  | push (sid : Nat) (s : PushFiles)
  | returned (res : Except TransferError Unit)

/-- **`seam _send`**: it waits for RESUME after every file name, and hashes with BLAKE3. -/
def sendRun (T : Tools) (zstd : Bool) (files : List SourceFile) :
    SendRun → Act SendRun Frame (Except TransferError Unit)
  | .start => .openStream fun sid => .push sid .hello
  | .push sid s => (pushFiles T ⟨sid, zstd, false⟩ true files s).call (.push sid) .returned
  | .returned res => .done res

inductive ShareConn where
  | start
  | awaitToken (sid : Nat)
  | push (sid : Nat) (s : PushFiles)
  | returned (res : Except TransferError Unit)

/-- **`handle_share_conn`**: the files are sent to who knows the token, while downloads remain. -/
def handleShareConn (T : Tools) (zstd fips : Bool) (expected : Bytes) (remaining : Nat)
    (files : List SourceFile) : ShareConn → Act ShareConn Frame (Except TransferError Unit)
  | .start => .accept .awaitToken
  | .awaitToken sid => .recv sid fun
    | .token provided =>
      if provided ≠ expected then .returned (.error .invalidToken)
      else if remaining = 0 then .returned (.error .noDownloads)
      else .push sid .hello
    | _ => .returned (.error .expectedToken)
  | .push sid s => (pushFiles T ⟨sid, zstd, fips⟩ false files s).call (.push sid) .returned
  | .returned res => .done res

end SeamProtocol
