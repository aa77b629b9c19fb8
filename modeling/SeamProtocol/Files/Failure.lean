import SeamProtocol.Files.Parallel
import SeamProtocol.Files.Sync

/-! # What a failed reception leaves

The receivers of `cp` without `--resume`, of `sync` and of parallel chunks empty the output file before
they have received anything. -/

namespace SeamProtocol

open Lib List ReceiveFile

/-- What has arrived before the connection is lost: the frames of a file, and whether the answer to the
checksum gets out; or the streams of the chunks, and how many answers do. -/
inductive FileTransfer where
  | file (fmt : Format) (o : Options) (size : Nat) (name : Name) (frames : List Frame) (ackSent : Bool)
  | parallel (zstd fips : Bool) (streams : List (List Frame)) (acksSent : Nat)

namespace ReceiveFile

variable (T : Tools) (fmt : Format) (o : Options) (size : Nat) (name : Name)

def begin (disk : Disk) : ReceiveFile :=
  match receiveFile T fmt o unstaged size name (.start disk) with
  | .tau s | .send _ _ s => s
  | _ => .start disk

def onFrame (s : ReceiveFile) (f : Frame) : ReceiveFile :=
  match receiveFile T fmt o unstaged size name s with
  | .recv _ k => k f
  | _ => s

def lost (ackSent : Bool) : ReceiveFile → Disk × Except TransferError Unit
  | .start disk | .data disk _ _ => (disk, .error .closed)
  | .ack disk => (disk, if ackSent then .ok () else .error .closed)
  | .returned disk res => (disk, res)

end ReceiveFile

def fileData (T : Tools) (fmt : Format) (zstd : Bool) (size : Nat) : Nat → List Frame → Bytes
  | _, [] => []
  | received, f :: frames =>
    if received < size then
      match (fmt.payload f).bind (T.unpack zstd) with
      | none => []
      | some raw => raw ++ fileData T fmt zstd size (received + raw.length) frames
    else []

/-- The file when the loop over the data of a chunk ends, in whatever way. -/
def chunkLeft (T : Tools) (zstd : Bool) (offset size : Nat) : Nat → Bytes → List Frame → Bytes
  | _, file, [] => file
  | received, file, f :: frames =>
    if received < size then
      match f with
      | .data payload =>
        match T.unpack zstd payload with
        | none => file
        | some raw =>
          chunkLeft T zstd offset size (received + raw.length) (writeAt file (offset + received) raw)
            frames
      | _ => file
    else file

def chunksLeft (T : Tools) (zstd fips : Bool) : Nat → Bytes → List ChunkStream →
    Bytes × Except TransferError Unit
  | _, file, [] => (file, .ok ())
  | acksSent, file, c :: chunks =>
    match receiveChunk T zstd fips file c, acksSent with
    | .error e, _ => (chunkLeft T zstd c.offset c.size 0 file c.frames, .error e)
    | .ok file, 0 => (file, .error .closed)
    | .ok file, n + 1 => chunksLeft T zstd fips n file chunks

/-- `receive_parallel`: the file that is opened, what is left in it, and the result. -/
def parallelLeft (T : Tools) (zstd fips : Bool) (streams : List (List Frame)) (acksSent : Nat) :
    Except TransferError (Name × Bytes × Except TransferError Unit) :=
  match streams.mapM readChunkInfo with
  | .error e => .error e
  | .ok [] => .error .noChunks
  | .ok (first :: rest) =>
    let totalSize := ((first :: rest).map fun c => c.offset + c.size).foldl max 0
    .ok (first.name, chunksLeft T zstd fips acksSent (replicate totalSize 0) (first :: rest))

namespace FileTransfer

def run (T : Tools) (disk : Disk) : FileTransfer → Disk × Except TransferError Unit
  | .file fmt o size name frames ackSent =>
    (frames.foldl (ReceiveFile.onFrame T fmt o size name) (.begin T fmt o size name disk)).lost ackSent
  | .parallel zstd fips streams acksSent =>
    match parallelLeft T zstd fips streams acksSent with
    | .error e => (disk, .error e)
    | .ok (name, content, res) => (disk.put name content, res)

def written (T : Tools) : FileTransfer → Option (Name × Bytes)
  | .file fmt o size name frames _ =>
    if dangerous name then none else some (name, fileData T fmt o.zstd size 0 frames)
  | .parallel zstd fips streams acksSent =>
    (parallelLeft T zstd fips streams acksSent).toOption.map fun w => (w.1, w.2.1)

end FileTransfer

variable {T : Tools} {fmt : Format} {o : Options} {size : Nat} {name : Name} {disk : Disk}

theorem lost_foldl_of_ended {s : ReceiveFile} (h : s = .ack disk ∨ ∃ res, s = .returned disk res)
    (ackSent : Bool) (frames : List Frame) :
    ((frames.foldl (onFrame T fmt o size name) s).lost ackSent).1 = disk := by
  obtain rfl | ⟨res, rfl⟩ := h <;> rw [foldl_fixed' (fun _ => rfl)] <;> rfl

theorem lost_foldl (ackSent : Bool) (frames : List Frame) (received : Nat) (hashed content : Bytes) :
    ((frames.foldl (onFrame T fmt o size name)
      (.data (disk.put name content) received hashed)).lost ackSent).1
      = disk.put name (content ++ fileData T fmt o.zstd size received frames) := by
  induction frames generalizing received hashed content with
  | nil => simp [fileData, lost]
  | cons f frames ih =>
    rw [foldl_cons, fileData]
    by_cases hlt : received < size
    · rw [if_pos hlt]
      cases hpayload : (fmt.payload f).bind (T.unpack o.zstd) with
      | none =>
        refine lost_foldl_of_ended (.inr ?_) ackSent frames
        cases hf : fmt.payload f with
        | none => simp [onFrame, receiveFile, hlt, hf]
        | some payload =>
          rw [hf, Option.bind_some] at hpayload
          simp [onFrame, receiveFile, hlt, hf, hpayload]
      | some raw =>
        obtain ⟨payload, hf, hraw⟩ := Option.bind_eq_some_iff.mp hpayload
        have hstep : (data (disk.put name content) received hashed).onFrame
            T fmt o size name f
              = .data (disk.put name (content ++ raw)) (received + raw.length) (hashed ++ raw) := by
          simp [onFrame, receiveFile, hlt, hf, hraw, Staging.write, Staging.writePath,
            unstaged, Disk.put]
        rw [hstep, ih, append_assoc]
    · refine lost_foldl_of_ended ?_ ackSent frames
      simp only [onFrame, receiveFile, if_neg hlt]
      split <;> split_ifs <;> simp [Staging.promote, Staging.rename, Staging.discard, unstaged]

open FileTransfer

theorem run_fst (r : FileTransfer) :
    (r.run T disk).1 = (r.written T).elim disk fun w => disk.put w.1 w.2 := by
  cases r with
  | file fmt o size name frames ackSent =>
    by_cases hname : dangerous name
    · have hbegin : begin T fmt o size name disk
          = .returned disk (.error (.dangerousName name)) := by
        simp [begin, receiveFile, hname]
      simp [run, hbegin, lost_foldl_of_ended (.inr ⟨_, rfl⟩), written, hname]
    · have hbegin : begin T fmt o size name disk = .data (disk.put name []) 0 [] := by
        simp [begin, receiveFile, hname, Staging.usable, Staging.create, Staging.discard,
          Staging.writePath, unstaged]
      simp [run, written, hname, hbegin, lost_foldl]
  | parallel zstd fips streams acksSent =>
    simp only [run, written]
    cases parallelLeft T zstd fips streams acksSent <;> rfl

end SeamProtocol
