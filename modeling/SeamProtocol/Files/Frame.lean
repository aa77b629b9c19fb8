import SeamProtocol.Lib.Bytes
import SeamProtocol.Lib.Dialogue

/-! # Frames of file transfers

The frames of `cp`, `share` and `sync`, the files on both sides, and what the transfers use of other
libraries. Frames are delivered as they are sent; their encoding in bytes is left out. Files do not
change while they are sent, and no access to a file fails. -/

namespace SeamProtocol

open Lib Function List

abbrev Name := Bytes

structure SourceFile where
  name : Name
  content : Bytes
  deriving DecidableEq

structure ManifestEntry where
  path : Name
  size : Nat
  hash : Bytes
  deriving DecidableEq

inductive Frame where
  | hello (zstd : Bool)
  | fileInfo (size : Nat) (name : Name)
  | data (payload : Bytes)
  | done
  | ack
  | resume (offset : Nat)
  | checksum (digest : Bytes)
  | bye
  | token (token : Bytes)
  | syncManifest (entries : List ManifestEntry)
  | syncFile (path : Name) (size : Nat)
  | syncFileData (payload : Bytes)
  | syncFileAck
  | syncDelete (path : Name)
  | syncDone
  | chunkInfo (index count offset size : Nat) (name : Name)
  deriving DecidableEq

inductive TransferError where
  | expectedAck
  | expectedHello
  | unexpectedFrame
  | dangerousName (name : Name)
  | expectedData
  | notCompressed
  | integrity (name : Name)
  | expectedChecksum
  | expectedToken
  | invalidToken
  | noDownloads
  | expectedManifest
  | expectedChunkInfo
  | noChunks
  | closed
  deriving DecidableEq

/-! ## Hashes and compression -/

structure Tools where
  hash : Bool → Bytes → Bytes
  length_hash : ∀ fips data, (hash fips data).length = 32
  encode : Bytes → Bytes
  decode : Bytes → Option Bytes
  decode_encode : ∀ data, decode (encode data) = some data

namespace Tools

def pack (T : Tools) (zstd : Bool) (raw : Bytes) : Bytes := if zstd then T.encode raw else raw

def unpack (T : Tools) (zstd : Bool) (payload : Bytes) : Option Bytes :=
  if zstd then T.decode payload else some payload

@[simp] theorem unpack_pack (T : Tools) (zstd : Bool) (raw : Bytes) :
    T.unpack zstd (T.pack zstd raw) = some raw := by
  unfold unpack pack
  split_ifs
  · exact T.decode_encode raw
  · rfl

/-- Tools that can be computed with: the hash of up to 31 bytes is their number and the bytes. -/
def small : Tools where
  hash _ data := (UInt8.ofNat (min data.length 255) :: data ++ List.replicate 32 0).take 32
  length_hash _ data := by
    rw [List.length_take, List.length_append, List.length_cons, List.length_replicate]
    omega
  encode data := 0x28 :: data
  decode
    | 0x28 :: data => some data
    | _ => none
  decode_encode _ := rfl

end Tools

/-! ## Files -/

abbrev Disk := Name → Option Bytes

namespace Disk

def put (disk : Disk) (name : Name) (content : Bytes) : Disk := Function.update disk name (some content)

def remove (disk : Disk) (name : Name) : Disk := Function.update disk name none

def size (disk : Disk) (name : Name) : Nat := ((disk name).getD []).length

def ofFiles (files : List SourceFile) : Disk := fun name =>
  (files.find? fun f => f.name = name).map SourceFile.content

variable (disk : Disk) {files : List SourceFile} {f : SourceFile} {name : Name}

@[simp] theorem put_self (name : Name) (content : Bytes) : disk.put name content name = some content :=
  update_self ..

variable {name' : Name}

theorem put_of_ne (content : Bytes) (h : name' ≠ name) :
    disk.put name content name' = disk name' := update_of_ne h ..

@[simp] theorem remove_self (name : Name) : disk.remove name name = none := update_self ..

theorem remove_of_ne (h : name' ≠ name) : disk.remove name name' = disk name' :=
  update_of_ne h ..

theorem ofFiles_of_mem (hnodup : (files.map SourceFile.name).Nodup) (hf : f ∈ files) :
    ofFiles files f.name = some f.content := by
  unfold ofFiles
  cases hfind : files.find? fun g => g.name = f.name with
  | none =>
    have hne := find?_eq_none.mp hfind f hf
    rw [decide_eq_true_eq] at hne
    exact absurd rfl hne
  | some g =>
    have hname := find?_some hfind
    rw [decide_eq_true_eq] at hname
    rw [inj_on_of_nodup_map hnodup (mem_of_find?_eq_some hfind) hf hname]
    rfl

theorem ofFiles_of_not_mem (h : ∀ f ∈ files, f.name ≠ name) : ofFiles files name = none := by
  unfold ofFiles
  rw [find?_eq_none.mpr fun f hf => by rw [decide_eq_true_eq]; exact h f hf]
  rfl

end Disk

/-- Names that are refused: with two dots in a row, or absolute. -/
def dangerous (name : Name) : Bool :=
  (name.tails.any fun rest => [0x2e, 0x2e].isPrefixOf rest) || name.head? = some 0x2f

def partialSuffix : Bytes := [0x2e, 0x73, 0x65, 0x61, 0x6d, 0x2d, 0x70, 0x61, 0x72, 0x74, 0x69, 0x61, 0x6c]

def partialPath (name : Name) (redundantPathIdx : Option Nat) : Name :=
  name ++ partialSuffix ++
    match redundantPathIdx with
    | none => []
    | some idx => [0x2e, 0x70] ++ (Nat.toDigits 10 idx).map fun c => UInt8.ofNat c.toNat

/-! ## Formats -/

structure Format where
  info : Nat → Name → Frame
  header : Frame → Option (Nat × Name)
  data : Bytes → Frame
  payload : Frame → Option Bytes
  ack : Frame
  last : Frame
  older : Bool
  header_info : ∀ size name, header (info size name) = some (size, name)
  payload_data : ∀ payload', payload (data payload') = some payload'
  header_last : header last = none

def copyFormat : Format where
  info := .fileInfo
  header
    | .fileInfo size name => some (size, name)
    | _ => none
  data := .data
  payload
    | .data payload => some payload
    | _ => none
  ack := .ack
  last := .done
  older := true
  header_info _ _ := rfl
  payload_data _ := rfl
  header_last := rfl

def syncFormat : Format where
  info size path := .syncFile path size
  header
    | .syncFile path size => some (size, path)
    | _ => none
  data := .syncFileData
  payload
    | .syncFileData payload => some payload
    | _ => none
  ack := .syncFileAck
  last := .syncDone
  older := false
  header_info _ _ := rfl
  payload_data _ := rfl
  header_last := rfl

end SeamProtocol
