import SeamProtocol.Files.Exchange

/-! # A file in parallel chunks

`cp --parallel n` sends `n` chunks on streams of their own; `recv` writes them to a file that it has
made as long as the largest end of a chunk. The length of a chunk is rounded up, so that the last ones
can be empty and start behind the end of the file. -/

namespace SeamProtocol

open Lib List

/-! ## Sending -/

def chunkCount (n : Nat) : Nat := max 1 (min n 8)

def chunkLength (size n : Nat) : Nat := (size + n - 1) / n

/-- The loop over a chunk and its digest: `sent` of `thisChunk` bytes from `offset` on have been sent. -/
def sendChunkData (T : Tools) (zstd fips : Bool) (content : Bytes) (offset thisChunk sent : Nat)
    (hashed : Bytes) : List Frame :=
  let raw := (content.drop (offset + sent)).take (min (thisChunk - sent) chunkSize)
  if sent < thisChunk ∧ raw ≠ [] then
    .data (T.pack zstd raw)
      :: sendChunkData T zstd fips content offset thisChunk (sent + raw.length) (hashed ++ raw)
  else [.checksum (T.hash fips hashed)]
termination_by thisChunk - sent
decreasing_by
  rename_i h
  exact Nat.sub_lt_sub_left h.1 (Nat.lt_add_of_pos_right (List.length_pos_of_ne_nil h.2))

def sendChunk (T : Tools) (zstd fips : Bool) (name : Name) (content : Bytes) (n i : Nat) : List Frame :=
  let offset := i * chunkLength content.length n
  let thisChunk := min (chunkLength content.length n) (content.length - offset)
  .chunkInfo i n offset thisChunk name :: sendChunkData T zstd fips content offset thisChunk 0 []

def sendFileParallel (T : Tools) (zstd fips : Bool) (name : Name) (content : Bytes) (n : Nat) :
    List (List Frame) :=
  (List.range (chunkCount n)).map (sendChunk T zstd fips name content (chunkCount n))

/-! ## Receiving -/

def writeAt (file : Bytes) (offset : Nat) (raw : Bytes) : Bytes :=
  if raw = [] then file
  else (file ++ List.replicate (offset - file.length) 0).take offset ++ raw
    ++ file.drop (offset + raw.length)

structure ChunkStream where
  offset : Nat
  size : Nat
  name : Name
  frames : List Frame

def readChunkInfo : List Frame → Except TransferError ChunkStream
  | [] => .error .closed
  | .chunkInfo _ _ offset size name :: frames =>
    if dangerous name then .error (.dangerousName name) else .ok ⟨offset, size, name, frames⟩
  | _ :: _ => .error .expectedChunkInfo

def receiveChunkData (T : Tools) (zstd : Bool) (offset size : Nat) :
    Nat → Bytes → Bytes → List Frame → Except TransferError (Bytes × Bytes × List Frame)
  | received, file, hashed, [] => if received < size then .error .closed else .ok (file, hashed, [])
  | received, file, hashed, f :: frames =>
    if received < size then
      match f with
      | .data payload =>
        match T.unpack zstd payload with
        | none => .error .notCompressed
        | some raw =>
          receiveChunkData T zstd offset size (received + raw.length)
            (writeAt file (offset + received) raw) (hashed ++ raw) frames
      | _ => .error .expectedData
    else .ok (file, hashed, f :: frames)

def receiveChunk (T : Tools) (zstd fips : Bool) (file : Bytes) (c : ChunkStream) :
    Except TransferError Bytes :=
  match receiveChunkData T zstd c.offset c.size 0 file [] c.frames with
  | .error e => .error e
  | .ok (_, _, []) => .error .closed
  | .ok (file, hashed, .checksum digest :: _) =>
    if digest.length = 32 then
      if T.hash fips hashed = digest then .ok file else .error (.integrity c.name)
    else .error .expectedChecksum
  | .ok (_, _, _ :: _) => .error .expectedChecksum

def receiveParallel (T : Tools) (zstd fips : Bool) (streams : List (List Frame)) :
    Except TransferError (Name × Bytes) := do
  let chunks ← streams.mapM readChunkInfo
  match chunks with
  | [] => .error .noChunks
  | first :: _ =>
    let totalSize := (chunks.map fun c => c.offset + c.size).foldl max 0
    let file ← chunks.foldlM (receiveChunk T zstd fips) (List.replicate totalSize 0)
    .ok (first.name, file)

/-! ## Files -/

variable {file raw : Bytes} {offset : Nat}

theorem writeAt_of_le (h : offset + raw.length ≤ file.length) :
    writeAt file offset raw = file.take offset ++ raw ++ file.drop (offset + raw.length) := by
  unfold writeAt
  split_ifs with hraw
  · subst hraw
    simp
  · rw [Nat.sub_eq_zero_of_le (by omega), replicate_zero, append_nil]

@[simp] theorem writeAt_nil (file : Bytes) (offset : Nat) : writeAt file offset [] = file := if_pos rfl

theorem writeAt_writeAt {raw' : Bytes} (h : offset + (raw ++ raw').length ≤ file.length) :
    writeAt (writeAt file offset raw) (offset + raw.length) raw' = writeAt file offset (raw ++ raw') := by
  rw [length_append] at h
  have hpre : (file.take offset ++ raw).length = offset + raw.length := by
    rw [length_append, length_take, Nat.min_eq_left (by omega)]
  have hfirst : writeAt file offset raw = file.take offset ++ raw ++ file.drop (offset + raw.length) :=
    writeAt_of_le (by omega)
  have hlen : (writeAt file offset raw).length = file.length := by
    rw [hfirst, length_append, hpre, length_drop]
    omega
  have hboth : writeAt file offset (raw ++ raw') = file.take offset ++ (raw ++ raw')
      ++ file.drop (offset + (raw ++ raw').length) :=
    writeAt_of_le (by rw [length_append]; omega)
  rw [writeAt_of_le (by rw [hlen]; omega), hboth, hfirst, take_left' hpre, ← drop_drop,
    drop_left' hpre, drop_drop, length_append, append_assoc _ raw, Nat.add_assoc]

/-! ## One chunk -/

section

variable {T : Tools} {zstd fips : Bool} {content : Bytes}

def chunkBytes (content : Bytes) (offset thisChunk : Nat) : Bytes := (content.drop offset).take thisChunk

variable {offset thisChunk : Nat} {file : Bytes}

theorem receiveChunkData_sendChunkData {sent : Nat} {hashed : Bytes}
    (hchunk : thisChunk ≤ content.length - offset) (hsent : sent ≤ thisChunk)
    (hfile : offset + thisChunk ≤ file.length) :
    receiveChunkData T zstd offset thisChunk sent file hashed
        (sendChunkData T zstd fips content offset thisChunk sent hashed)
      = .ok (writeAt file (offset + sent) ((chunkBytes content offset thisChunk).drop sent),
          hashed ++ (chunkBytes content offset thisChunk).drop sent,
          [.checksum (T.hash fips (hashed ++ (chunkBytes content offset thisChunk).drop sent))]) := by
  -- on the number of bytes that are left
  induction hleft : thisChunk - sent using Nat.strong_induction_on
    generalizing sent file hashed with
  | _ left ih =>
    obtain ⟨raw, hraw⟩ : ∃ raw, (content.drop (offset + sent)).take (min (thisChunk - sent) chunkSize)
      = raw := ⟨_, rfl⟩
    have hlen : raw.length = min (thisChunk - sent) chunkSize := by
      rw [← hraw, length_take, length_drop]
      omega
    have hbytes : ((chunkBytes content offset thisChunk).drop sent).take chunkSize = raw := by
      rw [← hraw, chunkBytes, drop_take, drop_drop, take_take, Nat.min_comm]
    unfold sendChunkData
    simp only [hraw]
    by_cases hlt : sent < thisChunk
    · have hpos : 0 < raw.length := by
        rw [hlen, chunkSize]
        omega
      have hsplit := drop_eq_chunk_append (chunkBytes content offset thisChunk) sent
      rw [hbytes] at hsplit
      have hbound : (chunkBytes content offset thisChunk).length = thisChunk := by
        rw [chunkBytes, length_take, length_drop]
        omega
      rw [if_pos ⟨hlt, ne_nil_of_length_pos hpos⟩]
      simp only [receiveChunkData, if_pos hlt, T.unpack_pack]
      have hwritten : (writeAt file (offset + sent) raw).length = file.length := by
        rw [writeAt_of_le (by omega), length_append, length_append, length_take,
          length_drop]
        omega
      rw [ih _ (by omega) (by omega) (by omega) rfl, ← Nat.add_assoc, append_assoc, ← hsplit,
        writeAt_writeAt, ← hsplit]
      rw [← hsplit, length_drop, hbound]
      omega
    · have heq : sent = thisChunk := by omega
      have hnil : (chunkBytes content offset thisChunk).drop sent = [] := by
        rw [heq]
        exact drop_eq_nil_of_le (length_take_le _ _)
      rw [if_neg fun h => hlt h.1, hnil, append_nil, writeAt_nil]
      simp only [receiveChunkData, if_neg hlt]

theorem receiveChunk_sendChunkData {name : Name} (hchunk : thisChunk ≤ content.length - offset)
    (hfile : offset + thisChunk ≤ file.length) :
    receiveChunk T zstd fips file
        ⟨offset, thisChunk, name, sendChunkData T zstd fips content offset thisChunk 0 []⟩
      = .ok (writeAt file offset (chunkBytes content offset thisChunk)) := by
  simp [receiveChunk, receiveChunkData_sendChunkData hchunk (Nat.zero_le _) hfile, T.length_hash]

end

/-! ## All chunks -/

theorem le_mul_chunkLength (size : Nat) {n : Nat} (hn : 0 < n) : size ≤ n * chunkLength size n := by
  have hdiv := Nat.div_add_mod (size + n - 1) n
  have hmod := Nat.mod_lt (size + n - 1) hn
  rw [chunkLength]
  omega

/-- **The length of the file that is written**: the last chunk counts even if it starts behind the end. -/
theorem foldl_max_ends (size len k : Nat) :
    ((range (k + 1)).map fun i => i * len + min len (size - i * len)).foldl max 0
      = max (min size ((k + 1) * len)) (k * len) := by
  induction k with
  | zero =>
    simp only [Nat.zero_add, range_one, map_cons, map_nil, foldl_cons,
      foldl_nil, Nat.zero_mul, Nat.one_mul, Nat.sub_zero]
    omega
  | succ k ih =>
    rw [range_succ, map_append, foldl_append, ih]
    simp only [map_cons, map_nil, foldl_cons, foldl_nil, Nat.add_mul, Nat.one_mul]
    omega

section

variable (T : Tools) (zstd fips : Bool) (name : Name) (content : Bytes) (n : Nat)

def chunkStream (i : Nat) : ChunkStream :=
  let offset := i * chunkLength content.length n
  let thisChunk := min (chunkLength content.length n) (content.length - offset)
  ⟨offset, thisChunk, name, sendChunkData T zstd fips content offset thisChunk 0 []⟩

theorem mapM_readChunkInfo (hsafe : dangerous name = false) (is : List Nat) :
    (is.map (sendChunk T zstd fips name content n)).mapM readChunkInfo
      = .ok (is.map (chunkStream T zstd fips name content n)) := by
  induction is with
  | nil => rfl
  | cons i is ih =>
    have hinfo : readChunkInfo (sendChunk T zstd fips name content n i)
        = .ok (chunkStream T zstd fips name content n i) := by
      simp only [sendChunk, readChunkInfo, hsafe, Bool.false_eq_true, if_false]
      rfl
    rw [map_cons, mapM_cons, hinfo, ih]
    rfl

variable {content n}

def filled (content : Bytes) (totalSize offset : Nat) : Bytes :=
  content.take offset ++ List.replicate (totalSize - min offset content.length) 0

variable {totalSize : Nat}

theorem writeAt_filled {len offset : Nat} (htotal : content.length ≤ totalSize) :
    writeAt (filled content totalSize offset) offset
        (chunkBytes content offset (min len (content.length - offset)))
      = filled content totalSize (offset + len) := by
  have hbytes : chunkBytes content offset (min len (content.length - offset))
      = (content.drop offset).take len := by
    simp [chunkBytes]
  rw [hbytes]
  by_cases hoff : offset ≤ content.length
  · have htake : (content.take offset).length = offset := length_take_of_le hoff
    have hlen : ((content.drop offset).take len).length = min len (content.length - offset) := by
      simp
    have hfile : (filled content totalSize offset).length = totalSize := by
      rw [filled, length_append, htake, length_replicate]
      omega
    rw [writeAt_of_le (by rw [hfile, hlen]; omega), filled, take_left' htake, ← drop_drop,
      drop_left' htake, drop_replicate, ← take_add, filled, hlen]
    congr 2
    omega
  · -- nothing is written, the file has been complete before
    rw [drop_eq_nil_of_le (by omega), take_nil, writeAt_nil, filled, filled,
      take_of_length_le (by omega), take_of_length_le (by omega)]
    congr 2
    omega

theorem foldlM_receiveChunk {k : Nat} (htotal : content.length ≤ totalSize)
    (hk : (k - 1) * chunkLength content.length n ≤ totalSize) :
    ((range k).map (chunkStream T zstd fips name content n)).foldlM (receiveChunk T zstd fips)
        (replicate totalSize 0)
      = .ok (filled content totalSize (k * chunkLength content.length n)) := by
  induction k with
  | zero =>
    rw [Nat.zero_mul, filled, take_zero, Nat.zero_min, Nat.sub_zero]
    rfl
  | succ k ih =>
    rw [Nat.add_sub_cancel] at hk
    have hprev : (k - 1) * chunkLength content.length n ≤ totalSize :=
      (Nat.mul_le_mul_right _ (Nat.sub_le k 1)).trans hk
    have hfile : (filled content totalSize (k * chunkLength content.length n)).length = totalSize := by
      rw [filled, length_append, length_take, length_replicate]
      omega
    rw [range_succ, map_append, foldlM_append, ih hprev]
    have hchunk : receiveChunk T zstd fips
        (filled content totalSize (k * chunkLength content.length n))
        (chunkStream T zstd fips name content n k)
          = .ok (writeAt (filled content totalSize (k * chunkLength content.length n))
            (k * chunkLength content.length n) (chunkBytes content (k * chunkLength content.length n)
              (min (chunkLength content.length n)
                (content.length - k * chunkLength content.length n)))) :=
      receiveChunk_sendChunkData (Nat.min_le_right ..) (by rw [hfile]; omega)
    rw [writeAt_filled htotal] at hchunk
    simp only [map_cons, map_nil, foldlM_cons, foldlM_nil, bind, Except.bind, hchunk]
    rw [Nat.add_mul, Nat.one_mul]
    rfl

end

/-- **The file that is written** is the one sent, with zeros up to the offset of the last chunk. -/
theorem receiveParallel_sendFileParallel (T : Tools) (zstd fips : Bool) {name : Name} (content : Bytes)
    (n : Nat) (hsafe : dangerous name = false) :
    receiveParallel T zstd fips (sendFileParallel T zstd fips name content n)
      = .ok (name, content ++ replicate
          ((chunkCount n - 1) * chunkLength content.length (chunkCount n) - content.length) 0) := by
  obtain ⟨k, hk⟩ : ∃ k, chunkCount n = k + 1 := ⟨chunkCount n - 1, by unfold chunkCount; omega⟩
  have hcover := le_mul_chunkLength content.length (show 0 < k + 1 from Nat.succ_pos k)
  rw [sendFileParallel, hk, Nat.add_sub_cancel]
  obtain ⟨len, hlen⟩ : ∃ len, chunkLength content.length (k + 1) = len := ⟨_, rfl⟩
  rw [hlen] at hcover ⊢
  obtain ⟨chunks, hchunks⟩ : ∃ chunks, (range (k + 1)).map
    (chunkStream T zstd fips name content (k + 1)) = chunks := ⟨_, rfl⟩
  have htotal : (chunks.map fun c => c.offset + c.size).foldl max 0 = max content.length (k * len) := by
    rw [← hchunks, map_map, ← Nat.min_eq_left hcover, ← foldl_max_ends, ← hlen]
    rfl
  have hfold : chunks.foldlM (receiveChunk T zstd fips)
      (replicate (max content.length (k * len)) 0)
        = .ok (filled content (max content.length (k * len)) ((k + 1) * len)) := by
    rw [← hchunks, ← hlen]
    exact foldlM_receiveChunk T zstd fips name (Nat.le_max_left _ _)
      (by rw [Nat.add_sub_cancel]; exact Nat.le_max_right _ _)
  have hfilled : filled content (max content.length (k * len)) ((k + 1) * len)
      = content ++ replicate (k * len - content.length) 0 := by
    rw [filled, take_of_length_le hcover]
    congr 2
    omega
  have hread := mapM_readChunkInfo T zstd fips name content (k + 1) hsafe (range (k + 1))
  rw [hchunks] at hread
  have hfirst : ∃ rest, chunks = chunkStream T zstd fips name content (k + 1) 0 :: rest := by
    rw [← hchunks, range_succ_eq_map, map_cons]
    exact ⟨_, rfl⟩
  obtain ⟨rest, hfirst⟩ := hfirst
  simp only [receiveParallel, hread, bind, Except.bind]
  rw [hfilled] at hfold
  rw [hfirst] at htotal hfold ⊢
  simp only [htotal, hfold]
  rfl

/-- **A file arrives as it was sent** exactly if its name is not refused and the last chunk does not
start behind its end. -/
theorem parallel_iff (T : Tools) (zstd fips : Bool) (name : Name) (content : Bytes) (n : Nat) :
    receiveParallel T zstd fips (sendFileParallel T zstd fips name content n) = .ok (name, content)
      ↔ dangerous name = false
        ∧ (chunkCount n - 1) * chunkLength content.length (chunkCount n) ≤ content.length := by
  cases hsafe : dangerous name with
  | false =>
    rw [receiveParallel_sendFileParallel T zstd fips content n hsafe, and_iff_right rfl,
      ← Nat.sub_eq_zero_iff_le]
    constructor
    · intro h
      injection h with h
      have hlen := congrArg (List.length ∘ Prod.snd) h
      simp only [Function.comp_apply, length_append, length_replicate] at hlen
      omega
    · intro h
      simp [h]
  | true =>
    refine iff_of_false (fun h => ?_) (fun h => nomatch h.1)
    obtain ⟨k, hk⟩ : ∃ k, chunkCount n = k + 1 := ⟨chunkCount n - 1, by unfold chunkCount; omega⟩
    rw [sendFileParallel, hk, range_succ_eq_map, map_cons] at h
    simp only [receiveParallel, mapM_cons, sendChunk, readChunkInfo, hsafe, if_true, bind,
      Except.bind] at h
    cases h

/-- **Five bytes in four chunks** of two bytes each: the last one starts at offset 6, and the file gets
six bytes. -/
theorem five_bytes_in_four_chunks :
    receiveParallel Tools.small false false
        (sendFileParallel Tools.small false false [0x61] [1, 2, 3, 4, 5] 4)
      = .ok ([0x61], [1, 2, 3, 4, 5, 0]) ∧
    receiveParallel Tools.small false false
        (sendFileParallel Tools.small false false [0x61] [1, 2, 3, 4, 5] 4)
      ≠ .ok ([0x61], [1, 2, 3, 4, 5]) := by
  rw [receiveParallel_sendFileParallel _ _ _ _ _ (by decide)]
  exact ⟨rfl, by decide⟩

end SeamProtocol
