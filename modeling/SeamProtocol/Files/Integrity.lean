import SeamProtocol.Files.Pairing

/-! # What a received file holds

`receive_file` of `recv` against any sequence of frames. The digest covers only what was sent in this
transfer, the number of bytes is only bounded from below, and any other frame in place of the digest is
taken for an older sender. -/

namespace SeamProtocol

open Lib Function List Option Staging Disk

def Tools.Separates (T : Tools) (fips : Bool) (x y : Bytes) : Prop :=
  T.hash fips x = T.hash fips y → x = y

structure FileReception where
  o : Options
  redundantPathIdx : Option Nat
  size : Nat
  name : Name
  disk : Disk

namespace FileReception

def staging (r : FileReception) : Staging := ⟨true, r.redundantPathIdx⟩

def program (T : Tools) (r : FileReception) :
    ReceiveFile → Act ReceiveFile Frame (Disk × Except TransferError Unit) :=
  receiveFile T copyFormat r.o r.staging r.size r.name

def base (r : FileReception) : Bytes :=
  if r.staging.usable r.disk r.size r.name then (r.disk (r.staging.partialPath r.name)).getD [] else []

/-- **The file is the one that was announced**, by its size and by the digest in the last frame, where it
is about to be confirmed or has been received; everywhere else it is as it was. -/
def Kept (T : Tools) (r : FileReception) (seen : List Frame) : ReceiveFile → Prop
  | .start disk => disk r.name = r.disk r.name
  | .data disk _ _ => disk r.name = r.disk r.name
  | .returned disk (.error _) => disk r.name = r.disk r.name
  | .ack disk => ∃ content digest, disk r.name = some content ∧
      seen.getLast? = some (.checksum digest) ∧ content.length = r.size ∧ T.hash r.o.fips content = digest
  | .returned disk (.ok ()) => ∃ content digest, disk r.name = some content ∧
      seen.getLast? = some (.checksum digest) ∧ content.length = r.size ∧ T.hash r.o.fips content = digest

def Faithful (T : Tools) (r : FileReception) (frames : List Frame) : Prop :=
  Act.Always (r.program T) (r.Kept T) [] (.start r.disk) frames

variable (T : Tools)

theorem program_returned (r : FileReception) (disk : Disk) (res : Except TransferError Unit) :
    r.program T (.returned disk res) = .done (disk, res) := rfl

/-! ## The frames -/

/-- The data that the loop takes from a sequence of frames, and the frames after it; `none` if the loop
does not come to its end. -/
def gather (T : Tools) (r : FileReception) : Nat → List Frame → Option (Bytes × List Frame)
  | received, [] => if received < r.size then none else some ([], [])
  | received, f :: rest =>
    if received < r.size then
      ((copyFormat.payload f).bind (T.unpack r.o.zstd)).bind fun raw =>
        (gather T r (received + raw.length) rest).map fun p => (raw ++ p.1, p.2)
    else some ([], f :: rest)

/-- A digest of the data that is promoted: nothing was resumed, and the data has the announced size; if
another path was faster, its file has the announced size and digest. -/
def Promoted (T : Tools) (r : FileReception) (data digest : Bytes) : Prop :=
  if r.redundantPathIdx.isSome && (r.disk r.name).isSome then
    ((r.disk r.name).getD []).length = r.size ∧ T.hash r.o.fips ((r.disk r.name).getD []) = digest
  else r.base = [] ∧ data.length = r.size

def EndsWell (T : Tools) (r : FileReception) (data : Bytes) : Frame → Prop
  | .checksum digest => digest.length = 32 ∧ (T.hash r.o.fips data = digest → r.Promoted T data digest)
  | _ => False

def Complete (T : Tools) (r : FileReception) (frames : List Frame) : Prop :=
  match r.gather T r.base.length frames with
  | some (data, f :: _) => r.EndsWell T data f
  | _ => True

instance (T : Tools) (r : FileReception) (data digest : Bytes) : Decidable (r.Promoted T data digest) :=
  inferInstanceAs (Decidable (ite
    ((r.redundantPathIdx.isSome && (r.disk r.name).isSome) = true) (_ ∧ _) (_ ∧ _)))

instance (T : Tools) (r : FileReception) (data : Bytes) : ∀ f, Decidable (r.EndsWell T data f)
  | .checksum _ => inferInstanceAs (Decidable (_ ∧ _))
  | .hello _ | .fileInfo _ _ | .data _ | .done | .ack | .resume _ | .bye | .token _ | .syncManifest _
  | .syncFile _ _ | .syncFileData _ | .syncFileAck | .syncDelete _ | .syncDone | .chunkInfo .. => isFalse id

instance (T : Tools) (r : FileReception) (frames : List Frame) : Decidable (r.Complete T frames) :=
  match h : r.gather T r.base.length frames with
  | none => isTrue (by unfold Complete; rw [h]; trivial)
  | some (_, []) => isTrue (by unfold Complete; rw [h]; trivial)
  | some (data, f :: _) => decidable_of_iff (r.EndsWell T data f) (by unfold Complete; rw [h])

/-! ## The files -/

variable {T : Tools} {r : FileReception}

theorem partialPath_ne (r : FileReception) : r.staging.partialPath r.name ≠ r.name := by
  intro h
  have hlen := congrArg List.length h
  simp only [Staging.partialPath, SeamProtocol.partialPath, length_append, partialSuffix,
    length_cons] at hlen
  omega

theorem writePath_eq (r : FileReception) :
    r.staging.writePath r.name = r.staging.partialPath r.name := if_pos rfl

theorem discard_eq (r : FileReception) (disk : Disk) :
    r.staging.discard disk r.name = disk.remove (r.staging.partialPath r.name) := if_pos rfl

structure Holds (r : FileReception) (disk : Disk) (received : Nat) (hashed : Bytes) : Prop where
  name : disk r.name = r.disk r.name
  staged : disk (r.staging.partialPath r.name) = some (r.base ++ hashed)
  received_eq : received = r.base.length + hashed.length

theorem holds_create (r : FileReception) :
    r.Holds (r.staging.create r.disk r.size r.name) r.base.length [] := by
  unfold create
  split_ifs with husable
  · refine ⟨rfl, ?_, rfl⟩
    rw [append_nil, base, if_pos husable]
    have hopen := r.staging.isSome_create r.disk r.size r.name
    rw [create, if_pos husable, writePath_eq] at hopen
    obtain ⟨file, hfile⟩ := isSome_iff_exists.mp hopen
    rw [hfile, getD_some]
  · refine ⟨?_, ?_, rfl⟩
    · rw [writePath_eq, put, update_of_ne r.partialPath_ne.symm, discard_eq,
        remove, update_of_ne r.partialPath_ne.symm]
    · simp [writePath_eq, put, base, husable]

variable {disk : Disk} {received : Nat} {hashed : Bytes}

section

variable (h : r.Holds disk received hashed)
include h

theorem Holds.write (raw : Bytes) :
    r.Holds (r.staging.write disk r.name raw) (received + raw.length) (hashed ++ raw) := by
  refine ⟨?_, ?_, ?_⟩
  · rw [Staging.write, writePath_eq, put, update_of_ne r.partialPath_ne.symm, h.name]
  · rw [← writePath_eq, Staging.write_writePath, writePath_eq, h.staged, getD_some,
      append_assoc]
  · rw [h.received_eq, length_append, Nat.add_assoc]

theorem Holds.discard : r.staging.discard disk r.name r.name = r.disk r.name := by
  rw [discard_eq, remove, update_of_ne r.partialPath_ne.symm, h.name]

theorem Holds.promote :
    r.staging.promote disk r.name r.name =
      if r.redundantPathIdx.isSome && (r.disk r.name).isSome then r.disk r.name
      else some (r.base ++ hashed) := by
  have hpromote : r.staging.promote disk r.name =
      if r.redundantPathIdx.isSome && (disk r.name).isSome then disk.remove (r.staging.partialPath r.name)
      else r.staging.rename disk r.name := rfl
  have hrename : r.staging.rename disk r.name
      = (disk.remove (r.staging.partialPath r.name)).put r.name (r.base ++ hashed) := by
    rw [rename, if_pos (show r.staging.resume = true from rfl)]
    simp only [h.staged]
  rw [hpromote, h.name]
  by_cases hfaster : (r.redundantPathIdx.isSome && (r.disk r.name).isSome) = true
  · rw [if_pos hfaster, if_pos hfaster, remove, update_of_ne r.partialPath_ne.symm, h.name]
  · simp [hfaster, hrename, put]

/-! ## The end of the data -/

theorem kept_promote_iff {digest : Bytes}
    (hdigest : T.hash r.o.fips hashed = digest) (hcoll : T.Separates r.o.fips (r.base ++ hashed) hashed)
    (seen : List Frame) :
    r.Kept T (seen ++ [.checksum digest]) (.ack (r.staging.promote disk r.name))
      ↔ r.Promoted T hashed digest := by
  have hlast : (seen ++ [Frame.checksum digest]).getLast? = some (.checksum digest) :=
    getLast?_append_of_ne_nil _ (cons_ne_nil _ _)
  simp only [Kept, h.promote, hlast, Promoted, Option.some.injEq, Frame.checksum.injEq]
  by_cases hfaster : (r.redundantPathIdx.isSome && (r.disk r.name).isSome) = true
  · obtain ⟨content, hcontent⟩ := isSome_iff_exists.mp (Bool.and_eq_true _ _ ▸ hfaster : _ ∧ _).2
    rw [if_pos hfaster, if_pos hfaster, hcontent, getD_some]
    constructor
    · rintro ⟨content', digest', heq, rfl, hlen, hhash⟩
      cases heq
      exact ⟨hlen, hhash⟩
    · rintro ⟨hlen, hhash⟩
      exact ⟨content, digest, rfl, rfl, hlen, hhash⟩
  · rw [if_neg hfaster, if_neg hfaster]
    constructor
    · rintro ⟨content', digest', heq, rfl, hlen, hhash⟩
      cases heq
      -- the digest is that of the data alone
      have hbase : r.base = [] := append_left_eq_self.mp (hcoll (hhash.trans hdigest.symm))
      rw [hbase] at hlen
      exact ⟨hbase, hlen⟩
    · rintro ⟨hbase, hlen⟩
      exact ⟨_, digest, rfl, rfl, by rw [hbase]; exact hlen, by rw [hbase]; exact hdigest⟩

end

theorem not_kept_returned_ok {seen : List Frame} {f : Frame}
    (hf : ∀ digest, f = .checksum digest → digest.length ≠ 32) (disk : Disk) :
    ¬r.Kept T (seen ++ [f]) (.returned disk (.ok ())) := by
  rintro ⟨content, digest, -, hlast, -, hhash⟩
  rw [getLast?_append_of_ne_nil _ (cons_ne_nil _ _), getLast?_singleton,
    Option.some.injEq] at hlast
  exact hf digest hlast (hhash ▸ T.length_hash ..)

def finish (T : Tools) (r : FileReception) (disk : Disk) (hashed : Bytes) : Frame → ReceiveFile
  | .checksum digest =>
    if digest.length = 32 then
      if T.hash r.o.fips hashed = digest then .ack (r.staging.promote disk r.name)
      else .returned (r.staging.discard disk r.name) (.error (.integrity r.name))
    else .returned (r.staging.rename disk r.name) (.ok ())
  | _ => .returned (r.staging.rename disk r.name) (.ok ())

theorem always_finish_iff (h : r.Holds disk received hashed)
    (hcoll : T.Separates r.o.fips (r.base ++ hashed) hashed) (seen frames : List Frame) (f : Frame) :
    Act.Always (r.program T) (r.Kept T) (seen ++ [f]) (r.finish T disk hashed f) frames
      ↔ r.EndsWell T hashed f := by
  have hdone : ∀ disk' res, Act.Always (r.program T) (r.Kept T) (seen ++ [f]) (.returned disk' res) frames
      ↔ r.Kept T (seen ++ [f]) (.returned disk' res) := fun _ _ =>
        Act.always_done (program_returned ..)
  by_cases hf : ∀ digest, f = .checksum digest → digest.length ≠ 32
  · have hfinish : r.finish T disk hashed f = .returned (r.staging.rename disk r.name) (.ok ()) := by
      cases f <;> first | rfl | exact if_neg (hf _ rfl)
    have hends : ¬r.EndsWell T hashed f := by
      cases f <;> first | exact id | exact fun h => hf _ rfl h.1
    rw [hfinish, hdone]
    exact iff_of_false (not_kept_returned_ok hf _) hends
  · push Not at hf
    obtain ⟨digest, rfl, hlen⟩ := hf
    simp only [finish, EndsWell, hlen, if_true, true_and]
    by_cases hdigest : T.hash r.o.fips hashed = digest
    · have hack : r.program T (.ack (r.staging.promote disk r.name)) = .send r.o.sid .ack
          (.returned (r.staging.promote disk r.name) (.ok ())) := rfl
      rw [if_pos hdigest, Act.always_send hack, hdone]
      have hkept := kept_promote_iff h hdigest hcoll seen
      exact ⟨fun hk _ => hkept.mp hk.1, fun hp => ⟨hkept.mpr (hp hdigest), hkept.mpr (hp hdigest)⟩⟩
    · rw [if_neg hdigest, hdone]
      exact iff_of_true h.discard fun heq => absurd heq hdigest

/-! ## The loop -/

theorem program_data (r : FileReception) (disk : Disk) (received : Nat) (hashed : Bytes) :
    r.program T (.data disk received hashed) = .recv r.o.sid fun f =>
      if received < r.size then
        match copyFormat.payload f with
        | none => .returned disk (.error .expectedData)
        | some payload =>
          match T.unpack r.o.zstd payload with
          | none => .returned disk (.error .notCompressed)
          | some raw => .data (r.staging.write disk r.name raw) (received + raw.length) (hashed ++ raw)
      else r.finish T disk hashed f := by
  congr 1

theorem always_data_iff (frames seen : List Frame) (h : r.Holds disk received hashed)
    (hcoll : ∀ data rest, r.gather T received frames = some (data, rest) →
      T.Separates r.o.fips (r.base ++ (hashed ++ data)) (hashed ++ data)) :
    Act.Always (r.program T) (r.Kept T) seen (.data disk received hashed) frames
      ↔ match r.gather T received frames with
        | some (data, f :: _) => r.EndsWell T (hashed ++ data) f
        | _ => True := by
  induction frames generalizing disk received hashed seen with
  | nil =>
    rw [Act.always_recv_nil (program_data ..)]
    refine iff_of_true h.name ?_
    unfold gather
    split_ifs <;> trivial
  | cons f rest ih =>
    have hkept : r.Kept T seen (.data disk received hashed) := h.name
    rw [Act.always_recv_cons (program_data ..), and_iff_right hkept]
    have herror : ∀ e,
        Act.Always (r.program T) (r.Kept T) (seen ++ [f]) (.returned disk (.error e)) rest :=
      fun e => (Act.always_done (program_returned ..)).mpr h.name
    simp only [gather] at hcoll ⊢
    split_ifs at hcoll ⊢ with hlt
    · cases hpayload : copyFormat.payload f with
      | none => exact iff_of_true (herror _) trivial
      | some payload =>
        cases hraw : T.unpack r.o.zstd payload with
        | none =>
          simp only [bind_some, hraw, bind_none]
          exact iff_of_true (herror _) trivial
        | some raw =>
          simp only [hpayload, bind_some, hraw] at hcoll ⊢
          rw [ih _ (h.write raw) fun data rest' hgather => ?_]
          · cases hgather : r.gather T (received + raw.length) rest with
            | none => rfl
            | some p =>
              obtain ⟨data, _ | ⟨f', rest'⟩⟩ := p
              · rfl
              · dsimp only [map_some]
                rw [append_assoc]
          · have := hcoll (raw ++ data) rest' (by rw [hgather]; rfl)
            rwa [append_assoc]
    · dsimp only
      simpa using always_finish_iff h (by simpa using hcoll [] (f :: rest) rfl) seen rest f

end FileReception

open FileReception in
/-- **When a file is received faithfully**: the name is refused; or whenever the data is complete and
another frame follows, that is a digest, and if it is the one of the data then nothing was resumed and
the data has the announced size (or another path has delivered the file before, with the announced size
and digest). -/
theorem receive_faithful_iff (T : Tools) (r : FileReception) (frames : List Frame)
    (hcoll : ∀ data rest, r.gather T r.base.length frames = some (data, rest) →
      T.Separates r.o.fips (r.base ++ data) data) :
    r.Faithful T frames ↔ dangerous r.name = true ∨ r.Complete T frames := by
  have hkept : r.Kept T [] (.start r.disk) := rfl
  have hloop := always_data_iff (T := T) frames [] r.holds_create hcoll
  simp only [nil_append] at hloop
  unfold Faithful
  by_cases hsafe : dangerous r.name = true
  · refine iff_of_true ?_ (.inl hsafe)
    have hstart : r.program T (.start r.disk)
        = .tau (.returned r.disk (.error (.dangerousName r.name))) := if_pos hsafe
    have hreturned : r.Kept T [] (.returned r.disk (.error (.dangerousName r.name))) := rfl
    exact (Act.always_tau hstart).mpr ⟨hkept, (Act.always_done (program_returned ..)).mpr hreturned⟩
  · rw [or_iff_right hsafe]
    unfold Complete
    rw [← hloop]
    by_cases husable : r.staging.usable r.disk r.size r.name = true
    · have hbase : r.base.length = r.disk.size (r.staging.partialPath r.name) := by
        rw [base, if_pos husable]
        rfl
      have hstart : r.program T (.start r.disk)
          = .send r.o.sid (.resume (r.disk.size (r.staging.partialPath r.name)))
            (.data (r.staging.create r.disk r.size r.name) r.base.length []) := by
        simp only [program, receiveFile, if_neg hsafe, if_pos husable, hbase]
      rw [Act.always_send hstart, and_iff_right hkept]
    · have hbase : r.base = [] := if_neg husable
      have hstart : r.program T (.start r.disk)
          = .tau (.data (r.staging.create r.disk r.size r.name) r.base.length []) := by
        simp [program, receiveFile, if_neg hsafe, if_neg husable, hbase]
      rw [Act.always_tau hstart, and_iff_right hkept]

/-- A file that is not there yet. -/
theorem new_file_faithful :
    FileReception.Faithful Tools.small ⟨⟨1, false, false⟩, none, 2, [0x61], fun _ => none⟩
      [.data [1], .data [2], .checksum (Tools.small.hash false [1, 2])] := by
  refine (receive_faithful_iff _ _ _ ?_).mpr (.inr (by decide +kernel))
  intro data rest _ _
  rfl

/-- **A file that is confirmed and not the one that was sent.** A partial file with another beginning is
resumed; the digest covers the rest only, and both sides succeed. -/
theorem stale_part_confirmed :
    ¬FileReception.Faithful Tools.small ⟨⟨1, false, false⟩, none, 2, twoBytes.name, stalePart⟩
      [.data [2], .checksum (Tools.small.hash false [2])] ∧
    ∃ sides c disk, exec (Dialogue.step (copyPush Tools.small false true false none [twoBytes])
        (recvRun Tools.small false none stalePart)) (.start .start .start) sides = some c ∧
      c.left.result (copyPush Tools.small false true false none [twoBytes]) = some (.ok ()) ∧
      c.right.result (recvRun Tools.small false none stalePart) = some (.ok disk) ∧
      twoBytes.content = [1, 2] ∧ disk twoBytes.name = some [9, 2] := by
  constructor
  · intro h
    have hany : (exec (Act.advance (FileReception.program Tools.small
        ⟨⟨1, false, false⟩, none, 2, twoBytes.name, stalePart⟩)) (.start stalePart)
        [none, some (.data [2]), some (.checksum (Tools.small.hash false [2]))]).any (fun s =>
          match s with
          | .ack disk => disk twoBytes.name = some [9, 2]
          | _ => false) = true := by decide +kernel
    obtain ⟨s, hrun, hs⟩ := exists_of_exec_any hany
    have hkept := h _ s hrun prefix_rfl
    cases s with
    | ack disk =>
      obtain ⟨content, digest, hcontent, hlast, -, hhash⟩ := hkept
      rw [decide_eq_true_eq] at hs
      rw [hs] at hcontent
      cases hcontent
      cases hlast
      exact absurd hhash (by decide +kernel)
    | start disk => cases hs
    | data disk received hashed => cases hs
    | returned disk res => cases hs
  · exact exists_run_of_any (p := fun disk => disk twoBytes.name = some [9, 2])
      [(.left, 3), (.right, 3), (.left, 3), (.right, 2), (.left, 3), (.right, 3), (.left, 5), (.right, 4)]
      (by decide +kernel) fun disk hdisk => ⟨rfl, of_decide_eq_true hdisk⟩

end SeamProtocol
