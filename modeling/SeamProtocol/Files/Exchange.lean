import SeamProtocol.Files.Copy

/-! # One file after the other

After the name of a file, the sender waits for RESUME if it was told to, and the receiver sends it if it
has a part of the file; neither asks the other. -/

namespace SeamProtocol

open Lib List Leads Staging

def Staging.resumeFrom (g : Staging) (disk : Disk) (size : Nat) (name : Name) : Nat :=
  if g.usable disk size name then disk.size (g.partialPath name) else 0

def Staging.received (g : Staging) (disk : Disk) (f : SourceFile) : Disk :=
  g.promote (g.write (g.create disk f.content.length f.name) f.name
    (f.content.drop (g.resumeFrom disk f.content.length f.name))) f.name

def Agrees (resume : Bool) (g : Staging) : Disk → List SourceFile → Prop
  | _, [] => True
  | disk, f :: rest =>
    g.usable disk f.content.length f.name = resume ∧ Agrees resume g (g.received disk f) rest

instance Agrees.decidable (resume : Bool) (g : Staging) :
    ∀ disk files, Decidable (Agrees resume g disk files)
  | _, [] => isTrue trivial
  | disk, f :: rest =>
    have := Agrees.decidable resume g (g.received disk f) rest
    inferInstanceAs (Decidable (_ ∧ _))

theorem agrees_of_not_resume {g : Staging} (hg : g.resume = false) (disk : Disk)
    (files : List SourceFile) : Agrees false g disk files := by
  induction files generalizing disk with
  | nil => trivial
  | cons f rest ih =>
    refine ⟨?_, ih _⟩
    simp [usable, hg]

/-! ## One file -/

section

variable {T : Tools} {fmt : Format} {o : Options} {resume : Bool} {g : Staging} {f : SourceFile}
  {n n' : Nat} {s s' : List Nat}

theorem Staging.write_writePath (g : Staging) (disk : Disk) (name : Name) (raw : Bytes) :
    g.write disk name raw (g.writePath name)
      = some ((disk (g.writePath name)).getD [] ++ raw) := Function.update_self ..

theorem Staging.isSome_create (g : Staging) (disk : Disk) (size : Nat) (name : Name) :
    (g.create disk size name (g.writePath name)).isSome = true := by
  unfold create
  split_ifs with husable
  · unfold usable at husable
    rw [Bool.and_eq_true, decide_eq_true_eq] at husable
    rw [writePath, if_pos husable.1]
    cases hfile : disk (g.partialPath name) with
    | none =>
      rw [Disk.size, hfile] at husable
      exact absurd husable.2.1 (lt_irrefl 0)
    | some file => rfl
  · simp [Disk.put]

variable {disk : Disk}

theorem Staging.write_nil {name : Name} (hopen : (disk (g.writePath name)).isSome = true) :
    g.write disk name [] = disk := by
  obtain ⟨file, hfile⟩ := Option.isSome_iff_exists.mp hopen
  rw [write, append_nil, hfile, Option.getD_some, Disk.put, ← hfile, Function.update_eq_self]

theorem Staging.write_write (g : Staging) (disk : Disk) (name : Name) (raw raw' : Bytes) :
    g.write (g.write disk name raw) name raw' = g.write disk name (raw ++ raw') := by
  simp [write, Disk.put]

theorem drop_eq_chunk_append (content : Bytes) (sent : Nat) :
    content.drop sent = (content.drop sent).take chunkSize
      ++ content.drop (sent + ((content.drop sent).take chunkSize).length) := by
  nth_rewrite 1 [← take_append_drop chunkSize (content.drop sent)]
  congr 1
  rw [drop_drop, length_take]
  by_cases hle : chunkSize ≤ (content.drop sent).length
  · rw [Nat.min_eq_left hle]
  · rw [Nat.min_eq_right (by omega), drop_eq_nil_of_le, drop_eq_nil_of_le]
    · rw [length_drop]
      omega
    · rw [length_drop] at hle
      omega

variable {sent : Nat}

theorem sendFile_data (T : Tools) (fmt : Format) (o : Options) (resume : Bool)
    (hlt : sent < f.content.length) :
    ∃ raw : Bytes, 0 < raw.length ∧ sent + raw.length ≤ f.content.length ∧
      f.content.drop sent = raw ++ f.content.drop (sent + raw.length) ∧
      ∀ hashed, sendFile T fmt o resume f (.data sent hashed) = .send o.sid
        (fmt.data (T.pack o.zstd raw)) (.data (sent + raw.length) (hashed ++ raw)) := by
  have hlen : ((f.content.drop sent).take chunkSize).length = min chunkSize (f.content.length - sent) := by
    simp
  have hpos : 0 < ((f.content.drop sent).take chunkSize).length := by
    rw [hlen, chunkSize]
    omega
  refine ⟨_, hpos, by omega, drop_eq_chunk_append f.content sent, fun hashed => ?_⟩
  simp only [sendFile]
  rw [if_pos ⟨hlt, ne_nil_of_length_pos hpos⟩]

theorem sendFile_end (hle : f.content.length ≤ sent) (hashed : Bytes) :
    sendFile T fmt o resume f (.data sent hashed)
      = .send o.sid (.checksum (T.hash o.fips hashed)) .awaitReply := by
  simp only [sendFile]
  rw [if_neg fun h => hle.not_gt h.1]

variable {hashed : Bytes}

theorem leads_data (hsent : sent ≤ f.content.length)
    (hopen : (disk (g.writePath f.name)).isSome = true) :
    Leads (sendFile T fmt o resume f) (receiveFile T fmt o g f.content.length f.name)
      ⟨⟨.data sent hashed, n, s⟩, ⟨.data disk sent hashed, n', s'⟩, [], []⟩
      ⟨⟨.data f.content.length (hashed ++ f.content.drop sent), n, s⟩,
        ⟨.data (g.write disk f.name (f.content.drop sent)) f.content.length
          (hashed ++ f.content.drop sent), n', s'⟩, [], []⟩ := by
  -- on the number of bytes that are left
  induction hleft : f.content.length - sent using Nat.strong_induction_on
    generalizing sent disk hashed with
  | _ left ih =>
    by_cases hlt : sent < f.content.length
    · obtain ⟨raw, hpos, hnext, hchunk, hsend⟩ := sendFile_data T fmt o resume hlt
      have hstep : Leads (sendFile T fmt o resume f) (receiveFile T fmt o g f.content.length f.name)
          ⟨⟨.data sent hashed, n, s⟩, ⟨.data disk sent hashed, n', s'⟩, [], []⟩
          ⟨⟨.data (sent + raw.length) (hashed ++ raw), n, s⟩,
            ⟨.data (g.write disk f.name raw) (sent + raw.length) (hashed ++ raw), n', s'⟩, [], []⟩ := by
        refine transmitRight (hsend hashed) rfl ?_
        simp only [if_pos hlt, fmt.payload_data, T.unpack_pack]
      have hopen' : (g.write disk f.name raw (g.writePath f.name)).isSome = true := by
        rw [g.write_writePath]
        rfl
      simpa [hchunk, ← g.write_write] using hstep.trans (ih _ (by omega) hnext hopen' rfl)
    · have heq : sent = f.content.length := by omega
      subst heq
      simpa [write_nil hopen] using refl _

theorem leads_send {τ ρ : Type} {B : τ → Act τ Frame ρ} {b : τ} {p q : List (Nat × Frame)}
    (hsent : sent ≤ f.content.length) :
    ∃ payloads : List Bytes, Leads (sendFile T fmt o resume f) B
      ⟨⟨.data sent hashed, n, s⟩, ⟨b, n', s'⟩, p, q⟩
      ⟨⟨.awaitReply, n, s⟩, ⟨b, n', s'⟩, p ++ (payloads.map (fun payload => (o.sid, fmt.data payload)) ++
        [(o.sid, .checksum (T.hash o.fips (hashed ++ f.content.drop sent)))]), q⟩ := by
  -- on the number of bytes that are left
  induction hleft : f.content.length - sent using Nat.strong_induction_on
    generalizing sent hashed p with
  | _ left ih =>
    by_cases hlt : sent < f.content.length
    · obtain ⟨raw, hpos, hnext, hchunk, hsend⟩ := sendFile_data T fmt o resume hlt
      obtain ⟨payloads, hrest⟩ := ih (f.content.length - (sent + raw.length)) (by omega) hnext rfl
      refine ⟨T.pack o.zstd raw :: payloads, ?_⟩
      simpa [hchunk] using trans (sendLeft (hsend hashed)) hrest
    · refine ⟨[], ?_⟩
      rw [drop_eq_nil_of_le (by omega), append_nil]
      exact sendLeft (sendFile_end (by omega) hashed)

theorem leads_checksum :
    Leads (sendFile T fmt o resume f) (receiveFile T fmt o g f.content.length f.name)
      ⟨⟨.data f.content.length hashed, n, s⟩, ⟨.data disk f.content.length hashed, n', s'⟩, [], []⟩
      ⟨⟨.returned (.ok ()), n, s⟩, ⟨.returned (g.promote disk f.name) (.ok ()), n', s'⟩, [], []⟩ := by
  refine trans (d := ⟨⟨.awaitReply, n, s⟩, ⟨.ack (g.promote disk f.name), n', s'⟩, [], []⟩)
    (transmitRight (sendFile_end le_rfl hashed) rfl ?_) (transmitLeft rfl rfl ?_)
  · simp only [lt_irrefl, if_false, T.length_hash, if_true]
  · simp

def SendFile.begin (resume : Bool) : SendFile := if resume then .awaitResume else .data 0 []

theorem Staging.resumeFrom_le (g : Staging) (disk : Disk) (size : Nat) (name : Name) :
    g.resumeFrom disk size name ≤ size := by
  unfold resumeFrom
  split_ifs with husable
  · unfold usable at husable
    rw [Bool.and_eq_true, decide_eq_true_eq] at husable
    exact husable.2.2.le
  · exact Nat.zero_le size

theorem receiveFile_resume (hsafe : dangerous f.name = false)
    (husable : g.usable disk f.content.length f.name = true) :
    receiveFile T fmt o g f.content.length f.name (.start disk)
      = .send o.sid (.resume (disk.size (g.partialPath f.name)))
        (.data (g.create disk f.content.length f.name) (disk.size (g.partialPath f.name)) []) := by
  simp [receiveFile, hsafe, husable]

theorem leads_start (hsafe : dangerous f.name = false)
    (hagree : g.usable disk f.content.length f.name = resume) :
    Leads (sendFile T fmt o resume f) (receiveFile T fmt o g f.content.length f.name)
      ⟨⟨.begin resume, n, s⟩, ⟨.start disk, n', s'⟩, [], []⟩
      ⟨⟨.data (g.resumeFrom disk f.content.length f.name) [], n, s⟩,
        ⟨.data (g.create disk f.content.length f.name) (g.resumeFrom disk f.content.length f.name) [],
          n', s'⟩, [], []⟩ := by
  cases hresume : resume with
  | false =>
    rw [hresume] at hagree
    rw [resumeFrom, hagree]
    refine tauRight ?_
    simp [receiveFile, hsafe, hagree]
  | true =>
    rw [hresume] at hagree
    have hpartial := (Bool.and_eq_true _ _ ▸ hagree : _ ∧ _).2
    rw [decide_eq_true_eq] at hpartial
    rw [resumeFrom, if_pos hagree]
    refine transmitLeft (receiveFile_resume hsafe hagree) rfl ?_
    dsimp only
    rw [if_pos hpartial]

theorem leads_file (hsafe : dangerous f.name = false)
    (hagree : g.usable disk f.content.length f.name = resume) :
    Leads (sendFile T fmt o resume f) (receiveFile T fmt o g f.content.length f.name)
      ⟨⟨.begin resume, n, s⟩, ⟨.start disk, n', s'⟩, [], []⟩
      ⟨⟨.returned (.ok ()), n, s⟩, ⟨.returned (g.received disk f) (.ok ()), n', s'⟩, [], []⟩ :=
  (leads_start hsafe hagree).trans
    ((leads_data (g.resumeFrom_le ..) (g.isSome_create ..)).trans leads_checksum)

/-! ## All files -/

def Staging.receivedAll (g : Staging) (disk : Disk) (files : List SourceFile) : Disk :=
  files.foldl g.received disk

theorem runs_sendFile (f : SourceFile) (rest : List SourceFile) :
    Runs (sendFile T fmt o resume f) (sendFiles T fmt o resume) (.file f rest) := ⟨_, fun _ => rfl⟩

theorem runs_receiveFile (size : Nat) (name : Name) :
    Runs (receiveFile T fmt o g size name) (receiveFiles T fmt o g) (.file size name) :=
  ⟨_, fun _ => rfl⟩

theorem leads_files {files : List SourceFile} (hsafe : ∀ f ∈ files, dangerous f.name = false)
    (hagree : Agrees resume g disk files) :
    Leads (sendFiles T fmt o resume) (receiveFiles T fmt o g)
      ⟨⟨.loop files, n, s⟩, ⟨.loop disk, n', s'⟩, [], []⟩
      ⟨⟨.returned (.ok ()), n, s⟩, ⟨.returned (.ok (g.receivedAll disk files)), n', s'⟩, [], []⟩ := by
  induction files generalizing disk with
  | nil =>
    refine transmitRight rfl rfl ?_
    simp only [fmt.header_last, if_true]
    rfl
  | cons f rest ih =>
    have hname : Leads (sendFiles T fmt o resume) (receiveFiles T fmt o g)
        ⟨⟨.file f rest .info, n, s⟩, ⟨.loop disk, n', s'⟩, [], []⟩
        ⟨⟨.file f rest (.begin resume), n, s⟩,
          ⟨.file f.content.length f.name (.start disk), n', s'⟩, [], []⟩ := by
      refine transmitRight rfl rfl ?_
      simp only [fmt.header_info]
    have hfile : Leads (sendFiles T fmt o resume) (receiveFiles T fmt o g)
        ⟨⟨.file f rest (.begin resume), n, s⟩,
          ⟨.file f.content.length f.name (.start disk), n', s'⟩, [], []⟩
        ⟨⟨.file f rest (.returned (.ok ())), n, s⟩,
          ⟨.file f.content.length f.name (.returned (g.received disk f) (.ok ())), n', s'⟩, [], []⟩ :=
      map (runs_sendFile f rest) (runs_receiveFile _ _)
        (leads_file (hsafe f mem_cons_self) hagree.1)
    refine trans (tauLeft rfl) (hname.trans (hfile.trans ?_))
    refine trans (tauLeft rfl) (trans (tauRight rfl) ?_)
    exact ih (fun f' hf' => hsafe f' (mem_cons_of_mem f hf')) hagree.2

end

/-! ## A whole transfer -/

section

variable {T : Tools} {fips bye resume : Bool} {g : Staging} {disk : Disk} {files : List SourceFile}
  {n n' : Nat} {s s' : List Nat}

theorem runs_sendFiles (o : Options) :
    Runs (sendFiles T copyFormat o resume) (pushFiles T o resume files) .files := ⟨_, fun _ => rfl⟩

theorem runs_receiveFiles :
    Runs (receiveFiles T copyFormat ⟨sid, zstd, fips⟩ g) (receiveRound T sid fips bye g disk)
      (.files zstd) := ⟨_, fun _ => rfl⟩

theorem leads_round (hsafe : ∀ f ∈ files, dangerous f.name = false)
    (hagree : Agrees resume g disk files) :
    Leads (pushFiles T ⟨sid, zstd, fips⟩ resume files) (receiveRound T sid fips bye g disk)
      ⟨⟨.awaitAck, n, s⟩, ⟨.ack zstd, n', s'⟩, [], []⟩
      ⟨⟨.returned (.ok ()), n, s⟩, ⟨.returned (.ok (g.receivedAll disk files)), n', s'⟩, [], []⟩ := by
  have hfiles : Leads (pushFiles T ⟨sid, zstd, fips⟩ resume files) (receiveRound T sid fips bye g disk)
      ⟨⟨.files (.loop files), n, s⟩, ⟨.files zstd (.loop disk), n', s'⟩, [], []⟩
      ⟨⟨.files (.returned (.ok ())), n, s⟩,
        ⟨.files zstd (.returned (.ok (g.receivedAll disk files))), n', s'⟩, [], []⟩ :=
    map (runs_sendFiles _) runs_receiveFiles (leads_files hsafe hagree)
  refine trans (transmitLeft rfl rfl rfl) (hfiles.trans ?_)
  exact trans (tauLeft rfl) (tauRight rfl)

end

end SeamProtocol
