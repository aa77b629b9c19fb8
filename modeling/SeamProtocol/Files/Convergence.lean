import SeamProtocol.Files.Pairing

/-! # Both directories after `sync`

What the remote directory holds once `sync` has returned without an error. A file that is confirmed has
the digest that was sent, so that nothing has to be known of how it was encoded. -/

namespace SeamProtocol

open Lib List Disk Leads

def Tools.Identifies (T : Tools) (x : Bytes) : Prop :=
  ∀ fips fips' y, T.hash fips x = T.hash fips' y → x = y

/-! ## One file -/

def fileFrames (sid : Nat) (payloads : List Bytes) (digest : Bytes) : List (Nat × Frame) :=
  payloads.map (fun payload => (sid, .syncFileData payload)) ++ [(sid, .checksum digest)]

section

variable {T : Tools} {client server : SyncConfig} {sid : Nat} {f : SourceFile} {n n' : Nat}
  {s s' : List Nat}

theorem write_put (disk : Disk) (name : Name) (hashed raw : Bytes) :
    unstaged.write (disk.put name hashed) name raw = disk.put name (hashed ++ raw) := by
  have hwrite : unstaged.write (disk.put name hashed) name raw
      = (disk.put name hashed).put name (((disk.put name hashed) name).getD [] ++ raw) := rfl
  rw [hwrite, Disk.put, Disk.put, Disk.put, Function.update_self, Function.update_idem,
    Option.getD_some]

variable {disk : Disk}

theorem leads_receive {σ ρ : Type} {A : σ → Act σ Frame ρ} {a : σ} {size : Nat} {name : Name}
    {digest : Bytes} {q : List (Nat × Frame)} (payloads : List Bytes) (received : Nat)
    (hashed : Bytes) (hdigest : digest.length = 32) :
    (∃ content, T.hash server.fips content = digest ∧
      Leads A (receiveFile T syncFormat (server.options sid) unstaged size name)
        ⟨⟨a, n, s⟩, ⟨.data (disk.put name hashed) received hashed, n', s'⟩,
          fileFrames sid payloads digest, q⟩
        ⟨⟨a, n, s⟩, ⟨.ack (disk.put name content), n', s'⟩, [], q⟩) ∨
    ∃ disk' e rest, Leads A (receiveFile T syncFormat (server.options sid) unstaged size name)
        ⟨⟨a, n, s⟩, ⟨.data (disk.put name hashed) received hashed, n', s'⟩,
          fileFrames sid payloads digest, q⟩
        ⟨⟨a, n, s⟩, ⟨.returned disk' (.error e), n', s'⟩, rest, q⟩ := by
  induction payloads generalizing received hashed with
  | nil =>
    by_cases hlt : received < size
    · refine .inr ⟨disk.put name hashed, .expectedData, [], recvRight rfl ?_⟩
      simp only [if_pos hlt]
      rfl
    · by_cases hhash : T.hash (server.options sid).fips hashed = digest
      · refine .inl ⟨hashed, hhash, recvRight rfl ?_⟩
        simp only [if_neg hlt, if_pos hdigest, if_pos hhash]
        rfl
      · refine .inr ⟨unstaged.discard (disk.put name hashed) name, .integrity name, [],
          recvRight rfl ?_⟩
        simp only [if_neg hlt, if_pos hdigest, if_neg hhash]
  | cons payload payloads ih =>
    by_cases hlt : received < size
    · cases hraw : T.unpack server.zstd payload with
      | none =>
        refine .inr ⟨disk.put name hashed, .notCompressed, fileFrames sid payloads digest,
          recvRight rfl ?_⟩
        simp only [if_pos hlt, syncFormat, SyncConfig.options, hraw]
      | some raw =>
        have hpiece : Leads A (receiveFile T syncFormat (server.options sid) unstaged size name)
            ⟨⟨a, n, s⟩, ⟨.data (disk.put name hashed) received hashed, n', s'⟩,
              fileFrames sid (payload :: payloads) digest, q⟩
            ⟨⟨a, n, s⟩, ⟨.data (disk.put name (hashed ++ raw)) (received + raw.length)
                (hashed ++ raw), n', s'⟩,
              fileFrames sid payloads digest, q⟩ := by
          refine recvRight rfl ?_
          simp only [if_pos hlt, syncFormat, SyncConfig.options, hraw, write_put]
        rcases ih (received + raw.length) (hashed ++ raw) with
          ⟨content, hcontent, hrest⟩ | ⟨disk', e, rest, hrest⟩
        · exact .inl ⟨content, hcontent, hpiece.trans hrest⟩
        · exact .inr ⟨disk', e, rest, hpiece.trans hrest⟩
    · refine .inr ⟨disk.put name hashed, .expectedChecksum, fileFrames sid payloads digest,
        recvRight rfl ?_⟩
      simp only [if_neg hlt]
      rfl

theorem file_or_fails (hid : T.Identifies f.content) :
    Leads (sendFile T syncFormat (client.options sid) false f)
        (receiveFile T syncFormat (server.options sid) unstaged f.content.length f.name)
        ⟨⟨.data 0 [], n, s⟩, ⟨.start disk, n', s'⟩, [], []⟩
        ⟨⟨.returned (.ok ()), n, s⟩, ⟨.returned (disk.put f.name f.content) (.ok ()), n', s'⟩, [], []⟩ ∨
      ∃ disk' e rest, Leads (sendFile T syncFormat (client.options sid) false f)
        (receiveFile T syncFormat (server.options sid) unstaged f.content.length f.name)
        ⟨⟨.data 0 [], n, s⟩, ⟨.start disk, n', s'⟩, [], []⟩
        ⟨⟨.awaitReply, n, s⟩, ⟨.returned disk' (.error e), n', s'⟩, rest, []⟩ := by
  have hsend : ∀ b, ∃ payloads, Leads (sendFile T syncFormat (client.options sid) false f)
      (receiveFile T syncFormat (server.options sid) unstaged f.content.length f.name)
      ⟨⟨.data 0 [], n, s⟩, ⟨b, n', s'⟩, [], []⟩
      ⟨⟨.awaitReply, n, s⟩, ⟨b, n', s'⟩, fileFrames sid payloads (T.hash client.fips f.content), []⟩ :=
    fun b => leads_send (Nat.zero_le _)
  cases hsafe : dangerous f.name with
  | true =>
    obtain ⟨payloads, hsent⟩ := hsend (.returned disk (.error (.dangerousName f.name)))
    exact .inr ⟨disk, _, _, trans (tauRight (if_pos hsafe)) hsent⟩
  | false =>
    obtain ⟨payloads, hsent⟩ := hsend (.data (disk.put f.name []) 0 [])
    have hstart : receiveFile T syncFormat (server.options sid) unstaged f.content.length f.name
        (.start disk) = .tau (.data (disk.put f.name []) 0 []) := by
      simp only [receiveFile, hsafe, Bool.false_eq_true, if_false]
      rfl
    have hboth := trans (tauRight hstart) hsent
    rcases leads_receive payloads 0 [] (T.length_hash client.fips f.content) with
      ⟨content, hcontent, hreceived⟩ | ⟨disk', e, rest, hreceived⟩
    · rw [← hid client.fips server.fips content hcontent.symm] at hreceived
      refine .inl (hboth.trans (hreceived.trans (transmitLeft rfl rfl ?_)))
      exact congrArg _ (if_pos rfl)
    · exact .inr ⟨disk', e, rest, hboth.trans hreceived⟩

/-! ## All files -/

def putAll (disk : Disk) (files : List SourceFile) : Disk :=
  files.foldl (fun d f => d.put f.name f.content) disk

theorem files_or_fail {files : List SourceFile} (hid : ∀ f ∈ files, T.Identifies f.content) :
    Leads (sendFiles T syncFormat (client.options sid) false)
        (receiveFiles T syncFormat (server.options sid) unstaged)
        ⟨⟨.loop files, n, s⟩, ⟨.loop disk, n', s'⟩, [], []⟩
        ⟨⟨.returned (.ok ()), n, s⟩, ⟨.returned (.ok (putAll disk files)), n', s'⟩, [], []⟩ ∨
      ∃ f rest e frames, Leads (sendFiles T syncFormat (client.options sid) false)
        (receiveFiles T syncFormat (server.options sid) unstaged)
        ⟨⟨.loop files, n, s⟩, ⟨.loop disk, n', s'⟩, [], []⟩
        ⟨⟨.file f rest .awaitReply, n, s⟩, ⟨.returned (.error e), n', s'⟩, frames, []⟩ := by
  induction files generalizing disk with
  | nil => exact .inl (transmitRight rfl rfl rfl)
  | cons f rest ih =>
    have hname : Leads (sendFiles T syncFormat (client.options sid) false)
        (receiveFiles T syncFormat (server.options sid) unstaged)
        ⟨⟨.loop (f :: rest), n, s⟩, ⟨.loop disk, n', s'⟩, [], []⟩
        ⟨⟨.file f rest (.data 0 []), n, s⟩,
          ⟨.file f.content.length f.name (.start disk), n', s'⟩, [], []⟩ :=
      trans (tauLeft rfl) (transmitRight rfl rfl rfl)
    rcases file_or_fails (hid f mem_cons_self) with hfile | ⟨disk', e, frames, hfile⟩
    · have hone := hname.trans (map (runs_sendFile f rest) (runs_receiveFile _ _) hfile)
      have hnext : Leads (sendFiles T syncFormat (client.options sid) false)
          (receiveFiles T syncFormat (server.options sid) unstaged)
          ⟨⟨.loop (f :: rest), n, s⟩, ⟨.loop disk, n', s'⟩, [], []⟩
          ⟨⟨.loop rest, n, s⟩, ⟨.loop (disk.put f.name f.content), n', s'⟩, [], []⟩ :=
        hone.trans (trans (tauLeft rfl) (tauRight rfl))
      rcases ih fun f' hf' => hid f' (mem_cons_of_mem f hf') with
        hrest | ⟨f', rest', e, frames, hrest⟩
      · exact .inl (hnext.trans hrest)
      · exact .inr ⟨f', rest', e, frames, hnext.trans hrest⟩
    · have hone := hname.trans (map (runs_sendFile f rest) (runs_receiveFile _ _) hfile)
      exact .inr ⟨f, rest, e, frames, hone.trans (tauRight rfl)⟩

end

/-! ## The remote directory -/

section

variable {T : Tools} {client server : SyncConfig} {delete : Bool} {files dir : List SourceFile}
  {disk : Disk} {name : Name}

theorem putAll_of_not_mem (h : ∀ f ∈ files, f.name ≠ name) : putAll disk files name = disk name := by
  induction files generalizing disk with
  | nil => rfl
  | cons f rest ih =>
    have hrest : putAll disk (f :: rest) name = (disk.put f.name f.content) name :=
      ih fun g hg => h g (mem_cons_of_mem f hg)
    rw [hrest, put_of_ne _ _ (h f mem_cons_self).symm]

variable {f : SourceFile}

theorem putAll_of_mem (hnodup : (files.map SourceFile.name).Nodup) (hf : f ∈ files) :
    putAll disk files f.name = some f.content := by
  induction files generalizing disk with
  | nil => exact (not_mem_nil hf).elim
  | cons g rest ih =>
    rw [map_cons, nodup_cons] at hnodup
    rcases mem_cons.mp hf with rfl | hf
    · have hrest : putAll disk (f :: rest) f.name = (disk.put f.name f.content) f.name :=
        putAll_of_not_mem fun g hg heq => hnodup.1 (mem_map.mpr ⟨g, hg, heq⟩)
      rw [hrest, put_self]
    · exact ih hnodup.2 hf

theorem foldl_removeSafe (paths : List Name) :
    paths.foldl removeSafe disk name
      = if name ∈ paths ∧ dangerous name = false then none else disk name := by
  induction paths generalizing disk with
  | nil => simp only [foldl_nil, not_mem_nil, false_and, if_false]
  | cons path rest ih =>
    rw [foldl_cons, ih]
    by_cases heq : name = path
    · subst heq
      cases hsafe : dangerous name with
      | true => simp only [removeSafe, hsafe, if_true, Bool.true_eq_false, and_false, if_false]
      | false =>
        simp [removeSafe, hsafe, remove_self, ite_self]
    · have hremove : removeSafe disk path name = disk name := by
        unfold removeSafe
        split_ifs
        · rfl
        · exact remove_of_ne _ heq
      simp [hremove, heq]

variable {fips : Bool}

theorem mem_of_indexManifest {e : ManifestEntry}
    (h : indexManifest (buildManifest T fips dir) name = some e) :
    ∃ g ∈ dir, g.name = name ∧ e.hash = T.hash fips g.content := by
  have hmem := mem_reverse.mp (mem_of_find?_eq_some h)
  have hname := find?_some h
  rw [decide_eq_true_eq] at hname
  obtain ⟨g, hg, rfl⟩ := mem_map.mp hmem
  exact ⟨g, hg, hname, rfl⟩

theorem mem_toDelete : name ∈ toDelete files (buildManifest T fips dir)
    ↔ (∃ g ∈ dir, g.name = name) ∧ ∀ f ∈ files, f.name ≠ name := by
  simp [toDelete, buildManifest]

/-- **What `sync` is for**: all local files are there, with `--delete` no others, and otherwise all others
are as they were. -/
def Converged (delete : Bool) (files dir : List SourceFile) (disk : Disk) : Prop :=
  (∀ f ∈ files, disk f.name = some f.content) ∧
    if delete then disk = .ofFiles files
    else ∀ name, (∀ f ∈ files, f.name ≠ name) → disk name = Disk.ofFiles dir name

def synced (T : Tools) (client server : SyncConfig) (delete : Bool) (files dir : List SourceFile) : Disk :=
  deleted delete files (buildManifest T server.fips dir)
    (putAll (.ofFiles dir) (toSend T client.fips files (buildManifest T server.fips dir)))

theorem putAll_toSend (hfiles : (files.map SourceFile.name).Nodup)
    (hdir : (dir.map SourceFile.name).Nodup) (hid : ∀ f ∈ files, T.Identifies f.content)
    (hf : f ∈ files) :
    putAll (.ofFiles dir) (toSend T client.fips files (buildManifest T server.fips dir)) f.name
      = some f.content := by
  by_cases hsent : f ∈ toSend T client.fips files (buildManifest T server.fips dir)
  · exact putAll_of_mem (hfiles.sublist (filter_sublist.map _)) hsent
  · -- it was there already, with the same digest
    have hnot : ∀ g ∈ toSend T client.fips files (buildManifest T server.fips dir), g.name ≠ f.name := by
      intro g hg heq
      rw [inj_on_of_nodup_map hfiles (mem_of_mem_filter hg) hf heq] at hg
      exact hsent hg
    rw [putAll_of_not_mem hnot]
    cases hindex : indexManifest (buildManifest T server.fips dir) f.name with
    | none => simp [toSend, hf, hindex] at hsent
    | some e =>
      obtain ⟨g, hg, hname, hhash⟩ := mem_of_indexManifest hindex
      have hskip : e.hash = T.hash client.fips f.content := by
        simpa [toSend, hf, hindex] using hsent
      rw [hid f hf client.fips server.fips g.content (hskip.symm.trans hhash), ← hname]
      exact ofFiles_of_mem hdir hg

theorem putAll_toSend_of_not_mem (h : ∀ f ∈ files, f.name ≠ name) :
    putAll (.ofFiles dir) (toSend T client.fips files (buildManifest T server.fips dir)) name
      = Disk.ofFiles dir name :=
  putAll_of_not_mem fun f hf => h f (mem_of_mem_filter hf)

theorem converged_synced_iff (hfiles : (files.map SourceFile.name).Nodup)
    (hdir : (dir.map SourceFile.name).Nodup) (hid : ∀ f ∈ files, T.Identifies f.content) :
    Converged delete files dir (synced T client server delete files dir)
      ↔ (delete = true → ∀ g ∈ dir, (∀ f ∈ files, f.name ≠ g.name) → dangerous g.name = false) := by
  cases delete with
  | false =>
    refine iff_of_true ⟨fun f hf => putAll_toSend hfiles hdir hid hf, ?_⟩ nofun
    exact fun name hname => putAll_toSend_of_not_mem hname
  | true =>
    have hsynced : ∀ name, synced T client server true files dir name
        = if (∃ g ∈ dir, g.name = name) ∧ (∀ f ∈ files, f.name ≠ name) ∧ dangerous name = false
          then none
          else putAll (.ofFiles dir) (toSend T client.fips files (buildManifest T server.fips dir))
            name := by
      simp [synced, deleted, foldl_removeSafe, mem_toDelete, and_assoc]
    have hlocal : ∀ f ∈ files, synced T client server true files dir f.name = some f.content := by
      intro f hf
      rw [hsynced, if_neg fun h => h.2.1 f hf rfl, putAll_toSend hfiles hdir hid hf]
    constructor
    · rintro ⟨-, heq⟩ - g hg hnot
      have hsame : synced T client server true files dir = .ofFiles files := heq
      by_contra hdanger
      have hstays := hsynced g.name
      rw [if_neg fun h => hdanger h.2.2, putAll_toSend_of_not_mem hnot, ofFiles_of_mem hdir hg,
        hsame, ofFiles_of_not_mem hnot] at hstays
      cases hstays
    · intro hsafe
      refine ⟨hlocal, funext fun name => ?_⟩
      by_cases hname : ∀ f ∈ files, f.name ≠ name
      · rw [ofFiles_of_not_mem hname, hsynced]
        split_ifs with hgone
        · rfl
        · rw [putAll_toSend_of_not_mem hname]
          refine ofFiles_of_not_mem fun g hg heq => ?_
          subst heq
          exact hgone ⟨⟨g, hg, rfl⟩, hname, hsafe rfl g hg hname⟩
      · push Not at hname
        obtain ⟨f, hf, rfl⟩ := hname
        rw [hlocal f hf, ofFiles_of_mem hfiles hf]

/-! ## `sync` -/

/-- **Where `sync` ends**: all files have been received, or the client waits for good. -/
theorem sync_or_fails (server : SyncConfig) (dir : List SourceFile)
    (hid : ∀ f ∈ files, T.Identifies f.content) :
    ∃ d, Leads (syncPush T client delete files) (syncRecvPush T server delete dir)
        (.start .start .start) d ∧
      Final (Dialogue.step (syncPush T client delete files) (syncRecvPush T server delete dir)) d ∧
      (d.left.result (syncPush T client delete files) = none ∨
        d.right.result (syncRecvPush T server delete dir)
          = some (.ok (synced T client server delete files dir))) := by
  obtain ⟨remote, hremote⟩ : ∃ remote, buildManifest T server.fips dir = remote := ⟨_, rfl⟩
  have hmanifests : Leads (syncPush T client delete files) (syncRecvPush T server delete dir)
      (.start .start .start)
      ⟨⟨.files 1 remote (.loop (toSend T client.fips files remote)), 3, [1]⟩,
        ⟨.files 1 (.loop (.ofFiles dir)), 2, [1]⟩, [], []⟩ := by
    rw [← hremote]
    exact leads_manifests
  rw [synced, hremote]
  rcases files_or_fail fun f hf => hid f (mem_of_mem_filter hf) with
    hfiles | ⟨f, rest, e, frames, hfiles⟩
  · have hboth := hmanifests.trans (map (runs_syncPush 1 remote) (runs_syncRecvPush 1) hfiles)
    obtain ⟨rest, hend⟩ := leads_end
    exact ⟨_, hboth.trans hend, Dialogue.final_of_results rfl rfl, .inr rfl⟩
  · have hboth := hmanifests.trans (map (runs_syncPush 1 remote) (runs_syncRecvPush 1) hfiles)
    refine ⟨_, hboth.trans (tauRight rfl), fun side => ?_, .inl rfl⟩
    cases side <;> rfl

end

/-- **`sync` converges exactly if no path is refused that is to be removed.** Whenever the client has
returned without an error, in any run of both sides, the server comes to an end, always with the same
directory. -/
theorem sync_converges_iff (T : Tools) (client server : SyncConfig) (delete : Bool)
    (files dir : List SourceFile) (hfiles : (files.map SourceFile.name).Nodup)
    (hdir : (dir.map SourceFile.name).Nodup) (hid : ∀ f ∈ files, T.Identifies f.content)
    (sides : List Side) (c : Dialogue SyncPush SyncRecvPush Frame)
    (hrun : exec (Dialogue.step (syncPush T client delete files) (syncRecvPush T server delete dir))
      (.start .start .start) sides = some c)
    (hok : c.left.result (syncPush T client delete files) = some (.ok ())) :
    ∃ disk,
      (∃ more d, exec (Dialogue.step (syncPush T client delete files)
        (syncRecvPush T server delete dir)) c more = some d ∧
        Final (Dialogue.step (syncPush T client delete files) (syncRecvPush T server delete dir)) d) ∧
      (∀ more d, exec (Dialogue.step (syncPush T client delete files)
        (syncRecvPush T server delete dir)) c more = some d →
        Final (Dialogue.step (syncPush T client delete files) (syncRecvPush T server delete dir)) d →
        d.right.result (syncRecvPush T server delete dir) = some (.ok disk)) ∧
      (Converged delete files dir disk
        ↔ (delete = true → ∀ g ∈ dir, (∀ f ∈ files, f.name ≠ g.name) → dangerous g.name = false)) := by
  obtain ⟨d, hleads, hfinal, hresult⟩ := sync_or_fails server dir hid
  obtain ⟨more, hmore⟩ := hleads.continues hfinal hrun
  refine ⟨synced T client server delete files dir, ⟨more, d, hmore, hfinal⟩, ?_,
    converged_synced_iff hfiles hdir hid⟩
  intro more' d' hmore' hfinal'
  have hd : d' = d := Leads.eq_of_final ⟨more, hmore⟩ hfinal hmore' hfinal'
  rcases hresult with hwaits | hdone
  · -- what the client has returned stays
    rw [Dialogue.result_left_of_exec hmore hok] at hwaits
    cases hwaits
  · rw [hd]
    exact hdone

theorem Tools.small_identifies {x : Bytes} (hx : x.length ≤ 31) : Tools.small.Identifies x := by
  intro _ _ y h
  have hcons : UInt8.ofNat (min x.length 255) :: (x ++ List.replicate 32 0).take 31
      = UInt8.ofNat (min y.length 255) :: (y ++ List.replicate 32 0).take 31 := h
  obtain ⟨hhead, htail⟩ := List.cons.inj hcons
  have hlen : x.length = y.length := by
    have hnat := congrArg UInt8.toNat hhead
    rw [UInt8.toNat_ofNat_of_lt' (by unfold UInt8.size; omega),
      UInt8.toNat_ofNat_of_lt' (by unfold UInt8.size; omega)] at hnat
    omega
  have htake := congrArg (List.take x.length) htail
  rwa [take_take, take_take, Nat.min_eq_left hx, take_left, hlen, take_left] at htake

/-- A file is sent, and another one is removed. -/
theorem one_file_converges :
    ∃ sides c disk, exec (Dialogue.step (syncPush Tools.small ⟨true, false⟩ true [⟨[0x61], [1]⟩])
        (syncRecvPush Tools.small ⟨true, false⟩ true [⟨[0x62], [2]⟩])) (.start .start .start) sides
          = some c ∧
      (∃ more d, exec (Dialogue.step (syncPush Tools.small ⟨true, false⟩ true [⟨[0x61], [1]⟩])
        (syncRecvPush Tools.small ⟨true, false⟩ true [⟨[0x62], [2]⟩])) c more = some d ∧
        d.right.result (syncRecvPush Tools.small ⟨true, false⟩ true [⟨[0x62], [2]⟩]) = some (.ok disk)) ∧
      Converged true [⟨[0x61], [1]⟩] [⟨[0x62], [2]⟩] disk := by
  obtain ⟨c, hrun, hc⟩ : ∃ c, exec (Dialogue.step
      (syncPush Tools.small ⟨true, false⟩ true [⟨[0x61], [1]⟩])
      (syncRecvPush Tools.small ⟨true, false⟩ true [⟨[0x62], [2]⟩])) (.start .start .start)
      (turns [(.left, 2), (.right, 3), (.left, 5), (.right, 5), (.left, 6)]) = some c ∧
      c.left.result (syncPush Tools.small ⟨true, false⟩ true [⟨[0x61], [1]⟩]) = some (.ok ()) := by
    decide +kernel
  obtain ⟨disk, ⟨more, d, hmore, hfinal⟩, hall, hconverged⟩ :=
    sync_converges_iff Tools.small ⟨true, false⟩ ⟨true, false⟩ true [⟨[0x61], [1]⟩] [⟨[0x62], [2]⟩]
      (by decide) (by decide)
      (fun f hf => Tools.small_identifies (by rw [mem_singleton.mp hf]; decide)) _ c hrun
      hc
  exact ⟨_, c, disk, hrun, ⟨more, d, hmore, hall more d hmore hfinal⟩, hconverged.mpr (by decide)⟩

/-- **A path that is not removed.** The remote directory has a file `a..b` that the local one does not
have; with `--delete` both sides succeed, and it stays. -/
theorem refused_path_stays :
    ∃ sides c disk, exec (Dialogue.step (syncPush Tools.small ⟨false, false⟩ true [⟨[0x61], [1]⟩])
        (syncRecvPush Tools.small ⟨false, false⟩ true [⟨[0x61, 0x2e, 0x2e, 0x62], [2]⟩]))
        (.start .start .start) sides = some c ∧
      c.left.result (syncPush Tools.small ⟨false, false⟩ true [⟨[0x61], [1]⟩]) = some (.ok ()) ∧
      c.right.result (syncRecvPush Tools.small ⟨false, false⟩ true [⟨[0x61, 0x2e, 0x2e, 0x62], [2]⟩])
        = some (.ok disk) ∧
      ¬Converged true [⟨[0x61], [1]⟩] [⟨[0x61, 0x2e, 0x2e, 0x62], [2]⟩] disk := by
  refine exists_run_of_any (p := fun disk => disk [0x61, 0x2e, 0x2e, 0x62] = some [2])
    [(.left, 2), (.right, 3), (.left, 5), (.right, 5), (.left, 6), (.right, 5)] (by decide +kernel) ?_
  rintro disk hdisk ⟨-, heq⟩
  have hstays : disk [0x61, 0x2e, 0x2e, 0x62] = some [2] := of_decide_eq_true hdisk
  have hgone : disk [0x61, 0x2e, 0x2e, 0x62] = none := congrFun heq [0x61, 0x2e, 0x2e, 0x62]
  rw [hstays] at hgone
  cases hgone

end SeamProtocol
