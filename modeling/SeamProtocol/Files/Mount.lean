import SeamProtocol.Files.Frame
import SeamProtocol.Lib.Path

/-! # The requests of mount

The server checks paths as texts: two dots in a row are refused, and a path has to begin with the root. -/

namespace SeamProtocol

open Lib Path List

/-! ## Paths -/

def hasDots : Bytes → Bool
  | [] => false
  | c :: rest => (c = dot && rest.head? = some dot) || hasDots rest

inductive MountError where
  | dots (requested : Bytes)
  | escapes (requested root : Bytes)

def validatePath (root requested : Bytes) : Except MountError Bytes :=
  if hasDots requested then .error (.dots requested)
  else if root.isPrefixOf requested then .ok requested
  else .error (.escapes requested root)

def joinPath (parent name : Bytes) : Bytes :=
  if parent.getLast? = some slash then parent ++ name else parent ++ slash :: name

def BelowRoot (root requested : Bytes) : Prop :=
  hasRoot root = hasRoot requested ∧ segments root <+: segments requested

def lastPart : Bytes → Bytes
  | [] => []
  | c :: rest => if slash ∈ rest then lastPart rest else if c = slash then rest else c :: rest

def AtBoundary (root requested : Bytes) : Prop :=
  match root, requested.drop root.length with
  | [], rest => rest.head? ≠ some slash
  | root, rest => rest = [] ∨ rest.head? = some slash ∨ skipped (lastPart root)

variable {root requested : Bytes}

theorem hasDots_append_slash (p q : Bytes) : hasDots (p ++ slash :: q) = (hasDots p || hasDots q) := by
  induction p with
  | nil => rfl
  | cons c p ih =>
    have hhead : decide ((p ++ slash :: q).head? = some dot) = decide (p.head? = some dot) := by
      cases p <;> simp [slash, dot]
    rw [cons_append, hasDots, hasDots, ih, hhead, Bool.or_assoc]

theorem hasDots_joinPath (parent name : Bytes) :
    hasDots (joinPath parent name) = (hasDots parent || hasDots name) := by
  unfold joinPath
  split_ifs with hlast
  · obtain ⟨front, rfl⟩ := getLast?_eq_some_iff.mp hlast
    have hfront := hasDots_append_slash front []
    rw [append_assoc, singleton_append, hasDots_append_slash, hfront]
    simp [hasDots]
  · exact hasDots_append_slash parent name

theorem hasDots_foldl (names : List Bytes) :
    hasDots (names.foldl joinPath root) = (hasDots root || names.any hasDots) := by
  induction names generalizing root with
  | nil => simp
  | cons name names ih => rw [foldl_cons, ih, hasDots_joinPath, any_cons, Bool.or_assoc]

theorem isPrefix_foldl (names : List Bytes) : root <+: names.foldl joinPath root := by
  induction names generalizing root with
  | nil => exact prefix_rfl
  | cons name names ih =>
    refine IsPrefix.trans ?_ ih
    unfold joinPath
    split_ifs <;> exact prefix_append _ _

variable {p : Bytes}

theorem validatePath_eq_ok :
    validatePath root requested = .ok p ↔ ¬ hasDots requested ∧ root <+: requested ∧ requested = p := by
  unfold validatePath
  split_ifs with hdots hpre
  · simp [hdots]
  · simp [hdots, isPrefixOf_iff_prefix.mp hpre]
  · have hnot : ¬ root <+: requested := fun h => hpre <| isPrefixOf_iff_prefix.mpr h
    simp [hnot]

theorem slash_notMem_lastPart (p : Bytes) : slash ∉ lastPart p := by
  induction p with
  | nil => exact not_mem_nil
  | cons c rest ih =>
    rw [lastPart]
    split_ifs with hmem hc
    · exact ih
    · exact hmem
    · simp [hmem, Ne.symm hc]

theorem exists_eq_append_lastPart (p : Bytes) :
    lastPart p = p ∨ ∃ before, p = before ++ slash :: lastPart p := by
  induction p with
  | nil => exact .inl rfl
  | cons c rest ih =>
    rw [lastPart]
    split_ifs with hmem hc
    · obtain heq | ⟨before, heq⟩ := ih
      · rw [← heq] at hmem
        exact absurd hmem (slash_notMem_lastPart rest)
      · exact .inr ⟨c :: before, congrArg (c :: ·) heq⟩
    · exact .inr ⟨[], by rw [hc, nil_append]⟩
    · exact .inl rfl

theorem exists_segments_append (p : Bytes) :
    ∃ front, ∀ q, segments (p ++ q) = front ++ segments (lastPart p ++ q) := by
  obtain hp | ⟨before, hp⟩ := exists_eq_append_lastPart p
  · exact ⟨[], fun q => by rw [hp, nil_append]⟩
  · refine ⟨segments before, fun q => ?_⟩
    conv_lhs => rw [hp, append_assoc, cons_append, segments_append_slash]

theorem segments_of_skipped (h : skipped p) : segments p = [] := by
  obtain rfl | rfl : p = [] ∨ p = [dot] := by simpa [skipped] using h
  · rfl
  · decide

theorem segments_longer {part : Bytes} (hpart : slash ∉ part) (hskip : ¬ skipped part) {c : UInt8}
    (hc : c ≠ slash) (rest : Bytes) :
    ∃ more first, segments (part ++ c :: rest) = (part ++ c :: first) :: more := by
  have hone : ∀ first, slash ∉ first → segments (part ++ c :: first) = [part ++ c :: first] := by
    intro first hfirst
    refine segments_of_notMem (by simp [hpart, hfirst, Ne.symm hc]) ?_
    obtain _ | ⟨d, part⟩ := part
    · exact absurd rfl hskip
    · simp [skipped]
  by_cases hmem : slash ∈ rest
  · obtain ⟨first, after, rfl, hfirst⟩ := eq_append_cons_of_mem hmem
    refine ⟨segments after, first, ?_⟩
    rw [← cons_append, ← append_assoc, segments_append_slash, hone first hfirst, singleton_append]
  · exact ⟨[], rest, hone rest hmem⟩

theorem segments_isPrefix_iff (p rest : Bytes) : segments p <+: segments (p ++ rest)
    ↔ rest = [] ∨ rest.head? = some slash ∨ skipped (lastPart p) := by
  obtain _ | ⟨c, rest⟩ := rest
  · simp
  by_cases hc : c = slash
  · simp [hc, segments_append_slash]
  obtain ⟨front, hfront⟩ := exists_segments_append p
  have hp := hfront []
  rw [append_nil, append_nil] at hp
  rw [hp, hfront, prefix_append_right_inj]
  by_cases hskip : skipped (lastPart p)
  · simp [hskip, segments_of_skipped]
  obtain ⟨more, first, hlonger⟩ := segments_longer (slash_notMem_lastPart p) hskip hc rest
  rw [segments_of_notMem (slash_notMem_lastPart p) (by simpa using hskip), hlonger]
  simp [hc, hskip]

theorem below_iff (h : root <+: requested) : BelowRoot root requested ↔ AtBoundary root requested := by
  obtain ⟨rest, rfl⟩ := h
  cases root with
  | nil => simp [BelowRoot, AtBoundary, hasRoot]
  | cons c root =>
    rw [BelowRoot, segments_isPrefix_iff]
    simp [AtBoundary, hasRoot]

/-- **Paths.** The path of a list of names is accepted, and an accepted one is below the root, exactly
if neither the root nor a name has two dots in a row, and the accepted path goes on after the root
with a slash. -/
theorem mount_paths_iff (root : Bytes) (names : List Bytes) (requested : Bytes) :
    ((∃ p, validatePath root (names.foldl joinPath root) = .ok p)
      ∧ ((∃ p, validatePath root requested = .ok p) → BelowRoot root requested))
    ↔ (¬ hasDots root ∧ ∀ name ∈ names, ¬ hasDots name)
      ∧ ((∃ p, validatePath root requested = .ok p) → AtBoundary root requested) := by
  refine and_congr ?_ (forall_congr' fun ⟨p, hp⟩ => below_iff (validatePath_eq_ok.mp hp).2.1)
  simp [validatePath_eq_ok, hasDots_foldl, isPrefix_foldl]

theorem sibling_accepted :
    (∃ e, validatePath [slash, 0x61] ([[0x62, dot, dot]].foldl joinPath [slash, 0x61])
      = .error e) ∧ validatePath [slash, 0x61] [slash, 0x61, 0x62] = .ok [slash, 0x61, 0x62]
    ∧ ¬ BelowRoot [slash, 0x61] [slash, 0x61, 0x62] :=
  ⟨⟨_, rfl⟩, rfl, fun h => absurd h.2 (by decide)⟩

/-! ## Answers -/

/-- The file system that a request meets; `reads` are the results of reading the file, until its end. -/
structure RemoteFiles where
  metadata : Bytes → Option (Nat × UInt32)
  readDir : Bytes → Option (List (Bytes × Option (Nat × UInt32)))
  opens : Bytes → Bool
  reads : Bytes → List (Option Bytes)

inductive MountFrame where
  | entry (name : Bytes) (size : Nat) (mode : UInt32)
  | done
  | fileInfo (size : Nat) (name : Bytes)
  | data (chunk : Bytes)
  | checksum (digest : Bytes)

inductive MountRequest where
  | statPath (path : Bytes)
  | lsPath (path : Bytes)
  | getPath (path : Bytes)

def nameOf (path : Bytes) : Bytes := (fileName path).getD []

def handleStatPath (root : Bytes) (fs : RemoteFiles) (path : Bytes) : List MountFrame :=
  match validatePath root path with
  | .error _ => [.done]
  | .ok path => ((fs.metadata path).map fun m => .entry (nameOf path) m.1 m.2).toList ++ [.done]

def handleLsPath (root : Bytes) (fs : RemoteFiles) (path : Bytes) : List MountFrame :=
  match validatePath root path with
  | .error _ => [.done]
  | .ok path =>
    ((fs.readDir path).getD []).filterMap (fun e => e.2.map fun m => .entry e.1 m.1 m.2) ++ [.done]

def sendChunks (size : Nat) : Nat → List (Option Bytes) → List MountFrame × Option Bytes
  | _, [] => ([], some [])
  | sent, r :: reads =>
    if sent < size then
      match r with
      | none => ([], none)
      | some [] => ([], some [])
      | some chunk =>
        let (frames, rest) := sendChunks size (sent + chunk.length) reads
        (.data chunk :: frames, rest.map (chunk ++ ·))
    else ([], some [])

def handleGetPath (T : Tools) (root : Bytes) (fs : RemoteFiles) (path : Bytes) : List MountFrame :=
  match validatePath root path with
  | .error _ => []
  | .ok path =>
    match fs.metadata path with
    | none => []
    | some (size, _) =>
      .fileInfo size (nameOf path) :: if fs.opens path then
        let (frames, content) := sendChunks size 0 (fs.reads path)
        frames ++ (content.map fun content => .checksum (T.hash false content)).toList
      else []

def handleRequest (T : Tools) (root : Bytes) (fs : RemoteFiles) : MountRequest → List MountFrame
  | .statPath path => handleStatPath root fs path
  | .lsPath path => handleLsPath root fs path
  | .getPath path => handleGetPath T root fs path

inductive MountReply where
  | entry (e : Option (Bytes × Nat × UInt32))
  | entries (es : List (Bytes × Nat × UInt32))
  | content (content : Bytes)
  | failed

/-- `stat_path` reads one frame; here and below `none` says that it waits for ever. -/
def readStat : List MountFrame → Option MountReply
  | [] => none
  | .entry name size mode :: _ => some (.entry (some (name, size, mode)))
  | _ :: _ => some (.entry none)

def readLs (entries : List (Bytes × Nat × UInt32)) : List MountFrame → Option MountReply
  | [] => none
  | .entry name size mode :: frames => readLs (entries ++ [(name, size, mode)]) frames
  | _ :: _ => some (.entries entries)

def readContent (T : Tools) (size : Nat) (content : Bytes) : List MountFrame → Option MountReply
  | [] => none
  | frame :: frames =>
    if content.length < size then
      match frame with
      | .data chunk => readContent T size (content ++ chunk) frames
      | _ => some .failed
    else
      match frame with
      | .checksum digest => some (if T.hash false content = digest then .content content else .failed)
      | _ => some (.content content)

def readGet (T : Tools) : List MountFrame → Option MountReply
  | [] => none
  | .fileInfo size _ :: frames => readContent T size [] frames
  | _ :: _ => some .failed

def MountRequest.reply (T : Tools) (frames : List MountFrame) : MountRequest → Option MountReply
  | .statPath _ => readStat frames
  | .lsPath _ => readLs [] frames
  | .getPath _ => readGet T frames

/-- The replies to requests one after the other, up to the first one that never comes. -/
def replies (T : Tools) (root : Bytes) : List (RemoteFiles × MountRequest) → List MountReply
  | [] => []
  | (fs, request) :: rest =>
    match request.reply T (handleRequest T root fs request) with
    | none => []
    | some reply => reply :: replies T root rest

/-- The file can be read: its path is accepted, it is there, and neither opening nor reading it fails.
-/
def CanGet (root : Bytes) (fs : RemoteFiles) : MountRequest → Prop
  | .getPath path => ∃ p size mode, validatePath root path = .ok p ∧ fs.metadata p = some (size, mode)
      ∧ fs.opens p ∧ (sendChunks size 0 (fs.reads p)).2.isSome
  | _ => True

variable {T : Tools} {fs : RemoteFiles}

theorem isSome_readLs (es : List (Bytes × Nat × UInt32)) (entries : List MountFrame) :
    (readLs es (entries ++ [.done])).isSome := by
  induction entries generalizing es with
  | nil => rfl
  | cons frame entries ih =>
    cases frame with
    | entry name size mode => exact ih _
    | _ => rfl

theorem isSome_readContent (size : Nat) (reads : List (Option Bytes)) (content : Bytes)
    (digest : Bytes → Bytes) : (readContent T size content ((sendChunks size content.length reads).1
        ++ ((sendChunks size content.length reads).2.map fun c => .checksum (digest c)).toList)).isSome
      = (sendChunks size content.length reads).2.isSome := by
  induction reads generalizing content digest with
  | nil => by_cases hlt : content.length < size <;> simp [sendChunks, readContent, hlt]
  | cons r reads ih =>
    by_cases hlt : content.length < size
    · match r with
      | none | some [] => simp [sendChunks, readContent, hlt]
      | some (b :: chunk) =>
        have hih := ih (content ++ b :: chunk) fun c => digest (b :: chunk ++ c)
        simpa [sendChunks, readContent, hlt, Function.comp_def] using hih
    · simp [sendChunks, readContent, hlt]

open MountRequest

theorem isSome_reply_iff (request : MountRequest) :
    (request.reply T (handleRequest T root fs request)).isSome ↔ CanGet root fs request := by
  cases request with
  | statPath path =>
    simp only [reply, handleRequest, handleStatPath, CanGet, iff_true]
    split
    · rfl
    · next p _ => cases fs.metadata p <;> rfl
  | lsPath path =>
    simp only [reply, handleRequest, handleLsPath, CanGet, iff_true]
    split
    · rfl
    · exact isSome_readLs _ _
  | getPath path =>
    simp only [reply, handleRequest, handleGetPath, CanGet]
    cases hpath : validatePath root path with
    | error e => simp [readGet]
    | ok p =>
      cases hmeta : fs.metadata p with
      | none => simp [readGet, hmeta]
      | some m =>
        obtain ⟨size, mode⟩ := m
        have hread := isSome_readContent (T := T) size (fs.reads p) [] (T.hash false)
        by_cases hopen : fs.opens p
        · rw [length_nil] at hread
          simp [readGet, hmeta, hopen, hread]
        · simp [readGet, readContent, hmeta, hopen]

end SeamProtocol
