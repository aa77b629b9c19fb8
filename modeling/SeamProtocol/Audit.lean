import SeamProtocol.Lib.Json

/-! # The audit log

The lines of a log form a chain: each has a hash over the line before and its own text. The program that
writes a line hashes its members in the order of a structure's fields, the one that checks it in the
order of their keys. -/

namespace SeamProtocol

open Lib List Json

/-! ## Entries -/

structure AuditEntry where
  ts : Text
  subcommand : Text
  remote : Text
  args : List Text
  exitCode : Option Int
  bytesTx : Option Nat
  fipsMode : Bool
  pid : Nat

def hashKey : Text := ['h', 'a', 's', 'h']

namespace AuditEntry

def members (e : AuditEntry) : List (Text × Json) :=
  [(['t', 's'], .str e.ts),
    (['s', 'u', 'b', 'c', 'o', 'm', 'm', 'a', 'n', 'd'], .str e.subcommand),
    (['r', 'e', 'm', 'o', 't', 'e'], .str e.remote),
    (['a', 'r', 'g', 's'], .arr (e.args.map .str))]
  ++ (e.exitCode.map fun n => (['e', 'x', 'i', 't', '_', 'c', 'o', 'd', 'e'], Json.num n)).toList
  ++ (e.bytesTx.map fun n => (['b', 'y', 't', 'e', 's', '_', 't', 'x'], Json.num n)).toList
  ++ [(['f', 'i', 'p', 's', '_', 'm', 'o', 'd', 'e'], .bool e.fipsMode),
    (['p', 'i', 'd'], .num e.pid)]

def json (e : AuditEntry) : Text := (Json.obj e.members).print

def sortedJson (e : AuditEntry) : Text := (Json.obj e.members).sorted.print

def line (e : AuditEntry) (hash : Bytes) : Text :=
  if e.json.getLast? = some '}' then
    e.json.dropLast ++ [',', '"', 'h', 'a', 's', 'h', '"', ':', '"'] ++ hexEncode hash ++ ['"', '}']
  else e.json

end AuditEntry

/-! ## Writing -/

def zeroHash : Bytes := List.replicate 32 0

def readLastLine (file : Bytes) : Option Text :=
  if file = [] then none else (fromUtf8 (file.drop (file.length - 2048))).map lastLine

def storedHash (R : Json.Reader) (line : Text) : Option Bytes :=
  (R.parse line).bind fun rec => ((rec.get? hashKey).bind Json.asStr).bind fun hex =>
    (hexDecode hex).filter fun bytes => bytes.length = 32

def prevHash (R : Json.Reader) (log : Option Bytes) : Bytes :=
  ((log.bind readLastLine).bind (storedHash R)).getD zeroHash

def appendEntry (hash : Bytes → Bytes) (R : Json.Reader) (log : Option Bytes) (e : AuditEntry) :
    Option Bytes :=
  some (log.getD [] ++ utf8 (e.line (hash (prevHash R log ++ utf8 e.json)) ++ ['\n']))

def written (hash : Bytes → Bytes) (R : Json.Reader) (entries : List AuditEntry) : Option Bytes :=
  entries.foldl (appendEntry hash R) none

/-! ## Checking -/

structure VerifyState where
  prevHash : Bytes
  total : Nat
  ok : Nat
  skipped : Nat
  failed : Nat

def VerifyState.start : VerifyState := ⟨zeroHash, 0, 0, 0, 0⟩

def verifyLine (hash : Bytes → Bytes) (R : Json.Reader) (s : VerifyState) (raw : Text) : VerifyState :=
  if trim raw = [] then s
  else
    match R.parse (trim raw) with
    | none => { s with total := s.total + 1, failed := s.failed + 1 }
    | some val =>
      match (val.get? hashKey).bind Json.asStr with
      -- an entry that is older than the chain
      | none => { s with prevHash := zeroHash, total := s.total + 1, skipped := s.skipped + 1 }
      | some stored =>
        let expected := hash (s.prevHash ++ utf8 (val.remove hashKey).print)
        if hexEncode expected = stored then
          { s with prevHash := expected, total := s.total + 1, ok := s.ok + 1 }
        else
          { s with
            prevHash := ((hexDecode stored).filter fun bytes => bytes.length = 32).getD s.prevHash
            total := s.total + 1
            failed := s.failed + 1 }

inductive AuditError where
  | unreadable
  | broken (failed : Nat)
  deriving DecidableEq

structure Verification where
  report : VerifyState
  result : Except AuditError Unit

def runVerify (hash : Bytes → Bytes) (R : Json.Reader) : Option Bytes → Verification
  | none => ⟨.start, .ok ()⟩
  | some file =>
    match fromUtf8 file with
    | none => ⟨.start, .error .unreadable⟩
    | some text =>
      let s := (lines text).foldl (verifyLine hash R) .start
      ⟨s, if 0 < s.failed then .error (.broken s.failed) else .ok ()⟩

/-! ## What a log is for -/

structure Verification.Complete (v : Verification) (entries : Nat) : Prop where
  total : v.report.total = entries
  ok : v.report.ok = entries
  skipped : v.report.skipped = 0
  result : v.result = .ok ()

def logLines (log : Option Bytes) : List Text := ((log.bind fromUtf8).map lines).getD []

/-- **A line was altered or removed**: one whose value is another, but for its hash, has taken the place
of a line, or a line that is not the last is missing. -/
inductive Tampered (R : Json.Reader) : List Text → List Text → Prop
  | altered {before after : List Text} {line line' : Text} {v v' : Json} :
      R.parse line = some v → R.parse line' = some v' → '\n' ∉ line' →
      v'.get? hashKey = v.get? hashKey → v'.remove hashKey ≠ v.remove hashKey →
      Tampered R (before ++ line :: after) (before ++ line' :: after)
  | removed {before after : List Text} {line : Text} :
      after ≠ [] → Tampered R (before ++ line :: after) (before ++ after)

structure Trustworthy (hash : Bytes → Bytes) (R : Json.Reader) (entries : List AuditEntry) : Prop where
  complete : (runVerify hash R (written hash R entries)).Complete entries.length
  detects : ∀ ls, Tampered R (logLines (written hash R entries)) ls →
    ∃ err, (runVerify hash R (some (utf8 (unlines ls)))).result = .error err

/-! ## The line of an entry -/

namespace AuditEntry

def record (e : AuditEntry) (hash : Bytes) : Json :=
  .obj (e.members ++ [(hashKey, .str (hexEncode hash))])

variable (e : AuditEntry)

theorem line_eq (hash : Bytes) : e.line hash = (e.record hash).print := by
  obtain ⟨t, ht⟩ := print_obj_eq_concat e.members
  have hlast : e.json.getLast? = some '}' := by
    rw [json, ht]
    exact getLast?_concat
  have hrecord : (e.record hash).print = e.json.dropLast
      ++ (',' :: printKey hashKey ++ (str (hexEncode hash)).print ++ ['}']) :=
    print_obj_concat (['t', 's'], .str e.ts) e.members.tail hashKey (.str (hexEncode hash))
  rw [line, if_pos hlast, hrecord, print, printString_hexEncode]
  simp only [append_assoc, cons_append]
  rfl

theorem line_eq_concat (hash : Bytes) : ∃ t, e.line hash = '{' :: t ++ ['}'] := by
  rw [line_eq]
  exact print_obj_eq_concat _

theorem newline_not_mem_line (hash : Bytes) : '\n' ∉ e.line hash := by
  rw [line_eq]
  exact newline_not_mem_print _

theorem remove_hash (hash : Bytes) : ((e.record hash).sorted.remove hashKey).print = e.sortedJson := by
  obtain ⟨ts, subcommand, remote, args, exitCode, bytesTx, fipsMode, pid⟩ := e
  cases exitCode <;> cases bytesTx <;> rfl

theorem get_hash (hash : Bytes) :
    ((e.record hash).sorted.get? hashKey).bind asStr = some (hexEncode hash) := by
  obtain ⟨ts, subcommand, remote, args, exitCode, bytesTx, fipsMode, pid⟩ := e
  cases exitCode <;> cases bytesTx <;> rfl

theorem sortedJson_eq : ∃ t, e.sortedJson = '{' :: '"' :: 'a' :: t := by
  obtain ⟨ts, subcommand, remote, args, exitCode, bytesTx, fipsMode, pid⟩ := e
  cases exitCode <;> cases bytesTx <;> exact ⟨_, rfl⟩

theorem utf8_json_ne : utf8 e.json ≠ utf8 e.sortedJson := by
  have hjson : ∃ t, e.json = '{' :: '"' :: 't' :: t := ⟨_, rfl⟩
  obtain ⟨t, ht⟩ := hjson
  obtain ⟨u, hu⟩ := e.sortedJson_eq
  rw [ht, hu]
  exact nofun

end AuditEntry

/-! ## The first line -/

section FirstLine

variable {hash : Bytes → Bytes} {R : Json.Reader}

def AuditEntry.firstHash (hash : Bytes → Bytes) (e : AuditEntry) : Bytes :=
  hash (zeroHash ++ utf8 e.json)

def AuditEntry.expectedHash (hash : Bytes → Bytes) (e : AuditEntry) : Bytes :=
  hash (zeroHash ++ utf8 e.sortedJson)

theorem foldl_appendEntry (entries : List AuditEntry) (t : Text) :
    ∃ u, entries.foldl (appendEntry hash R) (some (utf8 t)) = some (utf8 (t ++ u)) := by
  induction entries generalizing t with
  | nil => exact ⟨[], by rw [append_nil]; rfl⟩
  | cons e entries ih =>
    rw [foldl_cons, appendEntry, Option.getD_some, ← utf8_append]
    obtain ⟨u, hu⟩ := ih (t ++ (e.line _ ++ ['\n']))
    exact ⟨_, by rw [hu, append_assoc]⟩

variable (e : AuditEntry)

theorem written_cons (entries : List AuditEntry) :
    ∃ u, written hash R (e :: entries) = some (utf8 (e.line (e.firstHash hash) ++ '\n' :: u)) := by
  have hrest : ∀ t, ∃ u, entries.foldl (appendEntry hash R) (some (utf8 t)) = some (utf8 (t ++ u)) :=
    foldl_appendEntry entries
  obtain ⟨u, hu⟩ := hrest (e.line (e.firstHash hash) ++ ['\n'])
  have hfirst : appendEntry hash R none e = some (utf8 (e.line (e.firstHash hash) ++ ['\n'])) := rfl
  refine ⟨u, ?_⟩
  simp [written, hfirst, hu]

theorem failed_le_verifyLine (s : VerifyState) (raw : Text) :
    s.failed ≤ (verifyLine hash R s raw).failed := by
  unfold verifyLine
  split_ifs with hempty
  · exact le_rfl
  · split
    · exact Nat.le_succ _
    · split
      · exact le_rfl
      · dsimp only
        split_ifs
        · exact le_rfl
        · exact Nat.le_succ _

theorem failed_le_foldl (ls : List Text) (s : VerifyState) :
    s.failed ≤ (ls.foldl (verifyLine hash R) s).failed := by
  induction ls generalizing s with
  | nil => exact le_rfl
  | cons raw ls ih => exact (failed_le_verifyLine s raw).trans (ih _)

open AuditEntry

theorem verifyLine_first (hne : e.firstHash hash ≠ e.expectedHash hash) :
    (verifyLine hash R .start (e.line (e.firstHash hash))).failed = 1 := by
  obtain ⟨t, ht⟩ := e.line_eq_concat (e.firstHash hash)
  have htrim : trim (e.line (e.firstHash hash)) = e.line (e.firstHash hash) := by
    rw [ht]
    refine trim_eq_self ?_ ?_
    · intro c hc
      rw [← Option.some.inj hc]
      rfl
    · intro c hc
      rw [getLast?_concat] at hc
      rw [← Option.some.inj hc]
      rfl
  have hempty : e.line (e.firstHash hash) ≠ [] := by
    rw [ht]
    exact nofun
  have hdiffer : hexEncode (e.expectedHash hash) ≠ hexEncode (e.firstHash hash) :=
    fun heq => hne (hexEncode_injective heq).symm
  unfold verifyLine
  rw [htrim, if_neg hempty, line_eq, R.parse_print]
  dsimp only
  rw [get_hash]
  rw [remove_hash]
  exact congrArg VerifyState.failed (if_neg hdiffer)

theorem runVerify_cons (entries : List AuditEntry) (hne : e.firstHash hash ≠ e.expectedHash hash) :
    ∃ err, (runVerify hash R (written hash R (e :: entries))).result = .error err := by
  have hwritten : ∃ u, written hash R (e :: entries)
      = some (utf8 (e.line (e.firstHash hash) ++ '\n' :: u)) := written_cons e entries
  obtain ⟨u, hu⟩ := hwritten
  have hcr : stripCr (e.line (e.firstHash hash)) = e.line (e.firstHash hash) := by
    obtain ⟨t, ht⟩ := e.line_eq_concat (e.firstHash hash)
    rw [ht]
    exact stripCr_concat (by decide) _
  have hfailed : 0 < ((lines (e.line (e.firstHash hash) ++ '\n' :: u)).foldl
      (verifyLine hash R) .start).failed := by
    rw [lines_append _ u (e.newline_not_mem_line _), hcr, foldl_cons]
    refine lt_of_lt_of_le ?_ (failed_le_foldl (lines u) _)
    rw [verifyLine_first e hne]
    exact Nat.one_pos
  rw [hu, runVerify, fromUtf8_utf8]
  dsimp only
  rw [if_pos hfailed]
  exact ⟨_, rfl⟩

end FirstLine

/-! ## The log -/

theorem trustworthy_nil (hash : Bytes → Bytes) (R : Json.Reader) : Trustworthy hash R [] := by
  refine ⟨⟨rfl, rfl, rfl, rfl⟩, ?_⟩
  intro ls htampered
  have hnil : logLines (written hash R []) = [] := rfl
  rw [hnil] at htampered
  generalize hold : ([] : List Text) = old at htampered
  cases htampered with
  | altered _ _ _ _ _ | removed _ => exact absurd hold.symm (append_ne_nil_of_right_ne_nil _ nofun)

/-- **Only the log without any entry is trustworthy**, if the hash tells the two texts of an entry
apart. -/
theorem trustworthy_iff (hash : Bytes → Bytes) (R : Json.Reader) (entries : List AuditEntry)
    (hcollision : ∀ e ∈ entries, hash (zeroHash ++ utf8 e.json) = hash (zeroHash ++ utf8 e.sortedJson) →
      zeroHash ++ utf8 e.json = zeroHash ++ utf8 e.sortedJson) :
    Trustworthy hash R entries ↔ entries = [] := by
  constructor
  · intro htrust
    cases entries with
    | nil => rfl
    | cons e entries =>
      have hne : e.firstHash hash ≠ e.expectedHash hash := by
        intro heq
        exact e.utf8_json_ne (append_cancel_left (hcollision e mem_cons_self heq))
      obtain ⟨err, herr⟩ := runVerify_cons (R := R) e entries hne
      rw [htrust.complete.result] at herr
      cases herr
  · rintro rfl
    exact trustworthy_nil hash R

def tailHash (data : Bytes) : Bytes := (data.drop 32 ++ zeroHash).take 32

def lsEntry : AuditEntry :=
  ⟨['t'], ['l', 's'], ['h'], [], some 0, none, false, 7⟩

theorem lsEntry_firstHash : lsEntry.firstHash tailHash ≠ lsEntry.expectedHash tailHash := by
  decide +kernel

/-- The log with this entry is not trustworthy. -/
theorem one_entry_not_trustworthy :
    (∀ e ∈ [lsEntry], tailHash (zeroHash ++ utf8 e.json) = tailHash (zeroHash ++ utf8 e.sortedJson) →
      zeroHash ++ utf8 e.json = zeroHash ++ utf8 e.sortedJson)
    ∧ (Trustworthy tailHash Json.reader [lsEntry] ↔ [lsEntry] = []) := by
  have hcollision : ∀ e ∈ [lsEntry],
      tailHash (zeroHash ++ utf8 e.json) = tailHash (zeroHash ++ utf8 e.sortedJson) →
        zeroHash ++ utf8 e.json = zeroHash ++ utf8 e.sortedJson := by
    intro e he heq
    rw [mem_singleton.mp he] at heq
    exact absurd heq lsEntry_firstHash
  exact ⟨hcollision, trustworthy_iff tailHash Json.reader [lsEntry] hcollision⟩

/-- **A log with one entry does not verify.** -/
theorem first_entry_fails :
    (∃ err, (runVerify tailHash Json.reader (written tailHash Json.reader [lsEntry])).result
      = .error err)
    ∧ ¬ Trustworthy tailHash Json.reader [lsEntry] := by
  obtain ⟨err, hresult⟩ := runVerify_cons (R := Json.reader) lsEntry [] lsEntry_firstHash
  refine ⟨⟨err, hresult⟩, ?_⟩
  intro htrust
  rw [htrust.complete.result] at hresult
  cases hresult

end SeamProtocol
