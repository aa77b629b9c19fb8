import Mathlib.Data.Char
import Mathlib.Data.List.Lex
import SeamProtocol.Files.Frame
import SeamProtocol.Lib.SortedMap
import SeamProtocol.Lib.Text

/-! # Known hosts

A table of the fingerprints of hosts, kept in a text file. The first key that a host presents is pinned. -/

namespace SeamProtocol

open Lib List SortedMap

/-! ## The file -/

abbrev PinTable := SortedMap Text Text

def parsePin (raw : Text) : Option (Text × Text) :=
  let line := trim raw
  if line = [] ∨ line.head? = some '#' then none
  else
    match line.dropWhile (· ≠ ' ') with
    | [] => none
    | _ :: fp => some (line.takeWhile (· ≠ ' '), trim fp)

def loadPin (pins : PinTable) (raw : Text) : PinTable :=
  match parsePin raw with
  | none => pins
  | some (host, fp) => pins.insert host fp

def loadPins (file : Option Bytes) : PinTable :=
  match file.bind fromUtf8 with
  | none => ∅
  | some text => (lines text).foldl loadPin ∅

def pinsHeader : List Text :=
  ["# Seam known_hosts — DO NOT EDIT manually unless you know what you are doing.".toList,
    "# Format: <host> <sha256-of-x25519-public-key-hex>".toList]

def pinLine (e : Text × Text) : Text := e.1 ++ ' ' :: e.2

def savePins (pins : PinTable) : Bytes := utf8 (unlines (pinsHeader ++ pins.entries.map pinLine))

/-! ## Verification -/

inductive PinPolicy where
  | enforce
  | trustOnFirstUse
  | insecureIgnore
  deriving DecidableEq

inductive PinError where
  | mismatch (host : Text)
  deriving DecidableEq

def fingerprint (T : Tools) (key : Bytes) : Text := hexEncode (T.hash true key)

def verifyOrPinLocked (host fp : Text) (file : Option Bytes) : Except PinError Unit × Option Bytes :=
  match (loadPins file).get? host with
  | some pinned => if pinned = fp then (.ok (), file) else (.error (.mismatch host), file)
  | none => (.ok (), some (savePins ((loadPins file).insert host fp)))

def verifyOrPin (T : Tools) (host : Text) (key : Bytes) (policy : PinPolicy) (file : Option Bytes) :
    Except PinError Unit × Option Bytes :=
  if policy = .insecureIgnore then (.ok (), file)
  else verifyOrPinLocked host (fingerprint T key) file

/-! ## What the file can hold -/

/-- Hosts that the file can hold: they do not begin with white space or a number sign, and there is no
space and no line break in them. -/
structure Recordable (host : Text) : Prop where
  /-- There is a first character, which neither is white space nor begins a comment. -/
  head : ∃ c rest, host = c :: rest ∧ isWhite c = false ∧ c ≠ '#'
  space : ' ' ∉ host
  newline : '\n' ∉ host

structure Storable (fp : Text) : Prop where
  ne_nil : fp ≠ []
  trim : trim fp = fp
  newline : '\n' ∉ fp

def Held (pins : PinTable) : Prop :=
  ∀ host fp, pins.get? host = some fp → Recordable host ∧ Storable fp

variable {host fp raw : Text}

theorem parsePin_eq_some (hparse : parsePin raw = some (host, fp)) :
    (trim raw).head? ≠ some '#' ∧ ' ' ∉ host
      ∧ ∃ rest, trim raw = host ++ ' ' :: rest ∧ fp = trim rest := by
  unfold parsePin at hparse
  dsimp only at hparse
  split_ifs at hparse with hskip
  rw [not_or] at hskip
  have hsplit := takeWhile_append_dropWhile (p := fun c => decide (c ≠ ' ')) (l := trim raw)
  cases hcase : (trim raw).dropWhile (· ≠ ' ') with
  | nil =>
    rw [hcase] at hparse
    cases hparse
  | cons c rest =>
    rw [hcase] at hparse hsplit
    cases hparse
    have hc := head?_dropWhile_not (fun c => decide (c ≠ ' ')) (trim raw)
    rw [hcase] at hc
    have hspace : c = ' ' := not_not.mp (of_decide_eq_false hc)
    refine ⟨hskip.2, ?_, rest, ?_, rfl⟩
    · intro hmem
      have hne := mem_takeWhile_imp hmem
      simp at hne
    · rw [hspace] at hsplit
      exact hsplit.symm

theorem held_of_parsePin (hraw : '\n' ∉ raw) (hparse : parsePin raw = some (host, fp)) :
    Recordable host ∧ Storable fp := by
  obtain ⟨hcomment, hspace, rest, hline, rfl⟩ := parsePin_eq_some hparse
  have hnewline : '\n' ∉ host ++ ' ' :: rest := fun hmem => hraw (mem_of_mem_trim (hline ▸ hmem))
  refine ⟨⟨?_, hspace, fun hmem => hnewline (mem_append_left _ hmem)⟩, ⟨?_, trim_trim rest, ?_⟩⟩
  · cases host with
    | nil =>
      -- a line does not begin with a space
      have hwhite : isWhite ' ' = false := isWhite_of_mem_head_trim (t := raw) (by rw [hline]; rfl)
      cases hwhite
    | cons c host =>
      refine ⟨c, host, rfl, isWhite_of_mem_head_trim (t := raw) (by rw [hline]; rfl), ?_⟩
      rintro rfl
      exact hcomment (by rw [hline]; rfl)
  · intro hnil
    -- nor does it end with one
    have hall : ∀ c ∈ ' ' :: rest, isWhite c = true := by
      simpa using ⟨rfl, isWhite_of_trim_eq_nil hnil⟩
    have hlast : (' ' :: rest).getLast? = some ((' ' :: rest).getLast nofun) :=
      getLast?_eq_some_getLast _
    have hwhite : isWhite ((' ' :: rest).getLast nofun) = false := by
      refine isWhite_of_mem_getLast_trim (t := raw) ?_
      simp [hline, hlast]
    rw [hall _ (getLast_mem _)] at hwhite
    cases hwhite
  · exact fun hmem => hnewline (mem_append_right _ (mem_cons_of_mem _ (mem_of_mem_trim hmem)))

theorem Storable.isWhite_getLast (hfp : Storable fp) {c : Char} (hc : c ∈ fp.getLast?) :
    isWhite c = false := by
  rw [← hfp.trim] at hc
  exact isWhite_of_mem_getLast_trim hc

theorem getLast?_pinLine (hfp : fp ≠ []) : (pinLine (host, fp)).getLast? = fp.getLast? := by
  rw [pinLine, getLast?_append, getLast?_cons, getLast?_eq_some_getLast hfp]
  rfl

theorem parsePin_pinLine (hhost : Recordable host) (hfp : Storable fp) :
    parsePin (pinLine (host, fp)) = some (host, fp) := by
  obtain ⟨c, rest, hcons, hwhite, hcomment⟩ := hhost.head
  have hhead : (pinLine (host, fp)).head? = some c := by
    rw [pinLine, hcons]
    rfl
  have htrim : trim (pinLine (host, fp)) = pinLine (host, fp) := by
    refine trim_eq_self ?_ ?_
    · intro d hd
      rw [hhead, Option.mem_some_iff] at hd
      rw [← hd]
      exact hwhite
    · intro d hd
      rw [getLast?_pinLine hfp.ne_nil] at hd
      exact hfp.isWhite_getLast hd
  have hbefore : ∀ d ∈ host, decide (d ≠ ' ') = true := by
    intro d hd
    refine decide_eq_true ?_
    rintro rfl
    exact hhost.space hd
  have hskip : ¬ (pinLine (host, fp) = [] ∨ (pinLine (host, fp)).head? = some '#') := by
    rw [hhead]
    rintro (hnil | hsharp)
    · rw [hnil] at hhead
      cases hhead
    · exact hcomment (Option.some.inj hsharp)
  unfold parsePin
  rw [htrim, if_neg hskip, pinLine, dropWhile_append_of_pos hbefore,
    takeWhile_append_of_pos hbefore]
  show some (host ++ [], trim fp) = _
  rw [append_nil, hfp.trim]

theorem newline_not_mem_pinLine (hhost : Recordable host) (hfp : Storable fp) :
    '\n' ∉ pinLine (host, fp) := by
  rw [pinLine, mem_append, mem_cons]
  rintro (hmem | hspace | hmem)
  · exact hhost.newline hmem
  · exact absurd hspace (by decide)
  · exact hfp.newline hmem

theorem stripCr_pinLine (hfp : Storable fp) : stripCr (pinLine (host, fp)) = pinLine (host, fp) := by
  rw [stripCr, if_neg]
  rw [getLast?_pinLine hfp.ne_nil]
  intro hcr
  have hwhite : isWhite '\r' = false := hfp.isWhite_getLast hcr
  cases hwhite

/-! ## The table of a file -/

variable {pins : PinTable}

theorem held_foldl {ls : List Text} (hls : ∀ line ∈ ls, '\n' ∉ line) (hpins : Held pins) :
    Held (ls.foldl loadPin pins) := by
  induction ls generalizing pins with
  | nil => exact hpins
  | cons line ls ih =>
    rw [forall_mem_cons] at hls
    refine ih hls.2 ?_
    unfold loadPin
    cases hparse : parsePin line with
    | none => exact hpins
    | some e =>
      intro host' fp' hget
      rw [get?_insert] at hget
      split_ifs at hget with heq
      · cases hget
        exact heq ▸ held_of_parsePin hls.1 hparse
      · exact hpins host' fp' hget

variable (file : Option Bytes)

theorem held_loadPins : Held (loadPins file) := by
  unfold loadPins
  cases file.bind fromUtf8 with
  | none => exact fun _ _ hget => (nomatch hget)
  | some text => exact held_foldl (fun _ => newline_not_mem_of_mem_lines) fun _ _ hget => (nomatch hget)

theorem pinsHeader_lines : ∀ line ∈ pinsHeader, '\n' ∉ line ∧ stripCr line = line := by
  decide +kernel

theorem foldl_pinsHeader (pins : PinTable) : pinsHeader.foldl loadPin pins = pins := by
  have hcomment : ∀ line ∈ pinsHeader, parsePin line = none := by decide +kernel
  have hskip : ∀ line ∈ pinsHeader, loadPin pins line = pins := by
    intro line hline
    rw [loadPin, hcomment line hline]
  rw [pinsHeader, forall_mem_cons, forall_mem_singleton] at hskip
  rw [pinsHeader, foldl_cons, hskip.1, foldl_cons, hskip.2, foldl_nil]

theorem foldl_pinLine {es : List (Text × Text)} (hes : ∀ e ∈ es, Recordable e.1 ∧ Storable e.2)
    (pins : PinTable) :
    (es.map pinLine).foldl loadPin pins = es.foldl (fun pins e => pins.insert e.1 e.2) pins := by
  induction es generalizing pins with
  | nil => rfl
  | cons e es ih =>
    rw [forall_mem_cons] at hes
    have hload : loadPin pins (pinLine e) = pins.insert e.1 e.2 := by
      rw [loadPin, parsePin_pinLine hes.1.1 hes.1.2]
    simp [hload, ih hes.2]

theorem loadPins_savePins (hpins : Held pins) : loadPins (some (savePins pins)) = pins := by
  have hentries : ∀ e ∈ pins.entries, Recordable e.1 ∧ Storable e.2 := by
    rintro ⟨host, fp⟩ he
    exact hpins host fp ((pins.mem_entries_iff host fp).mp he)
  have hlines : ∀ line ∈ pinsHeader ++ pins.entries.map pinLine, '\n' ∉ line ∧ stripCr line = line := by
    intro line hline
    rcases mem_append.mp hline with hheader | hentry
    · exact pinsHeader_lines line hheader
    · obtain ⟨e, he, rfl⟩ := mem_map.mp hentry
      exact ⟨newline_not_mem_pinLine (hentries e he).1 (hentries e he).2,
        stripCr_pinLine (hentries e he).2⟩
  rw [loadPins, savePins, Option.bind_some, fromUtf8_utf8]
  dsimp only
  rw [lines_unlines (fun line hl => (hlines line hl).1) fun line hl => (hlines line hl).2,
    foldl_append, foldl_pinsHeader, foldl_pinLine hentries, foldl_insert_entries]

/-! ## Pinning -/

theorem recordable_of_get?_loadPins {file : Option Bytes} (hget : (loadPins file).get? host = some fp) :
    Recordable host :=
  (held_loadPins file host fp hget).1

theorem storable_fingerprint (T : Tools) (key : Bytes) : Storable (fingerprint T key) := by
  refine ⟨?_, ?_, ?_⟩
  · intro hnil
    have hempty : T.hash true key = [] := hexEncode_injective hnil
    have hlength := T.length_hash true key
    rw [hempty] at hlength
    cases hlength
  · refine trim_eq_self ?_ ?_
    · exact fun c hc => isWhite_of_mem_hexEncode (mem_of_mem_head? hc)
    · exact fun c hc => isWhite_of_mem_hexEncode (mem_of_mem_getLast? hc)
  · intro hnewline
    have hwhite : isWhite '\n' = false := isWhite_of_mem_hexEncode hnewline
    cases hwhite

theorem held_insert (hpins : Held pins) (hhost : Recordable host) (hfp : Storable fp) :
    Held (pins.insert host fp) := by
  intro host' fp' hget
  rw [get?_insert] at hget
  split_ifs at hget with heq
  · cases hget
    exact ⟨heq ▸ hhost, hfp⟩
  · exact hpins host' fp' hget

theorem get?_loadPins_pin (hhost : Recordable host) (hfp : Storable fp) :
    (loadPins (some (savePins ((loadPins file).insert host fp)))).get? host = some fp := by
  rw [loadPins_savePins (held_insert (held_loadPins file) hhost hfp), get?_insert_self]

end SeamProtocol
