import SeamProtocol.Crypto.Cipher
import SeamProtocol.Lib.Run
import SeamProtocol.Pins.KnownHosts

/-! # The pins of several processes

Each call locks the file, loads the table, decides, saves the table if it has changed, and unlocks. The
history has the calls in the order in which they were decided. -/

namespace SeamProtocol

open Lib List SortedMap

def ipChars : List Char := "0123456789abcdefABCDEF.:".toList

structure IpHost where
  text : Text
  ne_nil : text ≠ []
  literal : ∀ c ∈ text, c ∈ ipChars

inductive PinCall where
  | verify (host : IpHost) (key : Key)
  | remove (host : IpHost)

def PinCall.host : PinCall → Text
  | .verify host _ | .remove host => host.text

/-- What `verify_or_pin` and `remove_pin` do with the table that they have loaded: whether the key is
accepted or a pin was removed, and the table that is saved. -/
def PinCall.perform (T : Tools) (pins : PinTable) : PinCall → Bool × Option PinTable
  | .verify host key =>
    match pins.get? host.text with
    | some pinned => (pinned = fingerprint T key.toList, none)
    | none => (true, some (pins.insert host.text (fingerprint T key.toList)))
  | .remove host =>
    let removed := (pins.get? host.text).isSome
    (removed, if removed then some (pins.erase host.text) else none)

inductive PinPhase where
  | locked (call : PinCall)
  | loaded (call : PinCall) (pins : PinTable)
  | done

/-- The file, the process that has the lock, and the calls so far with their results, last first. -/
structure PinFile where
  file : Option Bytes
  lock : Option (Nat × PinPhase) := none
  history : List (PinCall × Bool) := []

inductive PinStep where
  | flock (call : PinCall)
  | load
  | save
  | unlock

namespace PinFile

def step (T : Tools) (s : PinFile) (e : Nat × PinStep) : Option PinFile :=
  match e.2, s.lock with
  | .flock call, none => some { s with lock := some (e.1, .locked call) }
  | .load, some (pid, .locked call) =>
    if pid = e.1 then some { s with lock := some (pid, .loaded call (loadPins s.file)) } else none
  | .save, some (pid, .loaded call pins) =>
    if pid = e.1 then
      some {
        file := (call.perform T pins).2.elim s.file fun pins => some (savePins pins)
        lock := some (pid, .done), history := (call, (call.perform T pins).1) :: s.history }
    else none
  | .unlock, some (pid, .done) => if pid = e.1 then some { s with lock := none } else none
  | _, _ => none

end PinFile

/-- The key of a host after some calls about it, last first: the first one verified since it was
removed. -/
def pinnedKey (initial : Option Key) : List (PinCall × Bool) → Option Key
  | [] => initial
  | (.verify _ key, _) :: earlier => some ((pinnedKey initial earlier).getD key)
  | (.remove _, _) :: _ => none

def callsAbout (host : Text) (history : List (PinCall × Bool)) : List (PinCall × Bool) :=
  history.filter fun c => c.1.host = host

section

variable {T : Tools} {initial : Text → Option Key} {pins : PinTable} {s s' : PinFile}

theorem IpHost.recordable (host : IpHost) : Recordable host.text := by
  have hall : ipChars.all (fun c => !isWhite c && c ≠ '#' && c ≠ ' ' && c ≠ '\n') := by decide +kernel
  have hchars : ∀ c ∈ ipChars, isWhite c = false ∧ c ≠ '#' ∧ c ≠ ' ' ∧ c ≠ '\n' := fun c hc => by
    simpa [and_assoc] using all_eq_true.mp hall c hc
  obtain ⟨c, rest, hcons⟩ := exists_cons_of_ne_nil host.ne_nil
  have hc := hchars c (host.literal c (hcons ▸ mem_cons_self))
  exact ⟨⟨c, rest, hcons, hc.1, hc.2.1⟩, fun h => (hchars _ (host.literal _ h)).2.2.1 rfl,
    fun h => (hchars _ (host.literal _ h)).2.2.2 rfl⟩

def PinsTrack (T : Tools) (initial : Text → Option Key) (history : List (PinCall × Bool))
    (pins : PinTable) : Prop :=
  ∀ host : IpHost, pins.get? host.text
    = (pinnedKey (initial host.text) (callsAbout host.text history)).map fun key =>
      fingerprint T key.toList

variable {history : List (PinCall × Bool)}

theorem PinsTrack.perform (h : PinsTrack T initial history pins) (result : Bool) :
    PinsTrack T initial ((call, result) :: history) ((call.perform T pins).2.getD pins) := by
  intro host
  have hhost := h host
  have hcons : callsAbout host.text ((call, result) :: history) = if call.host = host.text
      then (call, result) :: callsAbout host.text history else callsAbout host.text history := by
    simp [callsAbout, filter_cons]
  rw [hcons]
  cases call with
  | verify host' key =>
    by_cases heq : host'.text = host.text
    · cases hkey : pinnedKey (initial host.text) (callsAbout host.text history) <;>
        simp [PinCall.perform, PinCall.host, pinnedKey, heq, hhost, hkey]
    · rw [PinCall.host, if_neg heq, ← hhost]
      cases hget : pins.get? host'.text with
      | none => simp [PinCall.perform, hget, get?_insert, Ne.symm heq]
      | some pinned => simp [PinCall.perform, hget]
  | remove host' =>
    by_cases heq : host'.text = host.text
    · cases hkey : pinnedKey (initial host.text) (callsAbout host.text history) <;>
        simp [PinCall.perform, PinCall.host, pinnedKey, heq, hhost, hkey, get?_erase]
    · rw [PinCall.host, if_neg heq, ← hhost]
      cases hget : pins.get? host'.text with
      | none => simp [PinCall.perform, hget]
      | some pinned => simp [PinCall.perform, hget, get?_erase, Ne.symm heq]

open PinCall

theorem loadPins_saved (file : Option Bytes) (call : PinCall) :
    loadPins ((call.perform T (loadPins file)).2.elim file fun pins => some (savePins pins))
      = (call.perform T (loadPins file)).2.getD (loadPins file) := by
  have hheld := held_loadPins file
  cases call with
  | verify host key =>
    cases hget : (loadPins file).get? host.text with
    | some pinned => simp [perform, hget]
    | none =>
      simpa [perform, hget] using
        loadPins_savePins (held_insert hheld host.recordable (storable_fingerprint T key.toList))
  | remove host =>
    cases hget : (loadPins file).get? host.text with
    | none => simp [perform, hget]
    | some pinned =>
      have herase : Held ((loadPins file).erase host.text) := by
        intro host' fp' hget'
        rw [get?_erase] at hget'
        split_ifs at hget' with heq
        exact hheld host' fp' hget'
      simpa [perform, hget] using loadPins_savePins herase

def PinsAgree (initial : Text → Option Key) (history : List (PinCall × Bool)) : Prop :=
  ∀ later earlier host key accepted, history = later ++ (PinCall.verify host key, accepted) :: earlier →
    (accepted = true ↔
      ∀ pinned ∈ pinnedKey (initial host.text) (callsAbout host.text earlier), pinned = key)

theorem PinsAgree.perform (hinj : ∀ k k' : Key, T.hash true k.toList = T.hash true k'.toList → k = k')
    (h : PinsAgree initial history) (ht : PinsTrack T initial history pins) :
    PinsAgree initial ((call, (call.perform T pins).1) :: history) := by
  intro later earlier host key accepted heq
  obtain _ | ⟨c, later⟩ := later
  · obtain ⟨⟨rfl, rfl⟩, rfl⟩ : (call = .verify host key ∧ _) ∧ history = earlier := by simpa using heq
    have hget := ht host
    cases hkey : pinnedKey (initial host.text) (callsAbout host.text history) with
    | none => simp [PinCall.perform, hget, hkey]
    | some pinned =>
      have hfp : fingerprint T pinned.toList = fingerprint T key.toList ↔ pinned = key :=
        ⟨fun h => hinj _ _ (hexEncode_injective h), fun h => h ▸ rfl⟩
      simp [PinCall.perform, hget, hkey, hfp]
  · exact h later earlier host key accepted (cons.inj heq).2

structure PinFile.Inv (T : Tools) (initial : Text → Option Key) (s : PinFile) : Prop where
  tracks : PinsTrack T initial s.history (loadPins s.file)
  loaded : ∀ pid call pins, s.lock = some (pid, .loaded call pins) → pins = loadPins s.file
  agrees : PinsAgree initial s.history

theorem PinFile.Inv.step (hinj : ∀ k k' : Key, T.hash true k.toList = T.hash true k'.toList → k = k')
    (h : s.Inv T initial) {e : Nat × PinStep} (hstep : s.step T e = some s') : s'.Inv T initial := by
  obtain ⟨ht, hl, ha⟩ := h
  unfold PinFile.step at hstep
  split at hstep <;> simp only [Option.ite_none_right_eq_some, Option.some.injEq, reduceCtorEq] at hstep
  case h_1 =>
    subst hstep
    exact ⟨ht, nofun, ha⟩
  case h_2 =>
    obtain ⟨-, rfl⟩ := hstep
    exact ⟨ht, fun _ _ _ heq => by cases heq; rfl, ha⟩
  case h_3 pid call pins _ hlock =>
    obtain ⟨-, rfl⟩ := hstep
    obtain rfl := hl pid call pins hlock
    refine ⟨?_, nofun, ha.perform hinj ht⟩
    simpa only [loadPins_saved] using ht.perform _
  case h_4 =>
    obtain ⟨-, rfl⟩ := hstep
    exact ⟨ht, nofun, ha⟩

end

def plainTools : Tools :=
  { Tools.small with
    hash := fun _ data => (data ++ replicate 32 0).take 32
    length_hash := fun _ data => by simp }

def oneDigit : IpHost := ⟨['1'], nofun, fun _ hc => mem_singleton.mp hc ▸ by decide +kernel⟩

end SeamProtocol
