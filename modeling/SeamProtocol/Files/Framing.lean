import SeamProtocol.Files.Reader

/-! # The frame layer

`read_frame` and `read_frame_opt` put frames together from whatever pieces the stream delivers, in a
buffer that successive calls share. -/

namespace SeamProtocol

open Lib List

def sendFrame (payload : Bytes) : Bytes := beBytes 4 payload.length ++ payload

inductive StreamInput where
  | data (bytes : Bytes)
  /-- The stream is finished, or the connection closed. -/
  | ended
  /-- A tick, or an event that is for somebody else. -/
  | other

def StreamInput.bytes : StreamInput → Bytes
  | data bytes => bytes
  | ended | other => []

/-- `read_frame`, or `read_frame_opt`: the result, what stays in the buffer and on the stream; `none` while
the call waits. -/
def readFrame (opt : Bool) (buf : Bytes) : List StreamInput → Option (ReaderResult × Bytes × List StreamInput)
  | [] => (completeFrame buf).map fun p => (.frame p.1, p.2, [])
  | input :: inputs =>
    match completeFrame buf with
    | some (frame, rest) => some (.frame frame, rest, input :: inputs)
    | none =>
      match input with
      | .data bytes => readFrame opt (buf ++ bytes) inputs
      | .ended => some (if opt && buf.isEmpty then .finished else .failed, buf, inputs)
      | .other => readFrame opt buf inputs

def readFrames (buf : Bytes) (inputs : List StreamInput) :
    List Bool → Option (List ReaderResult × Bytes × List StreamInput)
  | [] => some ([], buf, inputs)
  | opt :: opts => (readFrame opt buf inputs).bind fun r =>
    (readFrames r.2.1 r.2.2 opts).map fun rs => (r.1 :: rs.1, rs.2)

section

variable {buf rest tail : Bytes} {inputs more : List StreamInput} {opt : Bool}

theorem completeFrame_sendFrame (hlen : payload.length < 2 ^ 32) :
    completeFrame (sendFrame payload ++ rest) = some (payload, rest) := by
  have hnat : beNat ((sendFrame payload ++ rest).take 4) = payload.length := by
    rw [sendFrame, append_assoc, take_left' (length_beBytes ..), beNat_beBytes_of_lt hlen]
  have hdrop : (sendFrame payload ++ rest).drop 4 = payload ++ rest := by
    simp [sendFrame]
  rw [completeFrame, if_pos (by simp [sendFrame]), hnat, if_pos (by simp [sendFrame]), ← drop_drop, hdrop,
    take_left, drop_left]

theorem completeFrame_append {frame : Bytes} (h : completeFrame buf = some (frame, rest)) (more : Bytes) :
    completeFrame (buf ++ more) = some (frame, rest ++ more) := by
  unfold completeFrame at h ⊢
  split_ifs at h with h4
  dsimp only at h
  split_ifs at h with hlen
  cases h
  have htake : (buf ++ more).take 4 = buf.take 4 := take_append_of_le_length h4
  rw [if_pos (by simp; omega), htake, if_pos (by simp; omega), drop_append_of_le_length h4,
    take_append_of_le_length (by simp; omega), drop_append_of_le_length hlen]

open StreamInput

theorem readFrame_cons {input : StreamInput} (hinput : input ≠ .ended) (hbuf : completeFrame buf = none) :
    readFrame opt buf (input :: inputs) = readFrame opt (buf ++ input.bytes) inputs := by
  cases input with
  | data => simp [readFrame, hbuf, bytes]
  | ended => exact absurd rfl hinput
  | other => simp [readFrame, hbuf, bytes]

theorem readFrame_append (opt : Bool) (more : List StreamInput) (hlen : payload.length < 2 ^ 32)
    (hinputs : .ended ∉ inputs)
    (h : buf ++ inputs.flatMap bytes = sendFrame payload ++ rest) :
    ∃ buf' inputs', readFrame opt buf (inputs ++ more) = some (.frame payload, buf', inputs' ++ more) ∧
      .ended ∉ inputs' ∧ buf' ++ inputs'.flatMap bytes = rest := by
  have hframe : completeFrame (sendFrame payload ++ rest) = some (payload, rest) :=
    completeFrame_sendFrame hlen
  induction inputs generalizing buf with
  | nil =>
    rw [flatMap_nil, append_nil] at h
    cases more <;> simp [readFrame, h, hframe]
  | cons input inputs ih =>
    cases hbuf : completeFrame buf with
    | some p =>
      -- the frame was in the buffer, and the pieces are left alone
      have heq := (completeFrame_append hbuf _).symm.trans ((congrArg completeFrame h).trans hframe)
      obtain ⟨rfl, hrest⟩ := Prod.mk.inj (Option.some.inj heq)
      exact ⟨p.2, input :: inputs, by simp [readFrame, hbuf], hinputs, hrest⟩
    | none =>
      obtain ⟨hinput, hinputs⟩ := not_or.mp (mt mem_cons.mpr hinputs)
      rw [flatMap_cons, ← append_assoc] at h
      simpa [readFrame_cons (Ne.symm hinput) hbuf] using ih hinputs h

theorem readFrame_ended (htail : completeFrame tail = none) (hinputs : .ended ∉ inputs)
    (h : buf ++ inputs.flatMap bytes = tail) :
    readFrame opt buf (inputs ++ .ended :: more)
      = some (if opt && tail.isEmpty then .finished else .failed, tail, more) := by
  induction inputs generalizing buf with
  | nil =>
    rw [flatMap_nil, append_nil] at h
    rw [nil_append, readFrame, h, htail]
  | cons input inputs ih =>
    have hbuf : completeFrame buf = none := by
      cases hbuf : completeFrame buf with
      | none => rfl
      | some p =>
        rw [← h, completeFrame_append hbuf] at htail
        cases htail
    obtain ⟨hinput, hinputs⟩ := not_or.mp (mt mem_cons.mpr hinputs)
    rw [flatMap_cons, ← append_assoc] at h
    simpa [readFrame_cons (Ne.symm hinput) hbuf] using ih hinputs h

theorem readFrames_append (more : List StreamInput) (last : List Bool) {payloads : List Bytes}
    (hlen : ∀ p ∈ payloads, p.length < 2 ^ 32) (hinputs : .ended ∉ inputs)
    (h : buf ++ inputs.flatMap bytes = payloads.flatMap sendFrame ++ tail) {opts : List Bool}
    (hopts : opts.length = payloads.length) :
    ∃ buf' inputs', readFrames buf (inputs ++ more) (opts ++ last)
        = (readFrames buf' (inputs' ++ more) last).map (fun r => (payloads.map .frame ++ r.1, r.2)) ∧
      .ended ∉ inputs' ∧ buf' ++ inputs'.flatMap bytes = tail := by
  induction payloads generalizing buf inputs opts with
  | nil =>
    rw [length_eq_zero_iff.mp hopts]
    exact ⟨buf, inputs, by simp, hinputs, h⟩
  | cons payload payloads ih =>
    cases opts with
    | nil => simp at hopts
    | cons opt opts =>
      obtain ⟨hpayload, hpayloads⟩ := forall_mem_cons.mp hlen
      rw [flatMap_cons, append_assoc] at h
      obtain ⟨buf₁, inputs₁, hread, hinputs₁, h₁⟩ := readFrame_append opt more hpayload hinputs h
      obtain ⟨buf', inputs', hreads, hrest⟩ := ih hpayloads hinputs₁ h₁ (Nat.succ.inj hopts)
      refine ⟨buf', inputs', ?_, hrest⟩
      rw [cons_append, readFrames, hread, Option.bind_some, hreads, Option.map_map]
      rfl

end

/-- **The frame layer**: however the bytes are cut, any mixture of calls returns the payloads in order; and
if the stream ends after them, a further call returns nothing exactly if it is `read_frame_opt` and no byte
of another frame was there. -/
theorem frame_layer {payloads : List Bytes} (hlen : ∀ p ∈ payloads, p.length < 2 ^ 32) {tail : Bytes}
    (htail : completeFrame tail = none) {inputs : List StreamInput} (hinputs : .ended ∉ inputs)
    (h : inputs.flatMap StreamInput.bytes = payloads.flatMap sendFrame ++ tail) {opts : List Bool}
    (hopts : opts.length = payloads.length) :
    (∃ r, readFrames [] inputs opts = some (payloads.map .frame, r)) ∧
      ∀ opt more, readFrames [] (inputs ++ .ended :: more) (opts ++ [opt])
        = some (payloads.map .frame ++ [if opt && tail.isEmpty then .finished else .failed], tail, more) := by
  constructor
  · obtain ⟨buf, rest, hreads, -⟩ := readFrames_append [] [] hlen hinputs ((nil_append _).trans h) hopts
    simp only [append_nil] at hreads
    exact ⟨_, by rw [hreads, readFrames, Option.map_some, append_nil]⟩
  · intro opt more
    obtain ⟨buf, rest, hreads, hrest, h⟩ :=
      readFrames_append (.ended :: more) [opt] hlen hinputs ((nil_append _).trans h) hopts
    rw [hreads, readFrames, readFrame_ended htail hrest h]
    rfl

/-- Two frames in three pieces, read with both functions, and the end of the stream. -/
theorem frame_layer_two :
    readFrames [] ([.data [0, 0], .other, .data [0, 1, 7, 0, 0, 0], .data [2, 8, 9]] ++ .ended :: [])
      ([false, true] ++ [true]) = some ([.frame [7], .frame [8, 9], .finished], [], []) :=
  (@frame_layer [[7], [8, 9]] (by decide) [] rfl _ (by simp) rfl _ rfl).2 true []

end SeamProtocol
