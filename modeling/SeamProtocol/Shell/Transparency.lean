import SeamProtocol.Shell.Session

/-! # Which sessions of the remote shell are transparent -/

namespace SeamProtocol

open Lib List ShellClient

/-! ## Input -/

variable (chunk : StdinChunk)

theorem beNat_length :
    beNat [UInt8.ofNat (chunk.bytes.length / 256), UInt8.ofNat chunk.bytes.length]
      = chunk.bytes.length := by
  have hread := beNat_beBytes 2 chunk.bytes.length
  have hle := chunk.length_le
  rw [Nat.mod_eq_of_lt (by omega)] at hread
  exact hread

theorem stdinFrame_append (rest : Bytes) :
    stdinFrame chunk ++ rest = shellStdin :: UInt8.ofNat (chunk.bytes.length / 256)
      :: UInt8.ofNat chunk.bytes.length :: (chunk.bytes ++ rest) := rfl

variable {fuel : Nat} (events : List ShellEvent)

theorem plainLoop_frames (hfuel : (events.flatMap pipe.frame).length ≤ fuel) :
    plainLoop fuel (events.flatMap pipe.frame) = pipe.framed events := by
  induction events generalizing fuel with
  | nil => cases fuel <;> rfl
  | cons e events ih =>
    rw [flatMap_cons] at hfuel ⊢
    cases e with
    | resize cols rows => exact ih hfuel
    | stdin chunk =>
      rw [frame, stdinFrame_append] at hfuel ⊢
      simp only [length_cons, length_append] at hfuel
      cases fuel with
      | zero => omega
      | succ fuel =>
        rw [plainLoop, beNat_length, if_pos ⟨rfl, by rw [length_append]; omega⟩,
          take_left, drop_left, ih (by omega)]
        rfl

theorem bridgeLoop_stdin (fuel : Nat) (chunk : StdinChunk) (rest : Bytes) :
    bridgeLoop (fuel + 1) (stdinFrame chunk ++ rest)
      = (chunk.bytes ++ (bridgeLoop fuel rest).1, (bridgeLoop fuel rest).2) := by
  have hle : chunk.bytes.length ≤ (chunk.bytes ++ rest).length := by
    rw [length_append]
    omega
  rw [stdinFrame_append, bridgeLoop, if_neg (by decide), if_pos rfl, beNat_length, if_pos hle,
    take_left, drop_left]

theorem bridgeLoop_resize (fuel : Nat) (cols rows : UInt16) (rest : Bytes) :
    bridgeLoop (fuel + 1) (resizeFrame cols rows ++ rest) = bridgeLoop fuel rest := by
  have hle : 4 ≤ (beBytes 2 cols.toNat ++ beBytes 2 rows.toNat ++ rest).length := by
    rw [length_append, length_append, length_beBytes, length_beBytes]
    omega
  have hdrop : (beBytes 2 cols.toNat ++ beBytes 2 rows.toNat ++ rest).drop 4 = rest :=
    drop_left' (by simp)
  rw [resizeFrame, cons_append, cons_append]
  conv_lhs => unfold bridgeLoop
  rw [if_neg (by decide), if_neg (by decide), if_pos rfl, if_pos hle, hdrop]

theorem bridgeLoop_ending (eofs : Nat) (hfuel : eofs ≤ fuel) :
    bridgeLoop fuel (List.replicate eofs shellStdinEof) = ([], decide (0 < eofs)) := by
  cases eofs with
  | zero => cases fuel <;> rfl
  | succ eofs =>
    cases fuel with
    | zero => omega
    | succ fuel => rfl

def ptyFrames (term : Bytes) (size : Option (UInt16 × UInt16)) (events : List ShellEvent) (eofs : Nat) :
    Bytes :=
  events.flatMap (ShellClient.pty term size).frame ++ (ShellClient.pty term size).ending eofs

theorem bridgeLoop_frames {term : Bytes} {size : Option (UInt16 × UInt16)} (eofs : Nat)
    (hfuel : (ptyFrames term size events eofs).length ≤ fuel) :
    bridgeLoop fuel (ptyFrames term size events eofs)
      = ((pty term size).framed events, decide (0 < eofs)) := by
  induction events generalizing fuel with
  | nil =>
    have hlength : (ptyFrames term size [] eofs).length = eofs := length_replicate
    exact bridgeLoop_ending eofs (hlength ▸ hfuel)
  | cons e events ih =>
    have hcons : ptyFrames term size (e :: events) eofs
        = (pty term size).frame e ++ ptyFrames term size events eofs := by
      rw [ptyFrames, flatMap_cons, append_assoc, ← ptyFrames]
    rw [hcons, length_append] at hfuel
    rw [hcons]
    cases e with
    | resize cols rows =>
      have hpos : (frame (.pty term size) (.resize cols rows)).length = 5 := rfl
      cases fuel with
      | zero => omega
      | succ fuel =>
        rw [frame, bridgeLoop_resize, ih (by omega)]
        rfl
    | stdin chunk =>
      have hpos : 0 < (frame (.pty term size) (.stdin chunk)).length := Nat.succ_pos _
      cases fuel with
      | zero => omega
      | succ fuel =>
        rw [frame, bridgeLoop_stdin, ih (by omega)]
        rfl

theorem length_bridgeLoop (fuel : Nat) (bytes : Bytes) :
    (bridgeLoop fuel bytes).1 = [] ∨ (bridgeLoop fuel bytes).1.length + 3 ≤ bytes.length := by
  induction fuel generalizing bytes with
  | zero => exact .inl rfl
  | succ fuel ih =>
    cases bytes with
    | nil => exact .inl rfl
    | cons tag rest =>
      unfold bridgeLoop
      split_ifs with heof hstdin hresize hlen
      · exact .inl rfl
      · match rest with
        | [] | [_] => exact .inl rfl
        | hi :: lo :: data =>
          dsimp only
          split_ifs with hlen
          · have hrest := ih (data.drop (beNat [hi, lo]))
            simp only [length_append, length_take, length_cons,
              length_drop] at hrest ⊢
            rcases hrest with hnil | hle
            · rw [hnil]
              simp only [length_nil]
              omega
            · omega
          · exact .inl rfl
      · rcases ih (rest.drop 4) with hnil | hle
        · exact .inl hnil
        · rw [length_drop] at hle
          rw [length_cons]
          omega
      · exact .inl rfl
      · rcases ih rest with hnil | hle
        · exact .inl hnil
        · rw [length_cons]
          omega

/-! ## Output -/

def IsControl (b : UInt8) : Prop := b = shellExit ∨ b = shellErr

variable {missing : Nat} {fin : Bool} {raw stdout buf rest : Bytes}

theorem raw_bufferedLoop_of_isControl (hb : IsControl b) :
    (bufferedLoop missing fin raw stdout buf (b :: rest)).raw = raw := by
  unfold bufferedLoop
  by_cases hexit : b = shellExit
  · rw [if_pos hexit]
    cases rest with
    | nil => cases fin <;> rfl
    | cons code rest => rfl
  · rw [if_neg hexit, if_pos (hb.resolve_left hexit)]

theorem bufferedLoop_of_not_isControl (hb : ¬ IsControl b) :
    ∃ stdout' buf', stdout' ++ buf' = stdout ++ (buf ++ [b])
      ∧ bufferedLoop missing fin raw stdout buf (b :: rest)
        = bufferedLoop missing fin (raw ++ [b]) stdout' buf' rest := by
  obtain ⟨hexit, herr⟩ := not_or.mp hb
  by_cases hfull : 4096 ≤ (buf ++ [b]).length
  · refine ⟨stdout ++ (buf ++ [b]), [], append_nil _, ?_⟩
    conv_lhs => unfold bufferedLoop
    rw [if_neg hexit, if_neg herr, if_pos hfull]
  · refine ⟨stdout, buf ++ [b], rfl, ?_⟩
    conv_lhs => unfold bufferedLoop
    rw [if_neg hexit, if_neg herr, if_neg hfull]

theorem not_isControl_raw_bufferedLoop {bytes : Bytes} (hraw : ∀ b ∈ raw, ¬ IsControl b) :
    ∀ b ∈ (bufferedLoop missing fin raw stdout buf bytes).raw, ¬ IsControl b := by
  induction bytes generalizing raw stdout buf with
  | nil => exact hraw
  | cons c rest ih =>
    by_cases hc : IsControl c
    · rw [raw_bufferedLoop_of_isControl hc]
      exact hraw
    · obtain ⟨stdout', buf', _, heq⟩ := bufferedLoop_of_not_isControl hc
      rw [heq]
      refine ih ?_
      intro b hb
      rcases mem_append.mp hb with hold | hnew
      · exact hraw b hold
      · rw [mem_singleton.mp hnew]
        exact hc

theorem bufferedLoop_append_exit {out : Bytes} (code : UInt8) (hout : ∀ b ∈ out, ¬ IsControl b) :
    bufferedLoop missing true raw stdout buf (out ++ [shellExit, code])
      = ⟨stdout ++ buf ++ out, raw ++ out, some code.toNat⟩ := by
  induction out generalizing raw stdout buf with
  | nil =>
    rw [append_nil, append_nil]
    rfl
  | cons b out ih =>
    rw [forall_mem_cons] at hout
    obtain ⟨stdout', buf', hsplit, heq⟩ := bufferedLoop_of_not_isControl hout.1
    rw [cons_append, heq, ih hout.2, hsplit]
    simp

/-! ## Commands -/

def ShellCommand.Quiet (cmd : ShellCommand) : Prop :=
  (∀ chunk ∈ cmd.output, chunk.1 = true → chunk.2 = []) ∧ ∀ b ∈ cmd.stdout, ¬ IsControl b

variable (cmd : ShellCommand)

theorem ShellCommand.length_written :
    cmd.written.length = cmd.stdout.length
      + ((cmd.output.filter fun chunk => chunk.1).flatMap Prod.snd).length := by
  obtain ⟨output, code⟩ := cmd
  induction output with
  | nil => rfl
  | cons chunk output ih =>
    obtain ⟨err, bytes⟩ := chunk
    have hrest : (output.flatMap Prod.snd).length
        = ((output.filter fun chunk => !chunk.1).flatMap Prod.snd).length
          + ((output.filter fun chunk => chunk.1).flatMap Prod.snd).length := ih
    cases err with
    | false =>
      show (bytes ++ output.flatMap Prod.snd).length
        = (bytes ++ (output.filter fun chunk => !chunk.1).flatMap Prod.snd).length + _
      rw [length_append, length_append, hrest, Nat.add_assoc]
      rfl
    | true =>
      show (bytes ++ output.flatMap Prod.snd).length
        = _ + (bytes ++ (output.filter fun chunk => chunk.1).flatMap Prod.snd).length
      rw [length_append, length_append, hrest, Nat.add_left_comm]
      rfl

theorem ShellCommand.written_eq_stdout_iff :
    cmd.written = cmd.stdout ↔ ∀ chunk ∈ cmd.output, chunk.1 = true → chunk.2 = [] := by
  constructor
  · intro heq chunk hmem herr
    have hlength := cmd.length_written
    rw [heq] at hlength
    have hnil : (cmd.output.filter fun chunk => chunk.1).flatMap Prod.snd = [] :=
      eq_nil_of_length_eq_zero (by omega)
    exact flatMap_eq_nil_iff.mp hnil chunk (mem_filter.mpr ⟨hmem, herr⟩)
  · intro hquiet
    obtain ⟨output, code⟩ := cmd
    induction output with
    | nil => rfl
    | cons chunk output ih =>
      rw [forall_mem_cons] at hquiet
      obtain ⟨err, bytes⟩ := chunk
      have hrest : output.flatMap Prod.snd = (output.filter fun chunk => !chunk.1).flatMap Prod.snd :=
        ih hquiet.2
      cases err with
      | false => exact congrArg (bytes ++ ·) hrest
      | true =>
        have hbytes : bytes = [] := hquiet.1 rfl
        subst hbytes
        exact hrest

/-! ## Sessions with a terminal -/

variable (inTime : Nat)

theorem headerLoop_term (term rest : Bytes) :
    headerLoop (inTime + 1) (termFrame term ++ rest) = headerLoop inTime rest := by
  have hlen : (UInt8.ofNat (min term.length 255)).toNat = (term.take 255).length := by
    rw [UInt8.toNat_ofNat', length_take]
    omega
  rw [termFrame, cons_append, cons_append]
  conv_lhs => unfold headerLoop
  rw [if_pos rfl]
  dsimp only
  simp [hlen, Nat.le_add_right _ _]

theorem headerLoop_resize (cols rows : UInt16) (rest : Bytes) :
    headerLoop (inTime + 1) (resizeFrame cols rows ++ rest) = rest := rfl

section Pty

variable {term : Bytes} {size : Option (UInt16 × UInt16)} {inTime : Nat} {events : List ShellEvent}

theorem ptyInput_termFrame (term : Bytes) (inTime : Nat) (rest : Bytes) :
    ∃ fuel, rest.length ≤ fuel
      ∧ ptyInput inTime (termFrame term ++ rest) = bridgeLoop (fuel + 1) (headerLoop inTime rest) := by
  refine ⟨(UInt8.ofNat (min term.length 255) :: term.take 255 ++ rest).length, ?_, ?_⟩
  · rw [length_append]
    exact Nat.le_add_left _ _
  · rw [ptyInput, headerLoop_term]
    rfl

variable (eofs : Nat)

/-- **The input reaches the command** if the size is sent first, or the first frame comes after the
deadline, or is a size. -/
theorem ptyInput_sent
    (hsafe : size.isSome = true ∨ inTime = 0 ∨ ∃ cols rows rest, events = .resize cols rows :: rest) :
    ptyInput inTime ((pty term size).sent events eofs)
      = ((pty term size).framed events, decide (0 < eofs)) := by
  cases size with
  | some dims =>
    obtain ⟨cols, rows⟩ := dims
    have hsent : (pty term (some (cols, rows))).sent events eofs
        = termFrame term ++ (resizeFrame cols rows ++ ptyFrames term (some (cols, rows)) events eofs) := by
      simp [sent, opening, ptyFrames]
    rw [hsent]
    obtain ⟨fuel, hfuel, hinput⟩ := ptyInput_termFrame term inTime
      (resizeFrame cols rows ++ ptyFrames term (some (cols, rows)) events eofs)
    rw [length_append] at hfuel
    rw [hinput]
    cases inTime with
    | zero =>
      rw [headerLoop, bridgeLoop_resize, bridgeLoop_frames events eofs (by omega)]
    | succ inTime =>
      rw [headerLoop_resize, bridgeLoop_frames events eofs (by omega)]
  | none =>
    have hsent : (pty term none).sent events eofs
        = termFrame term ++ ptyFrames term none events eofs := by
      rw [sent, opening, append_assoc, ptyFrames]
    rw [hsent]
    obtain ⟨fuel, hfuel, hinput⟩ := ptyInput_termFrame term inTime
      (ptyFrames term none events eofs)
    rw [hinput]
    cases inTime with
    | zero => exact bridgeLoop_frames events eofs (by omega)
    | succ inTime =>
      rcases hsafe with hsome | hzero | ⟨cols, rows, rest, rfl⟩
      · cases hsome
      · cases hzero
      · have hcons : ptyFrames term none (.resize cols rows :: rest) eofs
            = resizeFrame cols rows ++ ptyFrames term none rest eofs := by
          rfl
        rw [hcons, length_append] at hfuel
        rw [hcons, headerLoop_resize, bridgeLoop_frames rest eofs (by omega)]
        rfl

theorem ptyInput_ending :
    ptyInput (inTime + 1) ((pty term none).sent [] eofs) = ([], decide (1 < eofs)) := by
  have hsent : (pty term none).sent [] eofs
      = termFrame term ++ List.replicate eofs shellStdinEof := by
    rw [sent, opening, append_assoc]
    rfl
  rw [hsent]
  obtain ⟨fuel, hfuel, hinput⟩ := ptyInput_termFrame term (inTime + 1)
    (List.replicate eofs shellStdinEof)
  rw [hinput]
  cases eofs with
  | zero => rfl
  | succ eofs =>
    rw [length_replicate] at hfuel
    have hone : decide (0 < eofs) = decide (1 < eofs + 1) := by
      rw [decide_eq_decide]
      omega
    rw [replicate_succ, ← hone]
    exact bridgeLoop_ending eofs (by omega)

/-- **So is input**: without the first byte of its frame, it cannot reach the command. -/
theorem ptyInput_stdin_ne (chunk : StdinChunk) :
    (ptyInput (inTime + 1) ((pty term none).sent [.stdin chunk] 0)).1 ≠ chunk.bytes := by
  have hsent : (pty term none).sent [.stdin chunk] 0 = termFrame term ++ stdinFrame chunk := by
    rw [sent, opening, append_assoc, flatMap_singleton]
    exact congrArg (termFrame term ++ ·) (append_nil _)
  rw [hsent]
  obtain ⟨fuel, _, hinput⟩ := ptyInput_termFrame term (inTime + 1) (stdinFrame chunk)
  have hheader : headerLoop (inTime + 1) (stdinFrame chunk)
      = beBytes 2 chunk.bytes.length ++ chunk.bytes := rfl
  rw [hinput, hheader]
  intro heq
  have hlength := length_bridgeLoop (fuel + 1) (beBytes 2 chunk.bytes.length ++ chunk.bytes)
  rw [heq, length_append, length_beBytes] at hlength
  rcases hlength with hnil | hle
  · exact chunk.ne_nil hnil
  · omega

end Pty

/-! ## Transparent sessions -/

namespace ShellSession

/-- Enough ends of the input are sent for the worker to see one, and no input is lost in its header. -/
def Ends (size : Option (UInt16 × UInt16)) (inTime : Nat) (events : List ShellEvent) (eofs : Nat) : Prop :=
  match size, inTime, events with
  | none, _ + 1, [] => 1 < eofs
  | none, _ + 1, .stdin _ :: _ => False
  | _, _, _ => 0 < eofs

/-- **Which sessions are transparent**: those with input that is not interactive, if the client sends
something, and the command writes no control bytes and nothing to its standard error; and those with a
terminal in which the command does not write anything, exits with 0, and the client ends. -/
def Clear (s : ShellSession) : Prop :=
  match s.client with
  | .noStdin => False
  | .pipe => ShellClient.pipe.sent s.events s.eofs ≠ [] ∧ s.cmd.Quiet
  | .pty _ size => s.cmd.written = [] ∧ s.cmd.code = 0 ∧ Ends size s.inTime s.events s.eofs

end ShellSession

section Iff

variable {inTime : Nat} {events : List ShellEvent} {cmd : ShellCommand}

theorem not_transparent_noStdin : ¬ (⟨.noStdin, inTime, events, eofs, cmd⟩ : ShellSession).Transparent := by
  intro htrans
  have hsent : noStdin.sent events eofs = [] := by
    rw [sent, append_eq_nil_iff, append_eq_nil_iff, flatMap_eq_nil_iff]
    exact ⟨⟨rfl, fun _ _ => rfl⟩, rfl⟩
  have hexit := htrans.exit
  unfold ShellSession.outcome at hexit
  rw [if_pos hsent] at hexit
  cases hexit

theorem pipeLoop_plainOutput (hout : ∀ b ∈ cmd.written, ¬ IsControl b) :
    pipeLoop true (plainOutput cmd) = ⟨cmd.written, cmd.written, some cmd.code.toNat⟩ := by
  simp [pipeLoop, plainOutput, bufferedLoop_append_exit cmd.code hout]

theorem transparent_pipe_iff : (⟨.pipe, inTime, events, eofs, cmd⟩ : ShellSession).Transparent
    ↔ pipe.sent events eofs ≠ [] ∧ cmd.Quiet := by
  constructor
  · intro htrans
    obtain ⟨_, hstdout, hraw, hexit⟩ := htrans
    unfold ShellSession.outcome at hstdout hraw hexit
    by_cases hsent : pipe.sent events eofs = []
    · rw [if_pos hsent] at hexit
      cases hexit
    · rw [if_neg hsent] at hstdout hraw
      -- what is taken for output has no control bytes, and it is all that was written
      have hout : ∀ b ∈ cmd.written, ¬ IsControl b := by
        rw [← hraw]
        exact not_isControl_raw_bufferedLoop nofun
      rw [pipeLoop_plainOutput hout] at hstdout
      exact ⟨hsent, cmd.written_eq_stdout_iff.mp hstdout, hstdout ▸ hout⟩
  · rintro ⟨hsent, hquiet, hcontrol⟩
    have hstdout : cmd.written = cmd.stdout := cmd.written_eq_stdout_iff.mpr hquiet
    have houtcome : (⟨.pipe, inTime, events, eofs, cmd⟩ : ShellSession).outcome
        = ⟨cmd.written, cmd.written, some cmd.code.toNat⟩ := by
      unfold ShellSession.outcome
      rw [if_neg hsent, pipeLoop_plainOutput (hstdout ▸ hcontrol)]
    refine ⟨?_, by rw [houtcome]; exact hstdout, by rw [houtcome], by rw [houtcome]⟩
    intro events' _
    have hbytes : pipe.sent events' 0 = events'.flatMap pipe.frame :=
      append_nil _
    show plainInput (pipe.sent events' 0) = _
    rw [hbytes, plainInput, plainLoop_frames events' le_rfl]

theorem outcome_pty : (⟨.pty term size, inTime, events, eofs, cmd⟩ : ShellSession).outcome
    = ⟨[], [], if (ptyInput inTime ((pty term size).sent events eofs)).2 then some 0
        else none⟩ := by
  have hsent : (pty term size).sent events eofs ≠ [] := by
    cases size <;> exact nofun
  unfold ShellSession.outcome
  rw [if_neg hsent]
  rfl

theorem transparent_pty : (⟨.pty term size, inTime, events, eofs, cmd⟩ : ShellSession).Transparent
    ↔ (∀ events', events' <+: events →
        (ptyInput inTime ((pty term size).sent events' 0)).1
          = (pty term size).framed events')
      ∧ cmd.written = [] ∧ cmd.code = 0
      ∧ (ptyInput inTime ((pty term size).sent events eofs)).2 = true := by
  constructor
  · rintro ⟨hreached, hstdout, hraw, hexit⟩
    rw [outcome_pty] at hraw hexit
    refine ⟨hreached, hraw.symm, ?_⟩
    cases hend : (ptyInput inTime ((pty term size).sent events eofs)).2 with
    | false =>
      rw [hend] at hexit
      cases hexit
    | true =>
      rw [hend] at hexit
      have hcode : cmd.code.toNat = 0 := (Option.some.inj hexit).symm
      exact ⟨UInt8.toNat_inj.mp hcode, rfl⟩
  · rintro ⟨hreached, hwritten, hcode, hend⟩
    have hstdout : cmd.stdout = [] := by
      have hlength := cmd.length_written
      rw [hwritten, length_nil] at hlength
      exact eq_nil_of_length_eq_zero (by omega)
    refine ⟨hreached, ?_, ?_, ?_⟩
    · rw [outcome_pty, hstdout]
    · rw [outcome_pty, hwritten]
    · rw [outcome_pty, hend, hcode]
      rfl

theorem transparent_pty_of_reached
    (hreached : ∀ events', events' <+: events →
      (ptyInput inTime ((pty term size).sent events' 0)).1
        = (pty term size).framed events')
    {n : Nat} (hend : (ptyInput inTime ((pty term size).sent events eofs)).2
      = decide (n < eofs)) :
    (⟨.pty term size, inTime, events, eofs, cmd⟩ : ShellSession).Transparent
      ↔ cmd.written = [] ∧ cmd.code = 0 ∧ n < eofs := by
  rw [transparent_pty, hend, decide_eq_true_iff]
  exact and_iff_right hreached

theorem transparent_pty_iff : (⟨.pty term size, inTime, events, eofs, cmd⟩ : ShellSession).Transparent
    ↔ cmd.written = [] ∧ cmd.code = 0 ∧ ShellSession.Ends size inTime events eofs := by
  cases size with
  | some dims =>
    -- the size is sent first
    refine transparent_pty_of_reached ?_ (congrArg Prod.snd (ptyInput_sent eofs (.inl rfl)))
    exact fun events' _ => congrArg Prod.fst (ptyInput_sent 0 (.inl rfl))
  | none =>
    cases inTime with
    | zero =>
      -- nothing comes before the deadline
      refine transparent_pty_of_reached ?_ (congrArg Prod.snd (ptyInput_sent eofs (.inr (.inl rfl))))
      exact fun events' _ => congrArg Prod.fst (ptyInput_sent 0 (.inr (.inl rfl)))
    | succ inTime =>
      cases events with
      | nil =>
        refine transparent_pty_of_reached ?_ (congrArg Prod.snd (ptyInput_ending eofs))
        intro events' hprefix
        rw [prefix_nil.mp hprefix]
        exact congrArg Prod.fst (ptyInput_ending 0)
      | cons e events =>
        cases e with
        | stdin chunk =>
          refine ⟨fun htrans => ?_, fun hends => hends.2.2.elim⟩
          refine (ptyInput_stdin_ne chunk ((htrans.reached [.stdin chunk] ?_).trans ?_)).elim
          · exact ⟨events, rfl⟩
          · exact append_nil _
        | resize cols rows =>
          refine transparent_pty_of_reached ?_
            (congrArg Prod.snd (ptyInput_sent eofs (.inr (.inr ⟨cols, rows, events, rfl⟩))))
          intro events' hprefix
          cases events' with
          | nil => exact congrArg Prod.fst (ptyInput_ending 0)
          | cons e' rest =>
            obtain ⟨rfl, _⟩ := cons_prefix_cons.mp hprefix
            exact congrArg Prod.fst (ptyInput_sent 0 (.inr (.inr ⟨cols, rows, rest, rfl⟩)))

end Iff

def oneByte (b : UInt8) : ShellSession := ⟨.pipe, 0, [], 1, ⟨[(false, [b])], 0⟩⟩

/-- Nothing is wrong with most bytes. -/
example : (oneByte 65).outcome.stdout = [65] ∧ (oneByte 65).outcome.exit = some 0 := by decide

end SeamProtocol
