import SeamProtocol.Lib.Bytes

/-! # The remote shell

A client, and a worker that runs a command for it, with a byte stream in each direction. The worker
sends what the command writes as it is, and says how the command has ended with one of two frames whose
first byte is just a byte of output. There are three clients, and two workers. The worker sees a stream
with its first byte; a terminal passes bytes on as they are. -/

namespace SeamProtocol

open Lib

/-! ## Frames -/

def shellExit : UInt8 := 0x01

def shellErr : UInt8 := 0x02

def shellStdin : UInt8 := 0x10

def shellStdinEof : UInt8 := 0x11

def shellResize : UInt8 := 0x12

def shellTerm : UInt8 := 0x13

structure StdinChunk where
  bytes : Bytes
  ne_nil : bytes ≠ []
  length_le : bytes.length ≤ 4096

inductive ShellEvent where
  | stdin (chunk : StdinChunk)
  | resize (cols rows : UInt16)

def stdinFrame (chunk : StdinChunk) : Bytes :=
  shellStdin :: beBytes 2 chunk.bytes.length ++ chunk.bytes

def resizeFrame (cols rows : UInt16) : Bytes :=
  shellResize :: beBytes 2 cols.toNat ++ beBytes 2 rows.toNat

def termFrame (term : Bytes) : Bytes :=
  shellTerm :: UInt8.ofNat (min term.length 255) :: term.take 255

/-! ## Clients -/

inductive ShellClient where
  /-- Interactive, with a kind of terminal and, if it is known, its size. -/
  | pty (term : Bytes) (size : Option (UInt16 × UInt16))
  | pipe
  | noStdin

namespace ShellClient

def opening : ShellClient → Bytes
  | .pty term none => termFrame term
  | .pty term (some (cols, rows)) => termFrame term ++ resizeFrame cols rows
  | .pipe | .noStdin => []

def frame : ShellClient → ShellEvent → Bytes
  | .pty _ _, .stdin chunk | .pipe, .stdin chunk => stdinFrame chunk
  | .pty _ _, .resize cols rows => resizeFrame cols rows
  | .pipe, .resize _ _ | .noStdin, _ => []

def framed : ShellClient → List ShellEvent → Bytes
  | .noStdin, _ => []
  | _, events => events.flatMap fun
    | .stdin chunk => chunk.bytes
    | .resize _ _ => []

/-- What it sends at the end of its input; it may notice the end several times. -/
def ending : ShellClient → Nat → Bytes
  | .noStdin, _ => []
  | _, eofs => List.replicate eofs shellStdinEof

def sent (client : ShellClient) (events : List ShellEvent) (eofs : Nat) : Bytes :=
  client.opening ++ events.flatMap client.frame ++ client.ending eofs

end ShellClient

/-! ## Input at the worker -/

/-- **The input of `run_recv_plain`**: what of the bytes so far reaches the command. Any other frame closes
its input. -/
def plainLoop : Nat → Bytes → Bytes
  | fuel + 1, tag :: hi :: lo :: rest =>
    if tag = shellStdin ∧ beNat [hi, lo] ≤ rest.length then
      rest.take (beNat [hi, lo]) ++ plainLoop fuel (rest.drop (beNat [hi, lo]))
    else []
  | _, _ => []

def plainInput (bytes : Bytes) : Bytes := plainLoop bytes.length bytes

/-- **The header of `run_recv_pty`**, with the number of frames that come before the deadline: what is left
of the bytes so far. A byte that begins no frame is taken, too. -/
def headerLoop : Nat → Bytes → Bytes
  | 0, bytes => bytes
  | _ + 1, [] => []
  | inTime + 1, tag :: rest =>
    if tag = shellTerm then
      match rest with
      | [] => []
      | len :: rest => if len.toNat ≤ rest.length then headerLoop inTime (rest.drop len.toNat) else []
    else if tag = shellResize then rest.drop 4
    else rest

/-- **The input of `pty_bridge_loop`**: what of the bytes so far reaches the command, and whether the loop
has ended. -/
def bridgeLoop : Nat → Bytes → Bytes × Bool
  | 0, _ | _ + 1, [] => ([], false)
  | fuel + 1, tag :: rest =>
    if tag = shellStdinEof then ([], true)
    else if tag = shellStdin then
      match rest with
      | hi :: lo :: data =>
        if beNat [hi, lo] ≤ data.length then
          (data.take (beNat [hi, lo]) ++ (bridgeLoop fuel (data.drop (beNat [hi, lo]))).1,
            (bridgeLoop fuel (data.drop (beNat [hi, lo]))).2)
        else ([], false)
      | _ => ([], false)
    else if tag = shellResize then
      if 4 ≤ rest.length then bridgeLoop fuel (rest.drop 4) else ([], false)
    else bridgeLoop fuel rest

/-- **The input of `run_recv_pty`.** The frame that has made the stream visible is there; `inTime` more
come before the deadline. -/
def ptyInput (inTime : Nat) (bytes : Bytes) : Bytes × Bool :=
  bridgeLoop bytes.length (headerLoop (inTime + 1) bytes)

/-! ## Output at the worker -/

structure ShellCommand where
  /-- What it writes, as it is read, and whether that is to its standard error. -/
  output : List (Bool × Bytes)
  code : UInt8

namespace ShellCommand

def written (cmd : ShellCommand) : Bytes := cmd.output.flatMap Prod.snd

def stdout (cmd : ShellCommand) : Bytes := (cmd.output.filter fun chunk => !chunk.1).flatMap Prod.snd

end ShellCommand

def plainOutput (cmd : ShellCommand) : Bytes := cmd.written ++ [shellExit, cmd.code]

structure PtyFds where
  master : Bool
  masterWrite : Bool

/-- They are duplicated, and then the file that owns the first one is dropped. -/
def PtyFds.bridge : PtyFds :=
  let opened : PtyFds := ⟨true, false⟩
  let duplicated : PtyFds := { opened with masterWrite := opened.master }
  { duplicated with master := false }

/-- **The output of `run_recv_pty`**: what can be read from the first descriptor. The exit code is not sent. -/
def ptyOutput (fds : PtyFds) (cmd : ShellCommand) : Bytes := if fds.master then cmd.written else []

/-! ## Output at the client -/

structure ShellOutcome where
  stdout : Bytes
  raw : Bytes
  exit : Option Nat

/-- An error message follows: whether it is complete, or nothing more comes. -/
def errComplete (fin : Bool) (rest : Bytes) : Bool :=
  fin || match rest with
    | hi :: lo :: msg => beNat [hi, lo] ≤ msg.length
    | _ => false

/-- **The output of `run_interactive_pty`**, with the bytes so far and whether the stream has ended. -/
def ptyLoop (fin : Bool) (raw : Bytes) : Bytes → ShellOutcome
  | [] => ⟨raw, raw, if fin then some 0 else none⟩
  | b :: rest =>
    if b = shellExit then
      match rest with
      | code :: _ => ⟨raw, raw, some code.toNat⟩
      | [] => ⟨raw, raw, if fin then some 1 else none⟩
    else if b = shellErr then ⟨raw, raw, if errComplete fin rest then some 1 else none⟩
    else ptyLoop fin (raw ++ [b]) rest

/-- The output of `run_pipe_mode`, which is written 4096 bytes at a time; `missing` is what it exits with
if there is no exit code. What is in the buffer is only written when the command has ended. -/
def bufferedLoop (missing : Nat) (fin : Bool) (raw stdout buf : Bytes) : Bytes → ShellOutcome
  | [] => ⟨stdout, raw, if fin then some 0 else none⟩
  | b :: rest =>
    if b = shellExit then
      match rest with
      | code :: _ => ⟨stdout ++ buf, raw, some code.toNat⟩
      | [] => if fin then ⟨stdout ++ buf, raw, some missing⟩ else ⟨stdout, raw, none⟩
    else if b = shellErr then ⟨stdout, raw, if errComplete fin rest then some 1 else none⟩
    else if 4096 ≤ (buf ++ [b]).length then
      bufferedLoop missing fin (raw ++ [b]) (stdout ++ (buf ++ [b])) [] rest
    else bufferedLoop missing fin (raw ++ [b]) stdout (buf ++ [b]) rest

def pipeLoop (fin : Bool) (bytes : Bytes) : ShellOutcome := bufferedLoop 1 fin [] [] [] bytes

def noStdinLoop (fin : Bool) (bytes : Bytes) : ShellOutcome := bufferedLoop 0 fin [] [] [] bytes

/-! ## Sessions -/

structure ShellSession where
  client : ShellClient
  /-- How many frames come before the deadline of the worker, after the first one. -/
  inTime : Nat
  events : List ShellEvent
  eofs : Nat
  cmd : ShellCommand

namespace ShellSession

def reached (s : ShellSession) (events : List ShellEvent) : Bytes :=
  match s.client with
  | .pty _ _ => (ptyInput s.inTime (s.client.sent events 0)).1
  | .pipe | .noStdin => plainInput (s.client.sent events 0)

/-- **How the session ends for the client.** A worker that has not seen the stream waits for it. -/
def outcome (s : ShellSession) : ShellOutcome :=
  let bytes := s.client.sent s.events s.eofs
  if bytes = [] then ⟨[], [], none⟩
  else
    match s.client with
    | .pty _ _ => ptyLoop (ptyInput s.inTime bytes).2 [] (ptyOutput .bridge s.cmd)
    | .pipe => pipeLoop true (plainOutput s.cmd)
    | .noStdin => noStdinLoop true (plainOutput s.cmd)

/-- **A session is transparent**: all input that the client sends reaches the command at once, and the
client writes what the command does and exits as it does, without having taken any of it for something
else. -/
structure Transparent (s : ShellSession) : Prop where
  reached : ∀ events, events <+: s.events → s.reached events = s.client.framed events
  stdout : s.outcome.stdout = s.cmd.stdout
  raw : s.outcome.raw = s.cmd.written
  exit : s.outcome.exit = some s.cmd.code.toNat

end ShellSession

end SeamProtocol
