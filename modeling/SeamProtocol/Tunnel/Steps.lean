import SeamProtocol.Tunnel.Reader

/-! # What each step of the multiplexers keeps

Both sides of every stream, from `poll_write` on one side to `poll_read` on the other, and one lemma for
each thing that can happen. -/

namespace SeamProtocol

open Lib Function List Option Session Role SortedMap Peers Tunnel Network

/-- If packet number `i` of side `x` has a stream frame and is accepted now, then its stream exists or
may be opened. -/
def Network.takesFrame (P : Primitives) (n : Network) (x : Role) (i : Nat) : Prop :=
  ∀ y ∈ n.accepts P x i, ∀ f ∈ frameOf y, (n.peers.sess x.peer).streams.get? f.streamId = none →
    (n.peers.sess x.peer).refuseNewStream f.streamId = none

instance (P : Primitives) (n : Network) (x : Role) (i : Nat) : Decidable (n.takesFrame P x i) :=
  inferInstanceAs (Decidable (∀ y ∈ n.accepts P x i, ∀ f ∈ frameOf y,
    (n.peers.sess x.peer).streams.get? f.streamId = none →
      (n.peers.sess x.peer).refuseNewStream f.streamId = none))

def unwritten : Option MuxStream → Bytes
  | none => []
  | some m => m.writeRx.flatten

structure Writes (S : TunnelSide) (id : Nat) : Prop where
  put : S.put id = S.written id ++ unwritten (S.mux.streams id)
  fin : (S.sess.streamFor id).finSent = true →
    ∃ m, S.mux.streams id = some m ∧ m.writer = .done
  /-- The writer task leaves its loop when its channel is closed and empty. -/
  closed : ∀ m, S.mux.streams id = some m → m.writer = .closing ∨ m.writer = .done →
    m.writeTx = false ∧ m.writeRx = []
  pending : id ∈ S.mux.pendingStreams → ∃ m, S.mux.streams id = some m ∧ m.writer = .idle
  once : S.mux.pendingStreams.count id ≤ 1

namespace Writes

variable {S S' : TunnelSide} {id : Nat}

theorem iff_of_some {m : MuxStream} (hm : S.mux.streams id = some m) : Writes S id ↔
    S.put id = S.written id ++ m.writeRx.flatten ∧
    ((S.sess.streamFor id).finSent = true → m.writer = .done) ∧
    (m.writer = .closing ∨ m.writer = .done → m.writeTx = false ∧ m.writeRx = []) ∧
    (id ∈ S.mux.pendingStreams → m.writer = .idle) ∧ S.mux.pendingStreams.count id ≤ 1 := by
  constructor
  · rintro ⟨hput, hfin, hclosed, hpending, honce⟩
    rw [hm] at hput hfin hclosed hpending
    exact ⟨hput, by simpa using hfin, hclosed m rfl, by simpa using hpending, honce⟩
  · rintro ⟨hput, hfin, hclosed, hpending, honce⟩
    refine ⟨by rw [hm]; exact hput, fun h => ⟨m, hm, hfin h⟩, fun m' hm' => ?_,
      fun h => ⟨m, hm, hpending h⟩, honce⟩
    rw [hm] at hm'
    cases hm'
    exact hclosed

theorem of_none (h : Writes S id) (hnone : S.mux.streams id = none) :
    S.put id = S.written id ∧ (S.sess.streamFor id).finSent ≠ true ∧
      id ∉ S.mux.pendingStreams := by
  obtain ⟨hput, hfin, -, hpending, -⟩ := h
  rw [hnone] at hput hfin hpending
  simp only [reduceCtorEq, false_and, exists_false, imp_false] at hfin hpending
  exact ⟨by simpa [unwritten] using hput, hfin, hpending⟩

theorem reader (h : Writes S id) {m m' : MuxStream} (hm : S.mux.streams id = some m)
    (hm' : S'.mux.streams id = some m') (hsame : m'.writeTx = m.writeTx ∧ m'.writeRx = m.writeRx ∧
      m'.writer = m.writer) (hput : S'.put id = S.put id) (hwritten : S'.written id = S.written id)
    (hfin : (S'.sess.streamFor id).finSent = (S.sess.streamFor id).finSent)
    (hpending : S'.mux.pendingStreams = S.mux.pendingStreams) : Writes S' id := by
  rw [iff_of_some hm'] at *
  rw [iff_of_some hm] at h
  rw [hsame.1, hsame.2.1, hsame.2.2, hput, hwritten, hfin, hpending]
  exact h

end Writes

/-- Stream `id` is the same to the session, but for what is still to be sent, and to both ends of the
multiplexer. -/
structure SameStream (S S' : TunnelSide) (id : Nat) : Prop where
  recv : (S'.sess.streamFor id).recvSide = (S.sess.streamFor id).recvSide
  fin : (S'.sess.streamFor id).finSent = (S.sess.streamFor id).finSent
  known : S'.sess.streams.get? id = none ↔ S.sess.streams.get? id = none
  frames : framesOn id S'.accepted = framesOn id S.accepted
  handled : S.mux.handled ≤ S.events.length → S'.mux.handled ≤ S'.events.length
  events : eventsOn id S'.events = eventsOn id S.events
  queue : eventsOn id S'.queue = eventsOn id S.queue
  stream : S'.mux.streams id = S.mux.streams id
  pending : S'.mux.pendingStreams.count id = S.mux.pendingStreams.count id
  history : S'.written id = S.written id ∧ S'.readOut id = S.readOut id ∧ S'.put id = S.put id ∧
    S'.got id = S.got id ∧ S'.eof id = S.eof id

namespace SameStream

variable {S S' T : TunnelSide} {id : Nat}

theorem writes (hs : SameStream S S' id) (h : Writes S id) : Writes S' id := by
  obtain ⟨hwritten, -, hput, -⟩ := hs.history
  refine ⟨?_, ?_, ?_, fun hmem => ?_, hs.pending ▸ h.once⟩
  · rw [hput, hwritten, hs.stream]
    exact h.put
  · rw [hs.fin, hs.stream]
    exact h.fin
  · rw [hs.stream]
    exact h.closed
  · rw [hs.stream]
    refine h.pending (count_pos_iff.mp ?_)
    rw [← hs.pending]
    exact count_pos_iff.mpr hmem

theorem delivers (hs : SameStream S S' id) (h : Delivers T S id) : Delivers T S' id := by
  obtain ⟨-, hreadOut, -, hgot, heof⟩ := hs.history
  refine h.congr ⟨hs.recv, hs.known, hs.frames, hs.handled, hs.events, hs.queue, hreadOut, ?_, ?_⟩ ?_
  · rw [hs.stream]
  · rw [hs.stream, hgot]
  · rw [hs.stream, heof]
    exact h.eof

end SameStream

def TunnelSide.setStream (S : TunnelSide) (id : Nat) (m : MuxStream) (put got : Bytes)
    (eof : Bool) : TunnelSide :=
  { S with
    mux := { S.mux with streams := Function.update S.mux.streams id (some m) }
    put := Function.update S.put id put
    got := Function.update S.got id got
    eof := Function.update S.eof id eof }

namespace Tunnel

structure Inv (t : Tunnel) : Prop where
  carried : t.net.peers.Carried
  writes : ∀ x id, Writes (t.side x) id
  delivers : ∀ x id, Delivers (t.side x) (t.side x.peer) id

variable {t : Tunnel}

theorem Inv.delivers_to (h : t.Inv) (z : Role) (id : Nat) : Delivers (t.side z.peer) (t.side z) id := by
  have hto := h.delivers z.peer id
  rwa [peer_peer] at hto

theorem Inv.update {t' : Tunnel} (h : t.Inv) (z : Role) (p : Nat → Prop) {R : TunnelSide}
    (hcarried : t'.net.peers.Carried) (hother : t'.side z.peer = t.side z.peer) (hside : t'.side z = R)
    (hsame : ∀ id, ¬ p id → SameStream (t.side z) R id)
    (hown : ∀ id, p id → Writes R id ∧ Delivers (t.side z.peer) R id ∧
      (((t.side z).sess.streamFor id).finSent = true →
        (R.sess.streamFor id).finSent = true ∧ R.written id = (t.side z).written id)) : t'.Inv := by
  have hcases : ∀ x : Role, x = z ∨ x = z.peer := by
    intro x
    cases x <;> cases z <;> simp [Role.peer]
  subst hside
  have hz : ∀ id, Writes (t'.side z) id ∧ Delivers (t.side z.peer) (t'.side z) id ∧
      (((t.side z).sess.streamFor id).finSent = true →
        ((t'.side z).sess.streamFor id).finSent = true ∧
          (t'.side z).written id = (t.side z).written id) := by
    intro id
    by_cases hp : p id
    · exact hown id hp
    · have hs := hsame id hp
      exact ⟨hs.writes (h.writes z id), hs.delivers (h.delivers_to z id),
        fun hfin => ⟨hs.fin.trans hfin, hs.history.1⟩⟩
  refine ⟨hcarried, fun x id => ?_, fun x id => ?_⟩
  · rcases hcases x with rfl | rfl
    · exact (hz id).1
    · rw [hother]
      exact h.writes _ id
  · rcases hcases x with rfl | rfl
    · rw [hother]
      exact (h.delivers x id).of_sender (hz id).2.2
    · rw [peer_peer, hother]
      exact (hz id).2.1

theorem Inv.channel_to (h : t.Inv) (z : Role) (id : Nat) :
    Channel ((t.side z.peer).sess.streamFor id) ((t.side z).sess.streamFor id)
      ((t.side z.peer).written id) ((t.side z).readOut id) (t.net.peers.frames z.peer id) := by
  have hch := h.carried.channel z.peer id
  rwa [Peers.ChannelOf, peer_peer] at hch

theorem inv_init (c : NetworkConfig) : (init c).Inv := by
  refine ⟨carried_init c, fun x id => ?_, fun x id => ?_⟩
  · refine ⟨rfl, fun hfin => ?_, fun m hm => ?_, fun hmem => (not_mem_nil hmem).elim,
      Nat.zero_le _⟩
    · cases hfin
    · cases hm
  · refine ⟨Nat.zero_le _, rfl, ⟨.absent, rfl, ⟨fun _ => rfl, fun _ => rfl⟩⟩,
      fun f hf => (not_mem_nil hf).elim, fun hmem => (not_mem_nil hmem).elim,
      .inr fun e he => (not_mem_nil he).elim, fun hmem => (not_mem_nil hmem).elim,
      fun hended => ?_, fun heof => ?_⟩
    · cases hended
    · cases heof

/-! ## Changes of one multiplexer -/

@[simp] theorem side_setMux_self (t : Tunnel) (z : Role) (m : Mux) :
    (t.setMux z m).side z = { t.side z with mux := m } := by
  simp [side, setMux]

theorem side_setMux_of_ne (t : Tunnel) {x z : Role} (m : Mux) (h : x ≠ z) :
    (t.setMux z m).side x = t.side x := by
  simp [side, setMux, h]

@[simp] theorem side_setStream_self (t : Tunnel) (z : Role) (id : Nat) (m : MuxStream) :
    (t.setStream z id m).side z = { t.side z with
      mux := { t.mux z with streams := Function.update (t.mux z).streams id (some m) } } :=
  side_setMux_self t z _

theorem side_setStream_of_ne (t : Tunnel) {x z : Role} (id : Nat) (m : MuxStream) (h : x ≠ z) :
    (t.setStream z id m).side x = t.side x :=
  side_setMux_of_ne t _ h

/-- **A step of a multiplexer on one stream** on which nothing is lost: the phase of its data channel
stays, and so does what was read or is on its way. -/
theorem Inv.setStream {t' : Tunnel} (h : t.Inv) {z : Role} {id : Nat} {m m' : MuxStream}
    {put got : Bytes} {eof : Bool} (hm : t.stream z id = some m) (hnet : t'.net = t.net)
    (hother : t'.side z.peer = t.side z.peer)
    (hside : t'.side z = (t.side z).setStream id m' put got eof)
    (hwrites : Writes ((t.side z).setStream id m' put got eof) id) (hphase : m'.dataTx = m.dataTx)
    (hunread : got ++ unread (some m') = t.got z id ++ unread (some m))
    (heof : eof = true → m'.dataTx = false ∧ unread (some m') = []) : t'.Inv := by
  have hm' : (t.side z).mux.streams id = some m := hm
  refine h.update z (· = id) (hnet ▸ h.carried) hother hside (fun id' hid => ?_) ?_
  · exact ⟨rfl, rfl, Iff.rfl, rfl, fun hle => hle, rfl, rfl, update_of_ne hid _ _, rfl, rfl, rfl,
      update_of_ne hid _ _, update_of_ne hid _ _, update_of_ne hid _ _⟩
  · rintro id' rfl
    have hstream : ((t.side z).setStream id' m' put got eof).mux.streams id' = some m' :=
      update_self _ _ _
    refine ⟨hwrites, (h.delivers_to z id').congr
      ⟨rfl, Iff.rfl, rfl, fun hle => hle, rfl, rfl, rfl, ?_, ?_⟩ fun he => ?_, fun hfin => ⟨hfin, rfl⟩⟩
    · rw [hstream, hm', phaseOf, phaseOf, hphase]
    · rw [hstream, hm']
      exact (congrArg (· ++ _) (update_self _ _ _)).trans hunread
    · obtain ⟨htx, hnil⟩ := heof ((update_self _ _ _).symm.trans he)
      rw [hstream]
      exact ⟨by rw [phaseOf, htx]; rfl, hnil⟩

/-! ## Changes of one session -/

open Writes

/-- **A step on the writing end of one stream**: receive sides, events and the reader's end stay, and so
do the other streams. -/
theorem Inv.sender {t' : Tunnel} (h : t.Inv) {z : Role} {id : Nat} {m : MuxStream} {s : Session}
    {w : Nat → Bytes} (hm : t.stream z id = some m) (writeTx : Bool) (writeRx : List Bytes)
    (writer : Writer) (pending : List Nat) (hcarried : t'.net.peers.Carried)
    (hother : t'.side z.peer = t.side z.peer)
    (hside : t'.side z = { t.side z with
      sess := s
      written := w
      mux := { t.mux z with
        streams := Function.update (t.mux z).streams id (some { m with writeTx, writeRx, writer })
        pendingStreams := pending } })
    (hrecv : (t.net.peers.sess z).SameRecv s) (hothers : ∀ id', id' ≠ id →
      (s.streamFor id').finSent = ((t.net.peers.sess z).streamFor id').finSent ∧
      w id' = t.net.peers.written z id' ∧
      pending.count id' = (t.mux z).pendingStreams.count id')
    (hwrites : t.put z id = w id ++ writeRx.flatten ∧
      ((s.streamFor id).finSent = true → writer = .done) ∧
      (writer = .closing ∨ writer = .done → writeTx = false ∧ writeRx = []) ∧
      (id ∈ pending → writer = .idle) ∧ pending.count id ≤ 1)
    (hend : ((t.net.peers.sess z).streamFor id).finSent = true →
      (s.streamFor id).finSent = true ∧ w id = t.net.peers.written z id) : t'.Inv := by
  have hm' : (t.side z).mux.streams id = some m := hm
  refine h.update z (· = id) hcarried hother hside (fun id' hid => ?_) ?_
  · obtain ⟨hfin, hw, hpending⟩ := hothers id' hid
    exact ⟨hrecv.streamFor id', hfin, hrecv.get?_eq_none_iff id', rfl, fun hle => hle, rfl, rfl,
      update_of_ne hid _ _, hpending, hw, rfl, rfl, rfl, rfl⟩
  · rintro id' rfl
    have hstream := update_self id' (some { m with writeTx, writeRx, writer })
      (t.mux z).streams
    have hold := h.delivers_to z id'
    have heof := hold.eof
    rw [hm'] at heof
    refine ⟨(iff_of_some (m := { m with writeTx, writeRx, writer }) hstream).mpr hwrites,
      hold.congr ⟨hrecv.streamFor id', hrecv.get?_eq_none_iff id', rfl, fun hle => hle, rfl, rfl, rfl,
        ?_, ?_⟩ ?_, hend⟩
    · dsimp only
      rw [hstream, hm']
      rfl
    · dsimp only
      rw [hstream, hm']
      rfl
    · dsimp only
      rw [hstream]
      exact heof

theorem flush_eq {P : Primitives} {t' : Tunnel} {z : Role} {now : Nat} {order : List Nat} {fits : Nat}
    {ok : Bool} (h : t.flush P z now order fits = some (ok, t')) :
    order.Perm (t.net.peers.sess z).streams.keys ∧
    t.net.step P (.flush z now order) = some t'.net ∧ t'.side z.peer = t.side z.peer ∧
    t'.side z = { t.side z with sess := ((t.net.peers.sess z).flushed P now order).sess } ∧
    (ok = true ↔ ((t.net.peers.sess z).flushed P now order).error = none) := by
  obtain ⟨net, hnet, heq⟩ := map_eq_some_iff.mp h
  obtain ⟨hperm, hcases⟩ := flush_step_cases hnet
  have hpeer := peer_ne z
  have hpeers : net.peers = t.net.peers.during z ((t.net.peers.sess z).flushed P now order) := by
    rcases hcases with ⟨e, -, rfl⟩ | ⟨-, rfl⟩ <;> rfl
  have hsides : ∀ sent : Role → List Nat,
      side { t with net, sent } z.peer = t.side z.peer ∧
      side { t with net, sent } z
        = { t.side z with sess := ((t.net.peers.sess z).flushed P now order).sess } := by
    simp [side, hpeers, during, setSess, hpeer]
  rcases (t.net.peers.sess z).flush_cases P now order with ⟨e, herr, hflush⟩ | ⟨herr, hflush⟩
  · rw [hflush] at heq
    cases heq
    refine ⟨hperm, hnet, (hsides t.sent).1, (hsides t.sent).2, by simp, fun hnone => ?_⟩
    rw [herr] at hnone
    cases hnone
  · rw [hflush] at heq
    cases heq
    exact ⟨hperm, hnet, (hsides _).1, (hsides _).2, fun _ => herr, fun _ => rfl⟩

section Steps

variable {P : Primitives} {c : NetworkConfig} {t t' : Tunnel} {z : Role}

theorem Inv.net_step (hP : P.Lawful) (hw : Network.Wired P c t.net) (h : t.Inv) {ev : NetEvent}
    {net : Network} (hnet : t.net.step P ev = some net) (hfresh : t.net.opensFresh ev) :
    Network.Wired P c net ∧ net.peers.Carried :=
  ⟨wired_step hP hw hnet, carried_step hP hw h.carried hfresh hnet⟩

theorem Inv.flush (hP : P.Lawful) (hw : Network.Wired P c t.net) (h : t.Inv) {now : Nat}
    {order : List Nat} {fits : Nat} {ok : Bool} (hflush : t.flush P z now order fits = some (ok, t')) :
    Network.Wired P c t'.net ∧ t'.Inv := by
  obtain ⟨-, hnet, hother, hside, -⟩ := flush_eq hflush
  have hrecv := (t.net.peers.sess z).flushed_sameRecv P now order
  obtain ⟨hwired, hcarried⟩ := h.net_step hP hw hnet trivial
  refine ⟨hwired, h.update z (fun _ => False) hcarried hother hside (fun id _ => ?_) nofun⟩
  exact ⟨hrecv.streamFor id, ((t.net.peers.sess z).flushed_sendSide P now order id).1,
    hrecv.get?_eq_none_iff id, rfl, fun hle => hle, rfl, rfl, rfl, rfl, rfl, rfl, rfl, rfl, rfl⟩

theorem flush_setStream (P : Primitives) (t : Tunnel) (z : Role) (now : Nat) (order : List Nat)
    (fits : Nat) (id : Nat) (m : MuxStream) :
    (t.setStream z id m).flush P z now order fits
      = (t.flush P z now order fits).map fun r => (r.1, r.2.setStream z id m) := by
  unfold flush
  rw [Option.map_map]
  congr 1
  funext net
  have hsess : (t.setStream z id m).net = t.net := rfl
  rw [hsess]
  cases ((t.net.peers.sess z).flush P now order).1 <;> rfl

variable {id : Nat} {m : MuxStream} {net : Network}

theorem Inv.send (hP : P.Lawful) (hw : Network.Wired P c t.net) (h : t.Inv) {data : Bytes}
    {rest : List Bytes} (hm : t.stream z id = some m) (hwriter : m.writer = .looping)
    (hqueue : m.writeRx = data :: rest) (hok : ((t.net.peers.sess z).send id data).1 = .ok ())
    (hnet : t.net.step P (.send z id data) = some net) :
    Network.Wired P c net ∧
      (({ t with net } : Tunnel).setStream z id { m with writeRx := rest }).Inv := by
  have hpeer := peer_ne z
  obtain ⟨hwired, hcarried⟩ := h.net_step hP hw hnet trivial
  refine ⟨hwired, ?_⟩
  rcases (t.net.peers.sess z).send_cases id data with
    ⟨e, heq, -⟩ | ⟨e, s', heq, -, -, -⟩ | ⟨stream, hget, hfin, -, -, heq⟩
  · rw [heq] at hok
    cases hok
  · rw [heq] at hok
    cases hok
  cases hnet
  obtain ⟨hput, -, -, hpending, honce⟩ := (iff_of_some hm).mp (h.writes z id)
  -- the stream is not finished, and finishing is left to others
  have hsame : ∀ id', ((((t.net.peers.sess z).send id data).2).streamFor id').finSent
      = ((t.net.peers.sess z).streamFor id').finSent := by
    intro id'
    rw [heq, streamFor_insert rfl]
    split_ifs with hid
    · rw [hid, streamFor_of_get? hget]
    · rfl
  have hopen : ((t.net.peers.sess z).streamFor id).finSent = false := by
    rw [streamFor_of_get? hget, hfin]
  have hpeers : t.net.peers.send z id data = { t.net.peers.setSess z
      ((t.net.peers.sess z).send id data).2 with
      written := Function.update t.net.peers.written z
        (Function.update (t.net.peers.written z) id (t.net.peers.written z id ++ data)) } := by
    unfold Peers.send
    rw [heq]
    rfl
  refine h.sender (s := ((t.net.peers.sess z).send id data).2)
    (w := Function.update (t.net.peers.written z) id (t.net.peers.written z id ++ data))
    hm m.writeTx rest m.writer _ hcarried ?_ ?_ ((t.net.peers.sess z).send_sameRecv id data)
    (fun id' hid => ⟨hsame id', update_of_ne hid _ _, rfl⟩)
    ⟨?_, fun hfin' => ?_, ?_, fun hmem => hpending hmem, honce⟩ fun hfin' => ?_
  · rw [side_setStream_of_ne _ _ _ hpeer]
    simp [side, hpeers, Peers.setSess, hpeer]
  · rw [side_setStream_self]
    simp [side, hpeers, Peers.setSess]
  · rw [update_self, show t.put z id = _ from hput, hqueue, flatten_cons,
      append_assoc]
    rfl
  · rw [hsame, hopen] at hfin'
    cases hfin'
  · rw [hwriter]
    simp
  · rw [hopen] at hfin'
    cases hfin'

theorem Inv.finish (hP : P.Lawful) (hw : Network.Wired P c t.net) (h : t.Inv)
    (hm : t.stream z id = some m) (hwriter : m.writer = .closing)
    (hnet : t.net.step P (.app z (.finish id)) = some net) :
    Network.Wired P c net ∧
      (({ t with net } : Tunnel).setStream z id { m with writer := .done }).Inv := by
  have hpeer := peer_ne z
  obtain ⟨hwired, hcarried⟩ := h.net_step hP hw hnet trivial
  refine ⟨hwired, ?_⟩
  cases hnet
  obtain ⟨hput, -, hclosed, hpending, honce⟩ := (iff_of_some hm).mp (h.writes z id)
  have hfin : ∀ id', id' ≠ id → (((t.net.peers.sess z).finishStream id).streamFor id').finSent
      = ((t.net.peers.sess z).streamFor id').finSent := by
    intro id' hid
    unfold finishStream
    split
    · rfl
    · rw [streamFor_insert rfl, if_neg hid]
  have hfinished : ((t.net.peers.sess z).streamFor id).finSent = true →
      (((t.net.peers.sess z).finishStream id).streamFor id).finSent = true := by
    intro hold
    unfold finishStream
    split
    · exact hold
    · rw [streamFor_insert rfl, if_pos rfl]
      rfl
  refine h.sender (s := (t.net.peers.sess z).finishStream id) (w := t.net.peers.written z)
    hm m.writeTx m.writeRx .done _ hcarried ?_ ?_ ((t.net.peers.sess z).finishStream_sameRecv id)
    (fun id' hid => ⟨hfin id' hid, rfl, rfl⟩)
    ⟨hput, fun _ => rfl, fun _ => hclosed (.inl hwriter), fun hmem => ?_, honce⟩
    fun hold => ⟨hfinished hold, rfl⟩
  · rw [side_setStream_of_ne _ _ _ hpeer]
    simp [side, setSess, hpeer]
  · rw [side_setStream_self]
    simp [side, setSess]
  · cases hwriter.symm.trans (hpending hmem)

theorem Inv.drainCcAck (hP : P.Lawful) (hw : Network.Wired P c t.net) (h : t.Inv)
    (hnet : t.net.step P (.app z .drainCcAck) = some net) :
    Network.Wired P c net ∧ ({ t with net } : Tunnel).Inv := by
  have hpeer := peer_ne z
  obtain ⟨hwired, hcarried⟩ := h.net_step hP hw hnet trivial
  refine ⟨hwired, ?_⟩
  cases hnet
  refine h.update z (fun _ => False) (R := { t.side z with sess := (t.net.peers.sess z).drainCcAck.2 })
    hcarried ?_ ?_ (fun id _ => ⟨rfl, rfl, Iff.rfl, rfl, fun hle => hle, rfl, rfl, rfl, rfl, rfl, rfl,
      rfl, rfl, rfl⟩) nofun
  · simp [side, setSess, hpeer]
  · simp [side, setSess]

theorem framesOn_cons (id : Nat) (y : Decoded) (log : List Decoded) :
    framesOn id (y :: log) = ((frameOf y).filter fun f => f.streamId = id).toList
      ++ framesOn id log := by
  rw [framesOn, filterMap_cons, framesOn]
  cases (frameOf y).filter fun f => f.streamId = id <;> rfl

variable {s : Session}

theorem sameStream_received {S : TunnelSide} {y : Decoded} {e : List SessionEvent} {i : Nat}
    (hhandled : S.mux.handled ≤ S.events.length) (hget : s.streams.get? i = S.sess.streams.get? i)
    (hframe : ∀ f ∈ frameOf y, f.streamId ≠ i) (hevs : ∀ ev ∈ e, ev.streamId? ≠ some i) :
    SameStream S { S with sess := s, accepted := y :: S.accepted, events := S.events ++ e } i := by
  have hfor : s.streamFor i = S.sess.streamFor i := by
    rw [streamFor, hget]
    rfl
  have hevents : ∀ q, eventsOn i (q ++ e) = eventsOn i q := by
    intro q
    rw [eventsOn, filter_append]
    exact (congrArg _ (eventsOn_eq_nil hevs)).trans (append_nil _)
  refine ⟨congrArg _ hfor, congrArg _ hfor, by rw [hget], ?_, fun _ => ?_, hevents _, ?_, rfl, rfl, rfl,
    rfl, rfl, rfl, rfl⟩
  · rw [framesOn_cons, filter_eq_none_iff.mpr (by simpa using hframe)]
    rfl
  · exact hhandled.trans (by simp)
  · rw [TunnelSide.queue, drop_append_of_le_length hhandled]
    exact hevents _

theorem Inv.deliver (hP : P.Lawful) (hw : Network.Wired P c t.net) (h : t.Inv) {x : Role}
    {i now : Nat} (hlast : t.net.finLast P x i) (htakes : t.net.takesFrame P x i)
    (hnet : t.net.step P (.deliver x i now) = some net) :
    Network.Wired P c net ∧ ({ t with net } : Tunnel).Inv := by
  obtain ⟨hwired, hcarried⟩ := h.net_step hP hw hnet trivial
  refine ⟨hwired, ?_⟩
  rcases hw.deliver_cases hP hnet with ⟨-, rfl⟩ | ⟨y, p, hy, hlog, -, hacc, rfl⟩
  · exact h
  obtain ⟨z, rfl⟩ : ∃ z : Role, x = z.peer := ⟨x.peer, x.peer_peer.symm⟩
  have hpeer := peer_ne z
  rw [peer_peer] at hacc
  have hlast' := hlast y hy
  have htakes' := htakes y hy
  rw [peer_peer] at hlast' htakes'
  obtain ⟨⟨res, s⟩, hdisp, rfl⟩ := map_eq_some_iff.mp hacc
  have hother : side { t with net := { t.net with peers := t.net.peers.received z y res s } } z.peer
      = t.side z.peer := by
    simp [side, received, hpeer]
  obtain ⟨evs, hevs⟩ : ∃ evs, evs = res.toOption.getD [] := ⟨_, rfl⟩
  have hside : side { t with net := { t.net with peers := t.net.peers.received z y res s } } z
      = { t.side z with
        sess := s
        accepted := y :: t.net.peers.accepted z
        events := t.net.peers.events z ++ evs } := by
    subst hevs
    cases res <;> simp [side, received, Except.toOption]
  have hsame := fun id hget hframe hne => sameStream_received (S := t.side z) (s := s) (y := y)
    (e := evs) (i := id) (h.delivers_to z id).handled hget hframe hne
  -- a packet that reaches no stream
  have hnoFrame : s.streams = (t.net.peers.sess z).streams → frameOf y = none →
      (∀ ev ∈ evs, ev.streamId? = none) →
      Inv { t with net := { t.net with peers := t.net.peers.received z y res s } } := by
    intro hstreams hframe hnone
    refine h.update z (fun _ => False) hcarried hother hside (fun id _ => ?_) fun _ hid => hid.elim
    refine hsame id (by rw [hstreams]; rfl) (by simp [hframe]) fun ev hev => ?_
    rw [hnone ev hev]
    simp
  by_cases htype : y.1 = .data
  · rcases h.carried.dispatch_data hlog htype hdisp with
      ⟨hstreams, ⟨hframe, rfl⟩ | ⟨f, e, hframe, hget, hrefuse, -⟩⟩ |
        ⟨f, stream', hframe, hmem, hstream', rfl, hstreams⟩
    · refine hnoFrame hstreams hframe fun ev hev => ?_
      rw [hevs] at hev
      exact (not_mem_nil hev).elim
    · rw [htakes' f hframe hget] at hrefuse
      cases hrefuse
    · have hfinSent : (s.streamFor f.streamId).finSent
          = ((t.net.peers.sess z).streamFor f.streamId).finSent := by
        rw [streamFor_insert hstreams, if_pos rfl, hstream']
        exact congrArg Stream.SendSide.finSent (Stream.receive_sendSide _ _ _ _)
      refine h.update z (· = f.streamId) hcarried hother hside (fun id hid => ?_) ?_
      · refine hsame id (by rw [hstreams, get?_insert_of_ne _ _ hid]; rfl) ?_ fun ev hev => ?_
        · rw [hframe]
          rintro _ ⟨⟩
          exact Ne.symm hid
        · rw [hevs] at hev
          rw [streamId?_of_mem_frameEvents hev]
          exact fun hbad => hid (Option.some.inj hbad).symm
      · rintro id rfl
        have hold := h.writes z f.streamId
        refine ⟨⟨hold.put, fun hfin => hold.fin (hfinSent.symm.trans hfin), hold.closed, hold.pending,
          hold.once⟩, ?_, fun hfin => ⟨hfinSent.trans hfin, rfl⟩⟩
        refine (h.delivers_to z f.streamId).received (h.channel_to z f.streamId) hmem
          (hlast' f hframe) hstream' hstreams ?_ (by rw [hevs]; rfl) rfl rfl rfl rfl
        rw [framesOn_cons, hframe, filter_some, if_pos (decide_eq_true rfl)]
        rfl
  · have hstreams : s.streams = ((t.net.peers.sess z).noted y now).streams :=
      dispatch_streams htype hdisp
    refine hnoFrame hstreams (if_neg htype) fun ev hev => ?_
    rw [hevs] at hev
    cases res with
    | ok events => exact dispatch_events htype hdisp ev hev
    | error e => exact (not_mem_nil hev).elim

theorem Inv.openStream (hP : P.Lawful) (hw : Network.Wired P c t.net) (h : t.Inv)
    (hopen : ((t.net.peers.sess z).tryOpenStreamWithPriority priorityDefault).1 = some id)
    (hnone : (t.net.peers.sess z).streams.get? (t.net.peers.sess z).nextStreamId = none)
    (hnet : t.net.step P (.app z (.openStream priorityDefault)) = some net) :
    Network.Wired P c net ∧ (({ t with net } : Tunnel).setStream z id .opened).Inv := by
  have hpeer := peer_ne z
  obtain ⟨hwired, hcarried⟩ := h.net_step hP hw hnet hnone
  refine ⟨hwired, ?_⟩
  cases hnet
  set s := ((t.net.peers.sess z).tryOpenStreamWithPriority priorityDefault).2 with hs
  -- the call has not refused: the id is the next one, and the stream is a fresh one
  unfold tryOpenStreamWithPriority at hopen hs
  split_ifs at hopen hs
  cases hopen
  set id := (t.net.peers.sess z).nextStreamId
  have hget : ∀ id', s.streams.get? id' = if id' = id
      then some { Stream.new id' with priority := priorityDefault }
      else (t.net.peers.sess z).streams.get? id' := by
    intro id'
    rw [hs]
    split_ifs with hid
    · rw [hid, get?_insert_self]
    · rw [get?_insert_of_ne _ _ hid]
  have hfor : ∀ id', (s.streamFor id').recvSide = ((t.net.peers.sess z).streamFor id').recvSide ∧
      (s.streamFor id').finSent = ((t.net.peers.sess z).streamFor id').finSent := by
    intro id'
    rw [streamFor, hget]
    split_ifs with hid
    · rw [hid, streamFor, hnone]
      exact ⟨rfl, rfl⟩
    · exact ⟨rfl, rfl⟩
  set m : Mux := { t.mux z with streams := Function.update (t.mux z).streams id (some .opened) }
    with hmux
  have hopened : m.streams id = some .opened := update_self _ _ _
  obtain ⟨hms, hdelivers⟩ := (h.delivers_to z id).opened hnone (s := s) (m := m) (hfor _).1
    (by rw [hget, if_pos rfl]; exact some_ne_none _) rfl hopened (t.put z)
  obtain ⟨hput, hfin, hpending⟩ := (h.writes z id).of_none hms
  refine h.update z (· = id) (R := { t.side z with sess := s, mux := m }) hcarried ?_ ?_
    (fun id' hid => ?_) ?_
  · rw [side_setStream_of_ne _ _ _ hpeer]
    simp [side, setSess, hpeer]
  · rw [side_setStream_self]
    simp [side, setSess, hmux]
  · refine ⟨(hfor id').1, (hfor id').2, ?_, rfl, fun hle => hle, rfl, rfl,
      update_of_ne hid _ _, rfl, rfl, rfl, rfl, rfl, rfl⟩
    rw [hget, if_neg hid]
    rfl
  · rintro id' rfl
    exact ⟨(iff_of_some hopened).mpr ⟨hput.trans (append_nil _).symm,
      fun hf => absurd ((hfor _).2.symm.trans hf) hfin, by simp [MuxStream.opened], fun hmem => absurd hmem hpending,
      (h.writes z _).once⟩, hdelivers, fun hf => absurd hf hfin⟩

variable {ev : SessionEvent}

theorem Inv.handled (h : t.Inv) {o : Nat → Bytes} {m : Mux}
    (hev : (t.net.peers.events z)[(t.mux z).handled]? = some ev) (hcarried : t'.net.peers.Carried)
    (hother : t'.side z.peer = t.side z.peer)
    (hside : t'.side z = { t.side z with sess := s, readOut := o, mux := m })
    (hfin : ∀ id, (s.streamFor id).finSent = ((t.net.peers.sess z).streamFor id).finSent)
    (hhandled : m.handled = (t.mux z).handled + 1)
    (hothers : ∀ id, ev.streamId? ≠ some id → s.streams.get? id = (t.net.peers.sess z).streams.get? id ∧ o id = t.net.peers.readOut z id ∧ m.streams id = (t.mux z).streams id ∧ m.pendingStreams.count id = (t.mux z).pendingStreams.count id)
    (hown : ∀ id, ev.streamId? = some id → Writes { t.side z with sess := s, readOut := o, mux := m } id ∧ Delivers (t.side z.peer) { t.side z with sess := s, readOut := o, mux := m } id) :
    t'.Inv := by
  have hev' : (t.side z).events[(t.side z).mux.handled]? = some ev := hev
  refine h.update z (ev.streamId? = some ·) hcarried hother hside (fun id hid => ?_) fun id hid =>
    ⟨(hown id hid).1, (hown id hid).2, fun hold => ⟨(hfin id).trans hold, rfl⟩⟩
  obtain ⟨hget, hout, hstream, hpending⟩ := hothers id hid
  have hfor : s.streamFor id = (t.net.peers.sess z).streamFor id := by
    rw [streamFor, hget]
    rfl
  refine ⟨congrArg _ hfor, hfin id, by rw [hget]; rfl, rfl, fun _ => ?_, rfl, ?_, hstream, hpending, rfl,
    hout, rfl, rfl, rfl⟩
  · exact hhandled.trans_le (List.getElem?_eq_some_iff.mp hev').1
  · -- the event taken is about another stream
    rw [Delivers.queue_cons hev', TunnelSide.queue, hhandled]
    exact (filter_cons_of_neg (by simpa using hid)).symm

theorem Inv.handled_mux (h : t.Inv) {m : Mux}
    (hev : (t.net.peers.events z)[(t.mux z).handled]? = some ev) (ht' : t' = t.setMux z m)
    (hhandled : m.handled = (t.mux z).handled + 1)
    (hothers : ∀ id, ev.streamId? ≠ some id → m.streams id = (t.mux z).streams id ∧ m.pendingStreams.count id = (t.mux z).pendingStreams.count id)
    (hown : ∀ id, ev.streamId? = some id → Writes { t.side z with mux := m } id ∧ Delivers (t.side z.peer) { t.side z with mux := m } id) :
    t'.Inv := by
  subst ht'
  exact h.handled hev h.carried (s := t.net.peers.sess z) (o := t.net.peers.readOut z) (m := m)
    (side_setMux_of_ne t m (peer_ne z)) (side_setMux_self t z m) (fun _ => rfl) hhandled
    (fun id hid => ⟨rfl, rfl, hothers id hid⟩) hown

theorem Inv.newStream (h : t.Inv)
    (hev : (t.net.peers.events z)[(t.mux z).handled]? = some (.newStream id))
    (hhandle : (t.setMux z { t.mux z with handled := (t.mux z).handled + 1 }).handle P z
      (.newStream id) = some t') : t'.net = t.net ∧ t'.Inv := by
  set m : Mux := { t.mux z with
    streams := Function.update (t.mux z).streams id (some .announced)
    pendingStreams := (t.mux z).pendingStreams ++ [id]
    handled := (t.mux z).handled + 1 } with hmux
  have hstream : m.streams id = some .announced := update_self _ _ _
  obtain ⟨hnone, hdelivers⟩ := (h.delivers_to z id).newStream hev (m := m) rfl hstream
  obtain ⟨hput, hfin, hpending⟩ := (h.writes z id).of_none hnone
  cases hhandle
  refine ⟨rfl, h.handled_mux hev (m := m) (by simp [Tunnel.setStream, setMux, hmux]) rfl
    (fun id' hid => ?_) fun id' hid => ?_⟩
  · have hne : id' ≠ id := fun heq => hid (congrArg some heq.symm)
    refine ⟨update_of_ne hne _ _, ?_⟩
    rw [count_append, count_singleton, if_neg (by simpa using hne.symm), Nat.add_zero]
  · cases hid
    refine ⟨(iff_of_some hstream).mpr ⟨hput.trans (append_nil _).symm,
      fun hf => absurd hf hfin, nofun, fun _ => rfl, ?_⟩, hdelivers⟩
    have hcount : (t.mux z).pendingStreams.count id = 0 := count_eq_zero.mpr hpending
    rw [count_append, hcount, count_singleton_self]

theorem Inv.streamFinished (h : t.Inv)
    (hev : (t.net.peers.events z)[(t.mux z).handled]? = some (.streamFinished id))
    (hhandle : (t.setMux z { t.mux z with handled := (t.mux z).handled + 1 }).handle P z
      (.streamFinished id) = some t') : t'.net = t.net ∧ t'.Inv := by
  obtain ⟨ms, hms⟩ := (h.delivers_to z id).exists_stream hev (.inr rfl)
  set m : Mux := { t.mux z with
    streams := Function.update (t.mux z).streams id (some { ms with dataTx := false })
    handled := (t.mux z).handled + 1 } with hmux
  have hstream : m.streams id = some { ms with dataTx := false } := update_self _ _ _
  have hget : (t.setMux z { t.mux z with handled := (t.mux z).handled + 1 }).stream z id
      = some ms := by
    simp only [stream, setMux, update_self]
    exact hms
  rw [handle, hget] at hhandle
  cases hhandle
  refine ⟨rfl, h.handled_mux hev (m := m) (by simp [Tunnel.setStream, setMux, hmux]) rfl
    (fun id' hid => ?_) fun id' hid => ?_⟩
  · have hne : id' ≠ id := fun heq => hid (congrArg some heq.symm)
    exact ⟨update_of_ne hne _ _, rfl⟩
  · cases hid
    exact ⟨(h.writes z id).reader hms hstream ⟨rfl, rfl, rfl⟩ rfl rfl rfl rfl,
      (h.delivers_to z id).streamFinished hev rfl hms hstream⟩

theorem setStream_eq_self {x : Role} (hm : t.stream x id = some m) : t.setStream x id m = t := by
  have hstreams : Function.update (t.mux x).streams id (some m) = (t.mux x).streams := by
    simp [← hm, stream]
  simp [setStream, hstreams, setMux]

theorem handle_dataAvailable {x : Role} {data : Bytes} {ms : MuxStream}
    (hnet : t.net.step P (.read x id 65536) = some net)
    (hread : (t.net.peers.sess x).read id 65536 = some (.ok data, s))
    (hms : t.stream x id = some ms) :
    t.handle P x (.dataAvailable id) = some (({ t with net } : Tunnel).setStream x id
      (if data ≠ [] ∧ ms.dataTx then { ms with dataRx := ms.dataRx ++ [data] } else ms)) := by
  have hms' : ({ t with net } : Tunnel).stream x id = some ms := hms
  rw [handle, hnet, hread, map_some]
  dsimp only
  rw [hms']
  dsimp only
  split_ifs
  · rfl
  · rw [setStream_eq_self hms']

theorem Inv.dataAvailable (hP : P.Lawful) (hw : Network.Wired P c t.net) (h : t.Inv)
    (hev : (t.net.peers.events z)[(t.mux z).handled]? = some (.dataAvailable id))
    (hall : ((t.net.peers.sess z).streamFor id).ReadsAll 65536)
    (hhandle : (t.setMux z { t.mux z with handled := (t.mux z).handled + 1 }).handle P z
      (.dataAvailable id) = some t') : Network.Wired P c t'.net ∧ t'.Inv := by
  have hpeer := peer_ne z
  have hdel := h.delivers_to z id
  obtain ⟨ms, hms⟩ := hdel.exists_stream hev (.inl rfl)
  have hknown := hdel.known hms
  obtain ⟨net, hnet, -⟩ := map_eq_some_iff.mp hhandle
  replace hnet : t.net.step P (.read z id 65536) = some net := hnet
  obtain ⟨hwired, hcarried⟩ := h.net_step hP hw hnet trivial
  obtain ⟨p, hp, hnet'⟩ := map_eq_some_iff.mp hnet
  obtain ⟨⟨r, s⟩, hread, hp⟩ := map_eq_some_iff.mp hp
  rcases read_cases hread with
    ⟨hnone, -, -⟩ | ⟨stream, data, stream', hget, hsread, rfl, hs⟩
  · exact absurd hnone hknown
  have hfor := streamFor_of_get? hget
  have hstreams : s.streams = (t.net.peers.sess z).streams.insert id stream' := by rw [hs]
  have hms1 : (t.setMux z { t.mux z with handled := (t.mux z).handled + 1 }).stream z id
      = some ms := by
    simp only [Tunnel.stream, setMux, update_self]
    exact hms
  rw [handle_dataAvailable (t := t.setMux z { t.mux z with handled := (t.mux z).handled + 1 })
    hnet hread hms1] at hhandle
  cases hhandle
  set ms' : MuxStream := if data ≠ [] ∧ ms.dataTx then { ms with dataRx := ms.dataRx ++ [data] }
    else ms with hms'
  have hsend : ms'.writeTx = ms.writeTx ∧ ms'.writeRx = ms.writeRx ∧ ms'.writer = ms.writer := by
    rw [hms']
    split_ifs <;> exact ⟨rfl, rfl, rfl⟩
  set m : Mux := { t.mux z with
    streams := Function.update (t.mux z).streams id (some ms')
    handled := (t.mux z).handled + 1 } with hmux
  have hstream : m.streams id = some ms' := update_self _ _ _
  set out := Function.update (t.net.peers.readOut z) id (t.net.peers.readOut z id ++ data) with hout
  have hfin : ∀ id', (s.streamFor id').finSent
      = ((t.net.peers.sess z).streamFor id').finSent := by
    intro id'
    rw [streamFor_insert hstreams]
    split_ifs with hid
    · obtain ⟨popped, hpop⟩ := Stream.read_eq_some hsread
      rw [hid, hfor, hpop]
    · rfl
  refine ⟨hwired, h.handled hev hcarried (s := s) (o := out) (m := m) ?_ ?_ hfin rfl
    (fun id' hid => ?_) fun id' hid => ?_⟩
  · subst hp hnet'
    simp [side, Tunnel.setStream, setMux, setSess, hpeer]
  · subst hp hnet'
    simp [side, Tunnel.setStream, setMux, setSess, hmux, hout]
  · have hne : id' ≠ id := fun heq => hid (congrArg some heq.symm)
    refine ⟨?_, update_of_ne hne _ _, update_of_ne hne _ _, rfl⟩
    rw [hstreams, get?_insert_of_ne _ _ hne]
  · cases hid
    refine ⟨(h.writes z id).reader hms hstream hsend rfl rfl (hfin id) rfl,
      hdel.dataAvailable hev (h.channel_to z id) hall ?_ hknown hstreams
        (update_self _ _ _) hms rfl hstream⟩
    show ((t.net.peers.sess z).streamFor id).read 65536 = some (data, stream')
    rw [hfor, hsread]

theorem Inv.event (hP : P.Lawful) (hw : Network.Wired P c t.net) (h : t.Inv)
    (hev : (t.net.peers.events z)[(t.mux z).handled]? = some ev)
    (hall : ∀ id, ev = .dataAvailable id → ((t.net.peers.sess z).streamFor id).ReadsAll 65536)
    (hhandle : (t.setMux z { t.mux z with handled := (t.mux z).handled + 1 }).handle P z ev = some t') :
    Network.Wired P c t'.net ∧ t'.Inv := by
  -- an event that is about no stream
  have hnone : ∀ m : Mux, ev.streamId? = none → m.streams = (t.mux z).streams →
      m.pendingStreams = (t.mux z).pendingStreams → m.handled = (t.mux z).handled + 1 →
      t' = t.setMux z m → Network.Wired P c t'.net ∧ t'.Inv := by
    intro m hid hstreams hpending hhandled ht'
    refine ⟨ht' ▸ hw, h.handled_mux hev ht' hhandled
      (fun id _ => ⟨congrFun hstreams id, by rw [hpending]⟩) fun id hid' => ?_⟩
    rw [hid] at hid'
    cases hid'
  cases ev with
  | newStream id =>
    obtain ⟨hnet, ht'⟩ := h.newStream hev hhandle
    exact ⟨hnet ▸ hw, ht'⟩
  | dataAvailable id => exact h.dataAvailable hP hw hev (hall id rfl) hhandle
  | streamFinished id =>
    obtain ⟨hnet, ht'⟩ := h.streamFinished hev hhandle
    exact ⟨hnet ▸ hw, ht'⟩
  | closed =>
    cases hhandle
    exact hnone { t.mux z with handled := (t.mux z).handled + 1, running := false }
      rfl rfl rfl rfl (by simp [setMux])
  | datagramReceived | sessionTicket _ | pathChallengeReceived _ | pathResponseReceived _ =>
    cases hhandle
    exact hnone { t.mux z with handled := (t.mux z).handled + 1 } rfl rfl rfl rfl rfl

/-! ## What the application does -/

theorem side_setStream_history (t : Tunnel) (z : Role) (id : Nat) (m : MuxStream) (put got : Bytes)
    (eof : Bool) :
    side { t.setStream z id m with
      put := Function.update t.put z (Function.update (t.put z) id put)
      got := Function.update t.got z (Function.update (t.got z) id got)
      eof := Function.update t.eof z (Function.update (t.eof z) id eof) } z
        = (t.side z).setStream id m put got eof ∧
    ∀ x, x ≠ z → side { t.setStream z id m with
      put := Function.update t.put z (Function.update (t.put z) id put)
      got := Function.update t.got z (Function.update (t.got z) id got)
      eof := Function.update t.eof z (Function.update (t.eof z) id eof) } x = t.side x := by
  refine ⟨?_, fun x hx => ?_⟩
  · simp [side, TunnelSide.setStream, setStream, setMux]
  · simp [side, setStream, setMux, hx]

theorem Inv.closed_of_eof (h : t.Inv) (hm : t.stream z id = some m) (heof : t.eof z id = true) :
    m.dataTx = false ∧ unread (some m) = [] := by
  have hm' : (t.side z).mux.streams id = some m := hm
  obtain ⟨hended, hnil⟩ := (h.delivers_to z id).eof heof
  rw [hm'] at hended hnil
  refine ⟨?_, hnil⟩
  rw [phaseOf] at hended
  split_ifs at hended with hdata
  exact Bool.not_eq_true _ ▸ hdata

theorem Inv.pollWrite (h : t.Inv) (data : Bytes) (hm : t.stream z id = some m)
    (htx : m.writeTx = true) :
    Inv { t.setStream z id { m with writeRx := m.writeRx ++ [data] } with
      put := Function.update t.put z (Function.update (t.put z) id (t.put z id ++ data)) } := by
  obtain ⟨hput, hfin, hclosed, hpending, honce⟩ := (iff_of_some hm).mp (h.writes z id)
  have hsides := side_setStream_history t z id { m with writeRx := m.writeRx ++ [data] }
    (t.put z id ++ data) (t.got z id) (t.eof z id)
  simp only [update_eq_self] at hsides
  refine h.setStream hm rfl (hsides.2 _ (peer_ne z)) hsides.1 ?_ rfl rfl fun heof => ?_
  · refine (iff_of_some (m := { m with writeRx := m.writeRx ++ [data] })
      (update_self _ _ _)).mpr ⟨?_, hfin, fun hstate => ?_, hpending, honce⟩
    · show Function.update (t.put z) id (t.put z id ++ data) id = _
      rw [update_self, show t.put z id = _ from hput]
      simp [TunnelSide.setStream]
    · exact absurd ((hclosed hstate).1.symm.trans htx) Bool.false_ne_true
  · obtain ⟨hclosed, hnil⟩ := h.closed_of_eof hm heof
    exact ⟨hclosed, hnil⟩

theorem Inv.setWriter (h : t.Inv) (writeTx : Bool) (writer : Writer) (hm : t.stream z id = some m)
    (hidle : m.writer ≠ .idle) (hdone : m.writer = .done → writer = .done)
    (hclosed : writer = .closing ∨ writer = .done → writeTx = false ∧ m.writeRx = []) :
    (t.setStream z id { m with writeTx, writer }).Inv := by
  obtain ⟨hput, hfin, -, hpending, honce⟩ := (iff_of_some hm).mp (h.writes z id)
  exact h.sender (s := t.net.peers.sess z) (w := t.net.peers.written z) hm writeTx m.writeRx writer
    _ h.carried (side_setStream_of_ne t id _ (peer_ne z)) (side_setStream_self t z id _) (.refl _)
    (fun _ _ => ⟨rfl, rfl, rfl⟩)
    ⟨hput, fun hf => hdone (hfin hf), hclosed, fun hmem => absurd (hpending hmem) hidle, honce⟩
    fun hf => ⟨hf, rfl⟩

theorem Inv.takeRead (h : t.Inv) {data readBuf : Bytes} {dataRx : List Bytes}
    (hm : t.stream z id = some m) (hunread : data ++ (readBuf ++ dataRx.flatten) = unread (some m)) :
    Inv { t.setStream z id { m with dataRx, readBuf } with
      got := Function.update t.got z (Function.update (t.got z) id (t.got z id ++ data)) } := by
  have hm' : (t.side z).mux.streams id = some m := hm
  have hsides := side_setStream_history t z id { m with dataRx, readBuf } (t.put z id)
    (t.got z id ++ data) (t.eof z id)
  simp only [update_eq_self] at hsides
  refine h.setStream hm rfl (hsides.2 _ (peer_ne z)) hsides.1 ?_ rfl ?_ fun heof => ?_
  · exact (h.writes z id).reader hm' (update_self _ _ _) ⟨rfl, rfl, rfl⟩
      (update_self _ _ _) rfl rfl rfl
  · rw [append_assoc]
    exact congrArg _ hunread
  · obtain ⟨hclosed, hnil⟩ := h.closed_of_eof hm heof
    rw [hnil] at hunread
    exact ⟨hclosed, (append_eq_nil_iff.mp hunread).2⟩

theorem Inv.readEof (h : t.Inv) (hm : t.stream z id = some m) (htx : m.dataTx = false)
    (hnil : unread (some m) = []) :
    Inv { t with eof := Function.update t.eof z (Function.update (t.eof z) id true) } := by
  have hm' : (t.side z).mux.streams id = some m := hm
  have hsides := side_setStream_history t z id m (t.put z id) (t.got z id) true
  simp only [update_eq_self, setStream_eq_self hm] at hsides
  refine h.setStream hm rfl (hsides.2 _ (peer_ne z)) hsides.1 ?_ rfl rfl fun _ => ⟨htx, hnil⟩
  exact (h.writes z id).reader hm' (update_self _ _ _) ⟨rfl, rfl, rfl⟩
    (update_self _ _ _) rfl rfl rfl

theorem Inv.acceptStream (h : t.Inv) {rest : List Nat} (hm : t.stream z id = some m)
    (hpending : (t.mux z).pendingStreams = id :: rest) :
    (t.setMux z { t.mux z with
      streams := Function.update (t.mux z).streams id
        (some { m with writeTx := true, writer := .looping })
      pendingStreams := rest }).Inv := by
  obtain ⟨hput, hfin, -, hidle, honce⟩ := (iff_of_some hm).mp (h.writes z id)
  have hpending' : (t.side z).mux.pendingStreams = id :: rest := hpending
  rw [hpending'] at hidle honce
  rw [count_cons_self] at honce
  refine h.sender (s := t.net.peers.sess z) (w := t.net.peers.written z) hm true m.writeRx .looping
    rest h.carried (side_setMux_of_ne t _ (peer_ne z)) (side_setMux_self t z _) (.refl _)
    (fun id' hid => ⟨rfl, rfl, ?_⟩) ⟨hput, fun hf => ?_, nofun, fun hmem => ?_, by omega⟩
    fun hf => ⟨hf, rfl⟩
  · rw [hpending, count_cons_of_ne (Ne.symm hid)]
  · exact absurd ((hidle mem_cons_self).symm.trans (hfin hf)) nofun
  · have hpos := count_pos_iff.mpr hmem
    omega

end Steps

end Tunnel

end SeamProtocol
