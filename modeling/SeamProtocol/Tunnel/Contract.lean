import SeamProtocol.Tunnel.Steps

/-! # The byte-stream contract of the multiplexer

What is written to a stream on one side and what is read from it on the other. -/

namespace SeamProtocol

open Lib Function List Option Tunnel MuxStream

/-! ## Nothing waits to be packetised -/

def Peers.AllSent (p : Peers) : Prop := ∀ x id, ((p.sess x).streamFor id).sendBuf = []

namespace Peers

variable {p q : Peers}

theorem send_sess (p : Peers) (x : Role) (id : Nat) (data : Bytes) :
    (p.send x id data).sess = Function.update p.sess x ((p.sess x).send id data).2 := by
  unfold send
  dsimp only
  cases ((p.sess x).send id data).1 <;> rfl

theorem AllSent.update (h : p.AllSent) {z : Role} {s : Session}
    (hsess : q.sess = Function.update p.sess z s)
    (hle : ∀ id, (s.streamFor id).sendBuf.length ≤ ((p.sess z).streamFor id).sendBuf.length) :
    q.AllSent := by
  intro x id
  rw [hsess]
  by_cases hx : x = z
  · subst hx
    have hlen := hle id
    rw [h x id] at hlen
    simpa using eq_nil_of_length_eq_zero (Nat.le_zero.mp hlen)
  · rw [update_of_ne hx]
    exact h x id

end Peers

variable {P : Primitives}

theorem Network.allSent_step {c : NetworkConfig} (hP : P.Lawful) {n n' : Network} {ev : NetEvent}
    (hw : Wired P c n) (hcarried : n.peers.Carried) (hfresh : n.opensFresh ev)
    (hnot : ∀ x id data, ev ≠ .send x id data) (hs : n.step P ev = some n') (h : n.peers.AllSent) :
    n'.peers.AllSent := by
  refine step_peers hP hw hs Peers.AllSent h ?_ ?_ ?_ ?_ ?_ ?_ ?_
  · intro x call s hev hcall
    subst hev
    have hsides := (Session.appCall_streamFor (hcarried.ids x)
      (fun priority hopen => by subst hopen; exact hfresh) hcall).2
    refine h.update rfl fun id => ?_
    rcases (hsides id).2 with hsame | hfinish
    · exact (congrArg (fun side => side.sendBuf.length) hsame).le
    · rw [hfinish]
      exact le_rfl
  · intro x id data hev
    exact absurd hev (hnot x id data)
  · intro x id max p _ hread
    obtain ⟨⟨r, s⟩, hr, rfl⟩ := map_eq_some_iff.mp hread
    have hle : ∀ id', (s.streamFor id').sendBuf.length
        ≤ ((n.peers.sess x).streamFor id').sendBuf.length := by
      intro id'
      rcases Session.read_cases hr with ⟨-, -, rfl⟩ | ⟨stream, bytes, stream', hget, hrd, -, rfl⟩
      · exact le_rfl
      · obtain ⟨popped, rfl⟩ := Stream.read_eq_some hrd
        rw [Session.streamFor_insert rfl]
        split_ifs with hid
        · rw [hid, Session.streamFor_of_get? hget]
        · exact le_rfl
    cases r <;> exact h.update rfl hle
  · intro x now order q em d res _ hq hd _
    have hle : ∀ id, (d.sess.streamFor id).sendBuf.length
        ≤ ((q.sess x).streamFor id).sendBuf.length := by
      intro id
      have hunsent := Session.draft_unsent_le hd id
      rw [Session.unsent_eq, Session.unsent_eq] at hunsent
      exact hunsent.trans (Nat.sub_le _ _)
    cases res <;> exact hq.update rfl hle
  · intro x t payload res _ _
    cases res <;> exact h.update rfl fun id => le_rfl
  · intro x now _
    exact h.update rfl fun id => le_rfl
  · intro x i now y p _ _ hlog _ hacc
    obtain ⟨⟨res, s⟩, hdisp, rfl⟩ := map_eq_some_iff.mp hacc
    refine h.update rfl fun id => ?_
    have hsame : s.streams = (n.peers.sess x.peer).streams →
        (s.streamFor id).sendBuf.length ≤ ((n.peers.sess x.peer).streamFor id).sendBuf.length := by
      intro hstreams
      rw [Session.streamFor, hstreams]
      exact le_rfl
    by_cases htype : y.1 = .data
    · rcases hcarried.dispatch_data (by rwa [Role.peer_peer]) htype hdisp with
        ⟨hstreams, -⟩ | ⟨f, stream', -, -, hstream', -, hstreams⟩
      · exact hsame hstreams
      · rw [Session.streamFor_insert hstreams]
        split_ifs with hid
        · rw [hid, hstream']
          exact (congrArg (fun side => side.sendBuf.length) (Stream.receive_sendSide _ _ _ _)).le
        · exact le_rfl
    · have hstreams : s.streams = ((n.peers.sess x.peer).noted y now).streams :=
        Session.dispatch_streams htype hdisp
      exact hsame hstreams

namespace Tunnel

variable {P : Primitives} {c : NetworkConfig} {t t' : Tunnel} {order : List Nat} {z : Role}
  {now fits : Nat}

theorem allSent_flush (hP : P.Lawful) (hflush : t.flush P z now order fits = some (true, t'))
    (hpeer : ∀ id, ((t.net.peers.sess z.peer).streamFor id).sendBuf = []) : t'.net.peers.AllSent := by
  obtain ⟨hperm, -, hother, hside, hok⟩ := flush_eq hflush
  intro x id
  rcases eq_or_ne x z with rfl | hx
  · have hsess : t'.net.peers.sess x = ((t.net.peers.sess x).flushed P now order).sess :=
      congrArg TunnelSide.sess hside
    rw [hsess]
    by_cases hid : id ∈ order
    · rw [← Session.unsent_eq]
      exact Session.flushed_unsent hP (hok.mp rfl) hid
    · -- there is no such stream
      have hnone : (t.net.peers.sess x).streams.get? id = none := by
        rw [eq_none_iff_forall_ne_some]
        exact fun stream hget => hid (hperm.mem_iff.mpr ((SortedMap.mem_keys_iff _ _).mpr ⟨_, hget⟩))
      have hle := ((t.net.peers.sess x).flushed_sendSide P now order id).2
      have hnil : ((t.net.peers.sess x).streamFor id).sendBuf = [] := by
        rw [Session.streamFor, hnone]
        rfl
      rw [hnil] at hle
      exact eq_nil_of_length_eq_zero (Nat.le_zero.mp hle)
  · obtain rfl : x = z.peer := by
      cases x <;> cases z <;> first | rfl | exact absurd rfl hx
    have hsess : t'.net.peers.sess z.peer = t.net.peers.sess z.peer :=
      congrArg TunnelSide.sess hother
    rw [hsess]
    exact hpeer id

/-! ## Runs that go well -/

/-- Nothing goes wrong in a step: a new stream has an id of its own; a chunk handed to the session is
accepted and its flush succeeds; one read empties what was announced; a FIN does not overtake data, and
no stream of the other side is refused. -/
def orderly (P : Primitives) (t : Tunnel) : TunnelEvent → Prop
  | .openStream x => t.net.opensFresh (.app x (.openStream priorityDefault))
  | .write x id now order _ =>
    ∀ data ∈ (t.stream x id).bind fun m => m.writeRx.head?,
      ((t.net.peers.sess x).send id data).1 = .ok () ∧
        (((t.net.peers.sess x).send id data).2.flushed P now order).error = none
  | .event x =>
    ∀ ev ∈ (t.net.peers.events x)[(t.mux x).handled]?, ∀ id ∈ ev.streamId?,
      ev = .dataAvailable id → ((t.net.peers.sess x).streamFor id).ReadsAll 65536
  | .deliver x i _ _ _ => t.net.finLast P x i ∧ t.net.takesFrame P x i
  | _ => True

instance orderly.decidable (P : Primitives) (t : Tunnel) : ∀ ev, Decidable (t.orderly P ev)
  | .openStream x => inferInstanceAs (Decidable
      (t.net.opensFresh (.app x (.openStream priorityDefault))))
  | .write x id now order _ => inferInstanceAs (Decidable
      (∀ data ∈ (t.stream x id).bind fun m => m.writeRx.head?,
        ((t.net.peers.sess x).send id data).1 = .ok () ∧
          (((t.net.peers.sess x).send id data).2.flushed P now order).error = none))
  | .event x => inferInstanceAs (Decidable
      (∀ ev ∈ (t.net.peers.events x)[(t.mux x).handled]?, ∀ id ∈ ev.streamId?,
        ev = .dataAvailable id → ((t.net.peers.sess x).streamFor id).ReadsAll 65536))
  | .deliver x i _ _ _ => inferInstanceAs (Decidable (t.net.finLast P x i ∧ t.net.takesFrame P x i))
  | .acceptStream _ | .pollWrite .. | .pollShutdown .. | .pollRead .. | .close .. | .fin .. =>
    isTrue trivial

structure Well (P : Primitives) (c : NetworkConfig) (t : Tunnel) : Prop where
  wired : Network.Wired P c t.net
  inv : t.Inv
  sent : t.net.peers.AllSent

open Network

theorem well_init (P : Primitives) (c : NetworkConfig) : Well P c (init c) :=
  ⟨wired_init, inv_init c, fun _ _ => rfl⟩

theorem Well.of_net_eq (h : Well P c t) (hnet : t'.net = t.net) (hinv : t'.Inv) : Well P c t' :=
  ⟨hnet ▸ h.wired, hinv, hnet ▸ h.sent⟩

theorem Well.flush (hP : P.Lawful) (h : Well P c t) {ok : Bool}
    (hflush : t.flush P z now order fits = some (ok, t')) : Well P c t' := by
  obtain ⟨hw, hinv⟩ := h.inv.flush hP h.wired hflush
  obtain ⟨-, hnet, -⟩ := flush_eq hflush
  have hfresh : t.net.opensFresh (.flush z now order) := trivial
  exact ⟨hw, hinv, allSent_step hP h.wired h.inv.carried hfresh (by simp) hnet h.sent⟩

variable {x : Role} {id : Nat}

theorem Well.write (hP : P.Lawful) (h : Well P c t) (hok : t.orderly P (.write x id now order fits))
    (hs : t.step P (.write x id now order fits) = some t') : Well P c t' := by
  obtain ⟨m, hm, hs⟩ := bind_eq_some_iff.mp hs
  split at hs
  · next data rest hwriter hqueue =>
      obtain ⟨net, hnet, hs⟩ := bind_eq_some_iff.mp hs
      have hhead : data ∈ (t.stream x id).bind fun m => m.writeRx.head? := by
        simp [hm, hqueue]
      obtain ⟨haccept, herror⟩ := hok data hhead
      obtain ⟨hw, hinv⟩ := h.inv.send hP h.wired hm hwriter hqueue haccept hnet
      rw [haccept] at hs
      obtain ⟨⟨ok, t1⟩, hflush, rfl⟩ := map_eq_some_iff.mp hs
      cases hnet
      have hsess := Peers.send_sess t.net.peers x id data
      -- the flush succeeds, so the writer task stays in its loop
      obtain rfl : ok = true := by
        refine (flush_eq hflush).2.2.2.2.mpr ?_
        simpa [hsess] using herror
      have hstay : ({ m with writeRx := rest, writer := if true then .looping else .closing } :
          MuxStream) = { m with writeRx := rest } := by
        rw [if_pos rfl, ← hwriter]
      have hflush' := flush_setStream P { t with net := { t.net with
        peers := t.net.peers.send x id data } } x now order fits id { m with writeRx := rest }
      rw [hflush, map_some] at hflush'
      obtain ⟨hw', hinv'⟩ := hinv.flush hP hw hflush'
      have hsent := allSent_flush hP hflush fun id' => by
        simpa [hsess] using h.sent x.peer id'
      dsimp only
      rw [hstay]
      exact ⟨hw', hinv', hsent⟩
  · cases hs

theorem Well.pollRead (h : Well P c t) {room : Nat} (hs : t.step P (.pollRead x id room) = some t') :
    Well P c t' := by
  obtain ⟨m, hm, hs⟩ := bind_eq_some_iff.mp hs
  by_cases hidle : m.writer = .idle
  · rw [if_pos hidle] at hs
    cases hs
  rw [if_neg hidle] at hs
  by_cases hbuf : m.readBuf = []
  · rw [if_neg (not_not.mpr hbuf)] at hs
    cases hdata : m.dataRx with
    | cons data rest =>
      rw [hdata] at hs
      cases hs
      refine h.of_net_eq rfl (h.inv.takeRead hm ?_)
      rw [← append_assoc, take_append_drop, unread, hbuf, hdata]
      rfl
    | nil =>
      rw [hdata] at hs
      split_ifs at hs with htx
      · cases hs
        exact h
      · cases hs
        refine h.of_net_eq rfl (h.inv.readEof hm (Bool.not_eq_true _ ▸ htx) ?_)
        rw [unread, hbuf, hdata]
        rfl
  · rw [if_pos hbuf] at hs
    cases hs
    refine h.of_net_eq rfl (h.inv.takeRead hm ?_)
    rw [← append_assoc, take_append_drop]
    rfl

theorem handle_net {ev : SessionEvent} (hs : t.handle P x ev = some t') :
    t'.net = t.net ∨ ∃ id, t.net.step P (.read x id 65536) = some t'.net := by
  cases ev with
  | dataAvailable id =>
    right
    obtain ⟨net, hnet, rfl⟩ := map_eq_some_iff.mp hs
    refine ⟨id, hnet.trans (congrArg some ?_)⟩
    dsimp only
    split
    · split_ifs <;> rfl
    · rfl
  | streamFinished id =>
    left
    unfold handle at hs
    dsimp only at hs
    split at hs <;> cases hs <;> rfl
  | _ =>
    left
    cases hs
    rfl

theorem Well.deliver (hP : P.Lawful) (h : Well P c t) {i : Nat}
    (hok : t.orderly P (.deliver x i now order fits))
    (hs : t.step P (.deliver x i now order fits) = some t') : Well P c t' := by
  unfold step at hs
  dsimp only at hs
  split_ifs at hs with hsent
  obtain ⟨net, hnet, hs⟩ := bind_eq_some_iff.mp hs
  have hfresh : t.net.opensFresh (.deliver x i now) := trivial
  obtain ⟨hw, hinv⟩ := h.inv.deliver hP h.wired hok.1 hok.2 hnet
  have h1 : Well P c { t with net } :=
    ⟨hw, hinv, allSent_step hP h.wired h.inv.carried hfresh (by simp) hnet h.sent⟩
  split at hs
  · obtain ⟨net2, hnet2, hs⟩ := bind_eq_some_iff.mp hs
    have hfresh2 : net.opensFresh (.app x.peer .drainCcAck) := trivial
    obtain ⟨hw2, hinv2⟩ := h1.inv.drainCcAck hP h1.wired hnet2
    have h2 : Well P c { t with net := net2 } :=
      ⟨hw2, hinv2, allSent_step hP h1.wired h1.inv.carried hfresh2 nofun hnet2 h1.sent⟩
    split_ifs at hs with hpending
    · obtain ⟨⟨ok, t3⟩, hflush, rfl⟩ := map_eq_some_iff.mp hs
      exact h2.flush hP hflush
    · cases hs
      exact h2
  · cases hs
    exact h1

theorem Well.step (hP : P.Lawful) (h : Well P c t) {ev : TunnelEvent} (hok : t.orderly P ev)
    (hs : t.step P ev = some t') : Well P c t' := by
  cases ev with
  | openStream x =>
    unfold Tunnel.step at hs
    dsimp only at hs
    split at hs
    · cases hs
    · next id hopen =>
        obtain ⟨net, hnet, rfl⟩ := map_eq_some_iff.mp hs
        obtain ⟨hw, hinv⟩ := h.inv.openStream hP h.wired hopen hok hnet
        have hfresh : t.net.opensFresh (.app x (.openStream priorityDefault)) := hok
        exact ⟨hw, hinv, allSent_step hP h.wired h.inv.carried hfresh (by simp) hnet h.sent⟩
  | acceptStream x =>
    unfold Tunnel.step at hs
    dsimp only at hs
    split at hs
    · cases hs
    · next id rest hpending =>
        obtain ⟨m, hm, rfl⟩ := map_eq_some_iff.mp hs
        refine h.of_net_eq rfl ?_
        have hinv := h.inv.acceptStream hm hpending
        simpa [Tunnel.setStream, setMux] using hinv
  | pollWrite x id data =>
    obtain ⟨m, hm, hs⟩ := bind_eq_some_iff.mp hs
    split_ifs at hs with hidle hopen
    · cases hs
      exact h.of_net_eq rfl (h.inv.pollWrite data hm hopen.1)
    · cases hs
      exact h
  | pollShutdown x id =>
    obtain ⟨m, hm, hs⟩ := bind_eq_some_iff.mp hs
    split_ifs at hs with hidle
    cases hs
    refine h.of_net_eq rfl (h.inv.setWriter false m.writer hm hidle (fun hdone => hdone)
      fun hstate => ⟨rfl, ((h.inv.writes x id).closed m hm hstate).2⟩)
  | pollRead x id room => exact h.pollRead hs
  | write x id now order fits => exact h.write hP hok hs
  | close x id =>
    obtain ⟨m, hm, hs⟩ := bind_eq_some_iff.mp hs
    split_ifs at hs with hend
    cases hs
    obtain ⟨hwriter, hempty, htx⟩ := hend
    refine h.of_net_eq rfl (h.inv.setWriter m.writeTx .closing hm ?_ ?_ fun _ => ⟨htx, hempty⟩)
    · rw [hwriter]
      simp
    · rw [hwriter]
      simp
  | fin x id now order fits =>
    obtain ⟨m, hm, hs⟩ := bind_eq_some_iff.mp hs
    split_ifs at hs with hwriter
    obtain ⟨net, hnet, hs⟩ := bind_eq_some_iff.mp hs
    obtain ⟨⟨ok, t1⟩, hflush, rfl⟩ := map_eq_some_iff.mp hs
    have hfresh : t.net.opensFresh (.app x (.finish id)) := trivial
    obtain ⟨hw, hinv⟩ := h.inv.finish hP h.wired hm hwriter hnet
    have h1 : Well P c (({ t with net } : Tunnel).setStream x id { m with writer := .done }) :=
      ⟨hw, hinv, allSent_step hP h.wired h.inv.carried hfresh (by simp) hnet h.sent⟩
    have hflush' := flush_setStream P { t with net } x now order fits id { m with writer := .done }
    rw [hflush, map_some] at hflush'
    exact h1.flush hP hflush'
  | event x =>
    unfold Tunnel.step at hs
    dsimp only at hs
    split_ifs at hs with hrunning
    obtain ⟨ev, hev, hhandle⟩ := bind_eq_some_iff.mp hs
    obtain ⟨hw, hinv⟩ := h.inv.event hP h.wired hev
      (fun id hdata => hok ev hev id (by rw [hdata]; rfl) hdata) hhandle
    refine ⟨hw, hinv, ?_⟩
    rcases handle_net hhandle with hnet | ⟨id, hnet⟩
    · rw [hnet]
      exact h.sent
    · have hfresh : t.net.opensFresh (.read x id 65536) := trivial
      exact allSent_step hP h.wired h.inv.carried hfresh (by simp) hnet h.sent
  | deliver x i now order fits => exact h.deliver hP hok hs

/-- Nothing of stream `id` of side `x` is left to do: its writer task and the event loop of the other
side wait, nothing waits for the reader, and every packet with stream data has been accepted. -/
structure Quiet (t : Tunnel) (x : Role) (id : Nat) : Prop where
  written : unwritten (t.stream x id) = []
  handled : t.queue x.peer = []
  read : unread (t.stream x.peer id) = []
  arrived : ∀ y ∈ t.net.peers.log x, y.1 = .data → y ∈ t.net.peers.accepted x.peer

theorem Well.front (h : Well P c t) (x : Role) (id : Nat) : t.got x.peer id <+: t.put x id := by
  have hread : t.net.peers.readOut x.peer id = t.got x.peer id ++ unread (t.stream x.peer id) :=
    (h.inv.delivers x id).read
  have hput : t.put x id = t.net.peers.written x id ++ unwritten (t.stream x id) :=
    (h.inv.writes x id).put
  have hout := (h.inv.carried.channel x id).receiving.out_eq
  calc t.got x.peer id
      <+: t.net.peers.readOut x.peer id := hread ▸ prefix_append _ _
    _ <+: t.net.peers.written x id := hout ▸ take_prefix _ _
    _ <+: t.put x id := hput ▸ prefix_append _ _

theorem Well.got_of_eof (h : Well P c t) (heof : t.eof x.peer id = true) :
    t.got x.peer id = t.put x id := by
  have hdel := h.inv.delivers x id
  have hwrites := h.inv.writes x id
  obtain ⟨hended, hnil⟩ := hdel.eof heof
  obtain ⟨hmem, hread⟩ := hdel.ended hended
  -- the stream was finished, so its writer task has ended with an empty channel
  obtain ⟨m, hm, hdone⟩ := hwrites.fin (hdel.ending hmem).1
  have hempty := (hwrites.closed m hm (.inr hdone)).2
  have hput := hwrites.put
  rw [hm, unwritten, hempty, flatten_nil, append_nil] at hput
  have hgot := hdel.read
  rw [hnil, append_nil] at hgot
  exact hgot.symm.trans (hread.trans hput.symm)

theorem Well.got_of_quiet (h : Well P c t) (hquiet : t.Quiet x id) : t.got x.peer id = t.put x id := by
  have hdel := h.inv.delivers x id
  have hch := h.inv.carried.channel x id
  have hput : t.put x id = t.net.peers.written x id ++ unwritten (t.stream x id) :=
    (h.inv.writes x id).put
  have hread : t.net.peers.readOut x.peer id = t.got x.peer id ++ unread (t.stream x.peer id) :=
    hdel.read
  rw [hquiet.written, append_nil] at hput
  rw [hquiet.read, append_nil] at hread
  -- the session can read nothing more, and holds every segment
  have hdrained : ((t.net.peers.sess x.peer).streamFor id).Drained := by
    refine hdel.available.resolve_left fun hmem => ?_
    replace hmem : .dataAvailable id ∈ t.queue x.peer := hmem
    rw [hquiet.handled] at hmem
    exact not_mem_nil hmem
  have hholds : ((t.net.peers.sess x.peer).streamFor id).Holds
      (segments (t.net.peers.frames x id)) := by
    intro seg hseg
    obtain ⟨f, hf, rfl⟩ := mem_map.mp hseg
    obtain ⟨hf, hdata⟩ := mem_filter.mp hf
    obtain ⟨y, hy, hframe⟩ := mem_filterMap.mp hf
    refine hdel.held _ (mem_map.mpr ⟨f, mem_filter.mpr ⟨?_, hdata⟩, rfl⟩)
    refine mem_filterMap.mpr ⟨y, hquiet.arrived y hy ?_, hframe⟩
    by_contra htype
    rw [frameOf, if_neg htype] at hframe
    cases hframe
  have htiles := hch.sending.tiles
  rw [h.sent x id, length_nil, Nat.sub_zero] at htiles
  have hle := hdrained.le_recvOffset htiles hholds
  rw [hput, ← hread, hch.receiving.out_eq, take_of_length_le hle]

end Tunnel

/-- **The byte-stream contract of the multiplexer**, in every run in which no write is refused, one read
empties what was announced, no FIN overtakes data and no stream is refused. What `poll_read` has
returned is the front of what `poll_write` has accepted; end-of-file comes after all of it; and if
everything is quiet and no packet was lost or held back, nothing is missing. -/
theorem tunnel_contract {P : Primitives} (hP : P.Lawful) (c : NetworkConfig)
    {evs : List TunnelEvent} {t : Tunnel}
    (hok : Meets (Tunnel.step P) (Tunnel.orderly P) (Tunnel.init c) evs)
    (hrun : exec (Tunnel.step P) (Tunnel.init c) evs = some t) (x : Role) (id : Nat) :
    t.got x.peer id <+: t.put x id ∧
    (t.eof x.peer id = true → t.got x.peer id = t.put x id) ∧
    (t.Quiet x id → t.got x.peer id = t.put x id) := by
  have h : Tunnel.Well P c t := exec_invariant_of_meets (Tunnel.Well P c)
    (fun t ev t' h hev hs => h.step hP hev hs) (Tunnel.well_init P c) hok hrun
  exact ⟨h.front x id, h.got_of_eof, h.got_of_quiet⟩

def shutdownOps : List TunnelEvent :=
  [.openStream .client, .pollWrite .client 1 [7], .write .client 1 0 [1] 1, .pollShutdown .client 1,
    .close .client 1, .fin .client 1 0 [1] 1]

def readOps (events : Nat) : List TunnelEvent :=
  List.replicate events (.event .server) ++
    [.acceptStream .server, .pollRead .server 1 8, .pollRead .server 1 8]

/-- The byte arrives before the FIN. -/
theorem tunnel_contract_in_order :
    ∃ t, exec (Tunnel.step checksumPrimitives) (Tunnel.init Network.sampleConfig)
        (shutdownOps ++ [.deliver .client 0 0 [] 0, .deliver .client 1 0 [] 0] ++ readOps 4) = some t ∧
      t.put .client 1 = [7] ∧ t.eof .server 1 = true ∧ t.got .server 1 = t.put .client 1 := by
  refine exists_exec_of (p := fun t => t.put .client 1 = [7] ∧ t.eof .server 1 = true)
    (by decide +kernel) ?_
  rintro t ht ⟨hput, heof⟩
  have hcontract := tunnel_contract checksumPrimitives_lawful Network.sampleConfig (by decide +kernel)
    ht .client 1
  exact ⟨hput, heof, hcontract.2.1 heof⟩

/-- **A FIN that overtakes data is a clean end-of-file with the data missing.** Both packets arrive,
the FIN first; the event loop reads nothing, closes the data channel, and drops the byte when it comes. -/
theorem tunnel_eof_before_data :
    ∃ t, exec (Tunnel.step checksumPrimitives) (Tunnel.init Network.sampleConfig)
        (shutdownOps ++ [.deliver .client 1 0 [] 0] ++ List.replicate 3 (.event .server)
          ++ [.deliver .client 0 0 [] 0] ++ readOps 1) = some t ∧
      t.put .client 1 = [7] ∧ t.eof .server 1 = true ∧ t.got .server 1 = [] ∧
      t.queue .server = [] := by
  decide +kernel

variable {t : Tunnel} {data : Bytes}

theorem Tunnel.step_write_refused {x : Role} {id now : Nat} {order : List Nat} {fits : Nat}
    {m : MuxStream} {rest : List Bytes} {e : SeamError} {s : Session} (hm : t.stream x id = some m)
    (hwriter : m.writer = .looping) (hqueue : m.writeRx = data :: rest)
    (hsend : (t.net.peers.sess x).send id data = (.error e, s)) :
    t.step P (.write x id now order fits)
      = some (({ t with net := { t.net with peers := t.net.peers.setSess x s } } :
          Tunnel).setStream x id { m with writeRx := rest, writer := .closing }) := by
  have hpeers : t.net.peers.send x id data = t.net.peers.setSess x s := by
    unfold Peers.send
    rw [hsend]
  rw [step, hm, bind_some, hwriter, hqueue]
  dsimp only
  rw [hsend, Network.step, hpeers]
  rfl

def Tunnel.refused (t : Tunnel) (data : Bytes) : Tunnel :=
  { t.setStream .client 1 { MuxStream.opened with writer := .closing } with
    put := Function.update t.put .client (Function.update (t.put .client) 1 data) }

theorem Tunnel.exec_refused (now : Nat) (order : List Nat) (fits : Nat)
    (hstream : t.stream .client 1 = some .opened) (hput : t.put .client 1 = [])
    (hwindow : (t.net.peers.sess .client).sendWindow.limit < (t.net.peers.sess .client).sendWindow.consumed + data.length) :
    exec (step P) t [.pollWrite .client 1 data, .write .client 1 now order fits]
      = some (t.refused data) := by
  set w := (t.net.peers.sess .client).sendWindow with hw
  have hsend : (t.net.peers.sess .client).send 1 data
      = (.error (.flowControlBlocked w.available data.length), t.net.peers.sess .client) := by
    unfold Session.send
    rw [FlowWindow.reserve, if_pos hwindow]
  set t1 : Tunnel := { t.setStream .client 1 { opened with writeRx := [data] } with
    put := Function.update t.put .client (Function.update (t.put .client) 1 data) } with ht1
  have hpoll : t.step P (.pollWrite .client 1 data) = some t1 := by
    rw [step, hstream, bind_some, ht1, hput]
    rfl
  have hm : t1.stream .client 1 = some { opened with writeRx := [data] } := by
    simp [ht1, stream, setStream, setMux]
  rw [exec_cons, hpoll, bind_some, exec_cons,
    step_write_refused hm rfl rfl hsend, bind_some, exec_nil]
  simp [ht1, refused, setStream, setMux, Peers.setSess, opened]

/-- **A refused write is a clean end-of-file with the data missing.** A chunk larger than the connection
window is accepted by `poll_write` and refused by the session; the writer task leaves its loop and sends
the FIN. -/
theorem tunnel_refused_write_eof :
    ∃ data t, exec (step checksumPrimitives) (init Network.sampleConfig)
        ([.openStream .client] ++ [.pollWrite .client 1 data, .write .client 1 0 [1] 1] ++
          ([.fin .client 1 0 [1] 1, .deliver .client 0 0 [] 0] ++ readOps 3)) = some t ∧
      data.length = defaultWindow + 1 ∧ t.put .client 1 ≠ [] ∧ t.eof .server 1 = true ∧
      t.got .server 1 = [] := by
  -- the run before and after the two steps on the chunk does not look at it
  obtain ⟨t, ht, hstream, hput, hwindow, t', ht', hend⟩ : ∃ t, exec (step checksumPrimitives)
      (init Network.sampleConfig) [.openStream .client] = some t ∧
      t.stream .client 1 = some .opened ∧ t.put .client 1 = [] ∧
      (t.net.peers.sess .client).sendWindow = FlowWindow.new defaultWindow ∧
      ∃ t', exec (step checksumPrimitives) (t.refused (List.replicate (defaultWindow + 1) 7))
        ([.fin .client 1 0 [1] 1, .deliver .client 0 0 [] 0] ++ readOps 3) = some t' ∧
      t'.put .client 1 ≠ [] ∧ t'.eof .server 1 = true ∧ t'.got .server 1 = [] := by
    decide +kernel
  have hbig : (t.net.peers.sess .client).sendWindow.limit
      < (t.net.peers.sess .client).sendWindow.consumed
        + (List.replicate (defaultWindow + 1) (7 : UInt8)).length := by
    rw [hwindow, length_replicate]
    show defaultWindow < 0 + (defaultWindow + 1)
    omega
  have hrefused := exec_refused (P := checksumPrimitives) 0 [1] 1 hstream hput hbig
  refine ⟨List.replicate (defaultWindow + 1) 7, t', ?_, length_replicate, hend⟩
  rw [exec_append, exec_append, ht, bind_some, hrefused, bind_some, ht']

end SeamProtocol
