import SeamProtocol.Lib.Bytes

/-! # The UDP proxy of a route hop

The proxy forwards what comes from the next relay to the client, and everything else to the next relay.
Whoever has sent last is taken for the client. -/

namespace SeamProtocol

open Lib List

variable {A : Type} [DecidableEq A]

structure UdpDatagram (A : Type) where
  sender : A
  data : Bytes

/-- One turn of the loop of `udp_proxy_with_timeout`: the address of the client, and what is sent. -/
def udpProxyStep (nextRelay : A) (client : Option A) (d : UdpDatagram A) :
    Option A × Option (A × Bytes) :=
  if d.sender = nextRelay then (client, client.map fun ca => (ca, d.data))
  else (some d.sender, some (nextRelay, d.data))

def udpProxy (nextRelay : A) : Option A → List (UdpDatagram A) → List (Option (A × Bytes))
  | _, [] => []
  | client, d :: ds =>
    let r := udpProxyStep nextRelay client d
    r.2 :: udpProxy nextRelay r.1 ds

def udpReceived (a : A) (out : List (Option (A × Bytes))) : List Bytes :=
  out.filterMap fun sent => sent.bind fun (dest, data) => if dest = a then some data else none

def firstSender (nextRelay : A) (ds : List (UdpDatagram A)) : Option A :=
  (ds.map UdpDatagram.sender).find? (· ≠ nextRelay)

def lastSender (nextRelay : A) (known : Option A) (ds : List (UdpDatagram A)) : Option A :=
  ds.foldl (fun known d => if d.sender = nextRelay then known else some d.sender) known

structure ServesOnly (nextRelay client : A) (ds : List (UdpDatagram A)) : Prop where
  ofRelay : ∀ pre d post, ds = pre ++ d :: post → d.sender = nextRelay →
    (udpProxy nextRelay none ds)[pre.length]? = some (some (client, d.data))
  ofClient : ∀ pre d post, ds = pre ++ d :: post → d.sender = client →
    (udpProxy nextRelay none ds)[pre.length]? = some (some (nextRelay, d.data))
  others : ∀ a, a ≠ client → a ≠ nextRelay → udpReceived a (udpProxy nextRelay none ds) = []

def Undisturbed (nextRelay client : A) (known : Option A) (ds : List (UdpDatagram A)) : Prop :=
  ∀ pre d post, ds = pre ++ d :: post → d.sender = nextRelay →
    lastSender nextRelay known pre = some client

variable {nextRelay client : A} {known : Option A} {d : UdpDatagram A} {ds ds' : List (UdpDatagram A)}

theorem udpProxyStep_fst : (udpProxyStep nextRelay known d).1 = lastSender nextRelay known [d] := by
  by_cases hd : d.sender = nextRelay <;> simp [udpProxyStep, lastSender, hd]

theorem udpProxy_append (pre : List (UdpDatagram A)) : udpProxy nextRelay known (pre ++ ds)
    = udpProxy nextRelay known pre ++ udpProxy nextRelay (lastSender nextRelay known pre) ds := by
  induction pre generalizing known with
  | nil => rfl
  | cons d pre ih =>
    rw [cons_append, udpProxy, udpProxy, ih, udpProxyStep_fst]
    rfl

theorem length_udpProxy : (udpProxy nextRelay known ds).length = ds.length := by
  induction ds generalizing known with
  | nil => rfl
  | cons d ds ih => rw [udpProxy, length_cons, ih, length_cons]

theorem udpProxy_getElem? (pre post : List (UdpDatagram A)) :
    (udpProxy nextRelay known (pre ++ d :: post))[pre.length]?
      = some (udpProxyStep nextRelay (lastSender nextRelay known pre) d).2 := by
  rw [udpProxy_append, getElem?_append_right (by rw [length_udpProxy]), length_udpProxy, Nat.sub_self]
  rfl

theorem Undisturbed.tail (h : Undisturbed nextRelay client known (d :: ds)) :
    Undisturbed nextRelay client (lastSender nextRelay known [d]) ds :=
  fun pre e post hds he => h (d :: pre) e post (by rw [hds, cons_append]) he

theorem udpReceived_cons (a b : A) (data : Bytes) (out : List (Option (A × Bytes))) :
    udpReceived a (some (b, data) :: out)
      = if b = a then data :: udpReceived a out else udpReceived a out := by
  by_cases hb : b = a <;> simp [hb, udpReceived]

theorem udpReceived_of_undisturbed (h : Undisturbed nextRelay client known ds) {a : A}
    (ha : a ≠ nextRelay) : udpReceived a (udpProxy nextRelay known ds)
      = if client = a then (ds.filter (·.sender = nextRelay)).map UdpDatagram.data else [] := by
  induction ds generalizing known with
  | nil => simp [udpProxy, udpReceived]
  | cons d ds ih =>
    rw [udpProxy, udpProxyStep_fst]
    by_cases hd : d.sender = nextRelay
    · obtain rfl : known = some client := h [] d ds rfl hd
      rw [udpProxyStep, if_pos hd, Option.map_some, udpReceived_cons, ih h.tail]
      by_cases hc : client = a <;> simp [hc, hd]
    · rw [udpProxyStep, if_neg hd, udpReceived_cons, if_neg ha.symm, ih h.tail]
      simp [hd]

theorem servesOnly_iff (hne : client ≠ nextRelay) :
    ServesOnly nextRelay client ds ↔ Undisturbed nextRelay client none ds := by
  constructor
  · intro h pre d post hds hd
    have hout := h.ofRelay pre d post hds hd
    rw [hds, udpProxy_getElem?, udpProxyStep, if_pos hd] at hout
    obtain ⟨ca, hca, heq⟩ := Option.map_eq_some_iff.mp (Option.some.inj hout)
    rw [hca, (Prod.mk.inj heq).1]
  · intro h
    refine ⟨fun pre d post hds hd => ?_, fun pre d post hds hd => ?_, fun a ha ha' => ?_⟩
    · simp [hds, udpProxy_getElem?, udpProxyStep, hd, h pre d post hds hd]
    · rw [hds, udpProxy_getElem?, udpProxyStep, if_neg (hd ▸ hne)]
    · rw [udpReceived_of_undisturbed h ha', if_neg ha.symm]

theorem ne_of_firstSender (h : firstSender nextRelay ds = some client) : client ≠ nextRelay := by
  simpa using find?_some h

end SeamProtocol
