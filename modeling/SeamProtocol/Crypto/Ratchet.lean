import SeamProtocol.Crypto.Cipher
import SeamProtocol.Lib.SortedMap
import Mathlib.Data.Prod.Lex

/-! # The double ratchet

A chain key yields one message key a packet and is replaced by its successor. A receiver that sees
packets out of order stores the keys in between, at most `maxSkip` of them and for `skipKeyTtl` at most.
A DH step replaces the root key and one of the chain keys. `BLAKE3` and `X25519` are parameters. -/

namespace SeamProtocol

open Lib List SortedMap

inductive RatchetContext where
  /-- `seam ratchet initiator-send 2026`. -/
  | initiatorSend
  /-- `seam ratchet responder-send 2026`. -/
  | responderSend
  /-- `seam ratchet recv-chain 2026`. -/
  | recvChain
  /-- `seam ratchet send-chain 2026`. -/
  | sendChain
  /-- `seam ratchet chain 2026`. -/
  | chain
  /-- `seam ratchet message 2026`. -/
  | message
  /-- `seam ratchet root 2026`. -/
  | root
  deriving DecidableEq

structure RatchetPrimitives where
  deriveKey : RatchetContext → Bytes → Key
  ephemeralPublic : Key → Key
  /-- The X25519 shared secret of a secret and a public key. -/
  dhExchange : Key → Key → Key

def RatchetPrimitives.Commutes (K : RatchetPrimitives) : Prop :=
  ∀ a b, K.dhExchange a (K.ephemeralPublic b) = K.dhExchange b (K.ephemeralPublic a)

def maxSkip : Nat := 50

def skipKeyTtl : Nat := 30 * 10 ^ 9

def defaultEpochPacketLimit : Nat := 1000

def defaultEpochTimeLimit : Nat := 30 * 10 ^ 9

/-! ## Key derivation -/

section Derivation

variable (K : RatchetPrimitives)

def ratchetStep (chainKey : Key) : Key × Key :=
  (K.deriveKey .chain (chainKey.toList ++ [0x01]), K.deriveKey .message (chainKey.toList ++ [0x02]))

def chainAfter (chainKey : Key) (n : Nat) : Key := (fun ck => (ratchetStep K ck).1)^[n] chainKey

def messageKeyAt (chainKey : Key) (i : Nat) : Key := (ratchetStep K (chainAfter K chainKey i)).2

def deriveNewRoot (oldRoot dhOutput : Key) : Key :=
  K.deriveKey .root (oldRoot.toList ++ dhOutput.toList)

variable (ck : Key)

theorem chainAfter_succ (n : Nat) : chainAfter K ck (n + 1) = (ratchetStep K (chainAfter K ck n)).1 :=
  Function.iterate_succ_apply' _ n ck

theorem chainAfter_step (n : Nat) : chainAfter K (ratchetStep K ck).1 n = chainAfter K ck (n + 1) :=
  (Function.iterate_succ_apply _ n ck).symm

theorem messageKeyAt_step (i : Nat) :
    messageKeyAt K (ratchetStep K ck).1 i = messageKeyAt K ck (i + 1) := by
  rw [messageKeyAt, chainAfter_step, messageKeyAt]

end Derivation

def generateEphemeral (drawn : Key) : Key :=
  let bytes := drawn.set 0 (drawn.get 0 &&& 248)
  bytes.set 31 ((bytes.get 31 &&& 127) ||| 64)

/-! ## State -/

structure SkipEntry where
  key : Key
  insertedAt : Nat
  deriving DecidableEq

structure RatchetStep where
  newEphemeralPublic : Key
  epoch : Nat
  deriving DecidableEq

namespace RatchetStep

def encode (step : RatchetStep) : Bytes := step.newEphemeralPublic.toList ++ leBytes 8 step.epoch

def decode (bytes : Bytes) : Option RatchetStep :=
  if h : bytes.length < 40 then none
  else some ⟨⟨(bytes.take 32).toArray, by simp; omega⟩, leNat ((bytes.drop 32).take 8)⟩

theorem decode_encode {step : RatchetStep} (h : step.epoch < 2 ^ 64) :
    decode step.encode = some step := by
  have hkey : step.newEphemeralPublic.toList.length = 32 := Vector.length_toList
  have hlen : ¬ step.encode.length < 40 := by simp [encode]
  rw [decode, dif_neg hlen]
  obtain ⟨key, epoch⟩ := step
  simp only [encode, Option.some.injEq, RatchetStep.mk.injEq] at *
  constructor
  · apply Vector.toList_inj.mp
    simp [hkey]
  · rw [drop_left' hkey, take_of_length_le (length_leBytes 8 epoch).le, leNat_leBytes]
    exact Nat.mod_eq_of_lt h

end RatchetStep

structure DoubleRatchet where
  rootKey : Key
  sendChainKey : Key
  recvChainKey : Key
  sendEpoch : Nat
  recvEpoch : Nat
  packetsInEpoch : Nat
  epochPacketLimit : Nat
  epochTimeLimit : Nat
  lastRatchet : Nat
  ourEphemeral : Key
  theirEphemeral : Key
  skipped : SortedMap (Nat ×ₗ Nat) SkipEntry

namespace DoubleRatchet

variable (K : RatchetPrimitives)

/-- The peer's ephemeral is not known yet and is all zeros. -/
def new (rootSecret : Key) (isInitiator : Bool) (drawn : Key) (now : Nat) : DoubleRatchet where
  rootKey := rootSecret
  sendChainKey := K.deriveKey (if isInitiator then .initiatorSend else .responderSend) rootSecret.toList
  recvChainKey := K.deriveKey (if isInitiator then .responderSend else .initiatorSend) rootSecret.toList
  sendEpoch := 0
  recvEpoch := 0
  packetsInEpoch := 0
  epochPacketLimit := defaultEpochPacketLimit
  epochTimeLimit := defaultEpochTimeLimit
  lastRatchet := now
  ourEphemeral := generateEphemeral drawn
  theirEphemeral := Vector.replicate 32 0
  skipped := ∅

def newWithLimits (rootSecret : Key) (isInitiator : Bool) (epochPacketLimit epochTimeLimit : Nat)
    (drawn : Key) (now : Nat) : DoubleRatchet :=
  { new K rootSecret isInitiator drawn now with epochPacketLimit, epochTimeLimit }

def shouldRatchet (d : DoubleRatchet) (now : Nat) : Bool :=
  d.epochPacketLimit ≤ d.packetsInEpoch || d.epochTimeLimit ≤ now - d.lastRatchet

/-! ## The symmetric ratchet -/

def nextSendKey (d : DoubleRatchet) : Key × DoubleRatchet :=
  let (newCk, msgKey) := ratchetStep K d.sendChainKey
  (msgKey, { d with sendChainKey := newCk, packetsInEpoch := d.packetsInEpoch + 1 })

def purgeExpiredSkipKeys (d : DoubleRatchet) (now : Nat) : DoubleRatchet :=
  { d with skipped := d.skipped.retain fun _ entry => now - entry.insertedAt < skipKeyTtl }

/-- The position of the receive chain in its epoch. The source has no counter for it and answers 0. -/
def recvPacketIndexInEpoch (_d : DoubleRatchet) : Nat := 0

/-- One round of the loop that skips ahead: advance the receive chain and store the key if there is
room. -/
def skipKey (now epoch : Nat) (d : DoubleRatchet) (i : Nat) : DoubleRatchet :=
  let (newCk, msgKey) := ratchetStep K d.recvChainKey
  let d := { d with recvChainKey := newCk }
  if d.skipped.size < maxSkip then
    { d with skipped := d.skipped.insert (toLex (epoch, i)) ⟨msgKey, now⟩ }
  else d

def nextRecvKey (d : DoubleRatchet) (now epoch packetIndex : Nat) : Option Key × DoubleRatchet :=
  let d := d.purgeExpiredSkipKeys now
  match d.skipped.get? (toLex (epoch, packetIndex)) with
  | some entry => (some entry.key, { d with skipped := d.skipped.erase (toLex (epoch, packetIndex)) })
  | none =>
    if epoch ≠ d.recvEpoch then (none, d)
    else
      let currentPos := d.recvPacketIndexInEpoch
      if packetIndex < currentPos then (none, d)
      else if maxSkip < packetIndex - currentPos then (none, d)
      else
        let d := (List.range' currentPos (packetIndex - currentPos)).foldl (skipKey K now epoch) d
        let (newCk, msgKey) := ratchetStep K d.recvChainKey
        (some msgKey, { d with recvChainKey := newCk })

/-! ## The DH ratchet -/

def applyPeerRatchetStep (d : DoubleRatchet) (step : RatchetStep) : DoubleRatchet :=
  let dhOut := K.dhExchange d.ourEphemeral step.newEphemeralPublic
  let newRoot := deriveNewRoot K d.rootKey dhOut
  { d with
    theirEphemeral := step.newEphemeralPublic
    rootKey := newRoot
    recvChainKey := K.deriveKey .recvChain newRoot.toList
    recvEpoch := step.epoch }

def advanceSendRatchet (d : DoubleRatchet) (drawn : Key) (now : Nat) : RatchetStep × DoubleRatchet :=
  let newEphemeral := generateEphemeral drawn
  let dhOut := K.dhExchange newEphemeral d.theirEphemeral
  let newRoot := deriveNewRoot K d.rootKey dhOut
  let sendEpoch := (d.sendEpoch + 1) % 2 ^ 64
  (⟨K.ephemeralPublic newEphemeral, sendEpoch⟩,
    { d with
      rootKey := newRoot
      sendChainKey := K.deriveKey .sendChain newRoot.toList
      ourEphemeral := newEphemeral
      sendEpoch
      packetsInEpoch := 0
      lastRatchet := now })

/-! ## Whole epochs -/

def sendKeys : Nat → DoubleRatchet → List Key
  | 0, _ => []
  | n + 1, d => (d.nextSendKey K).1 :: sendKeys n (d.nextSendKey K).2

variable {i : Nat}

theorem getElem?_sendKeys {n : Nat} (d : DoubleRatchet) (h : i < n) :
    (sendKeys K n d)[i]? = some (messageKeyAt K d.sendChainKey i) := by
  induction n generalizing d i with
  | zero => omega
  | succ n ih =>
    cases i with
    | zero => rfl
    | succ i =>
      rw [sendKeys, getElem?_cons_succ, ih _ (Nat.lt_of_succ_lt_succ h)]
      exact congrArg some (messageKeyAt_step K d.sendChainKey i)

structure Receipt where
  now : Nat
  packetIndex : Nat
  deriving DecidableEq

def receiveAll : DoubleRatchet → List Receipt → List (Option Key)
  | _, [] => []
  | d, a :: rest =>
    (d.nextRecvKey K a.now d.recvEpoch a.packetIndex).1 ::
      receiveAll (d.nextRecvKey K a.now d.recvEpoch a.packetIndex).2 rest

structure KeysAgree (sender receiver : DoubleRatchet) (n : Nat) (arrivals : List Receipt) : Prop where
  keys : receiver.receiveAll K arrivals
    = arrivals.map fun a => (sendKeys K n sender)[a.packetIndex]?
  once : ∀ i, ((arrivals.zip (receiver.receiveAll K arrivals)).countP
    fun p => p.1.packetIndex = i ∧ p.2.isSome) ≤ 1

/-- The first arrival has the highest index, the skipped keys fit, and the others arrive once each
before their key has expired. -/
def HighestFirst (d : DoubleRatchet) : List Receipt → Prop
  | [] => True
  | first :: rest =>
    d.skipped.size + first.packetIndex ≤ maxSkip ∧
      (∀ a ∈ rest, a.packetIndex < first.packetIndex ∧ a.now - first.now < skipKeyTtl) ∧
      (rest.map Receipt.packetIndex).Nodup

/-! ### Skipping ahead and reading back -/

/-- The keys at these positions of the chain are stored, since time `t`. -/
structure Stores (d : DoubleRatchet) (chainKey : Key) (t : Nat) (indices : List Nat) : Prop where
  get : ∀ i ∈ indices,
    d.skipped.get? (toLex (d.recvEpoch, i)) = some ⟨messageKeyAt K chainKey i, t⟩

/-- **Skipping ahead.** The loop derives the keys of the next `m` positions and stores them, if there
is room. -/
theorem foldl_skipKey (d : DoubleRatchet) (now m : Nat) (hroom : d.skipped.size + m ≤ maxSkip) :
    ∃ skipped, (List.range' 0 m).foldl (skipKey K now d.recvEpoch) d
        = { d with recvChainKey := chainAfter K d.recvChainKey m, skipped } ∧
      skipped.size ≤ d.skipped.size + m ∧
      ∀ i < m, skipped.get? (toLex (d.recvEpoch, i))
        = some ⟨messageKeyAt K d.recvChainKey i, now⟩ := by
  induction m with
  | zero => exact ⟨d.skipped, rfl, le_refl _, nofun⟩
  | succ m ih =>
    obtain ⟨skipped, hfold, hsize, hget⟩ := ih (by omega)
    have hlt : skipped.size < maxSkip := by omega
    refine ⟨skipped.insert (toLex (d.recvEpoch, m)) ⟨messageKeyAt K d.recvChainKey m, now⟩, ?_, ?_, ?_⟩
    · rw [range'_1_concat, foldl_append, hfold, Nat.zero_add, chainAfter_succ]
      simp only [foldl_cons, foldl_nil, skipKey, if_pos hlt]
      rfl
    · have hins := skipped.size_insert_le (toLex (d.recvEpoch, m))
        ⟨messageKeyAt K d.recvChainKey m, now⟩
      omega
    · intro i hi
      rw [get?_insert]
      split_ifs with heq
      · have him : i = m := congrArg (fun k => (ofLex k).2) heq
        rw [him]
      · have him : i ≠ m := fun h => heq (by rw [h])
        exact hget i (by omega)

/-- **The first arrival.** If the keys below the index fit: the answer is the key at that position, and
those below it are stored. -/
theorem nextRecvKey_advance (d : DoubleRatchet) (now i : Nat)
    (hnone : ∀ j, d.skipped.get? (toLex (d.recvEpoch, j)) = none)
    (hroom : d.skipped.size + i ≤ maxSkip) :
    (d.nextRecvKey K now d.recvEpoch i).1 = some (messageKeyAt K d.recvChainKey i) ∧
      Stores K (d.nextRecvKey K now d.recvEpoch i).2 d.recvChainKey now (List.range i) := by
  have hpurged : (d.purgeExpiredSkipKeys now).skipped.get? (toLex (d.recvEpoch, i)) = none := by
    rw [purgeExpiredSkipKeys, get?_retain, hnone i]
    rfl
  have hsize : (d.purgeExpiredSkipKeys now).skipped.size + i ≤ maxSkip := by
    have hle := d.skipped.size_retain_le fun _ entry => now - entry.insertedAt < skipKeyTtl
    simp only [purgeExpiredSkipKeys]
    omega
  obtain ⟨skipped, hfold, -, hget⟩ := foldl_skipKey K (d.purgeExpiredSkipKeys now) now i hsize
  have heq : d.nextRecvKey K now d.recvEpoch i
      = (some (messageKeyAt K d.recvChainKey i),
        { d.purgeExpiredSkipKeys now with
          recvChainKey := (ratchetStep K (chainAfter K d.recvChainKey i)).1, skipped }) := by
    have hwindow : ¬ maxSkip < i := by omega
    have hepoch : (d.purgeExpiredSkipKeys now).recvEpoch = d.recvEpoch := rfl
    rw [hepoch] at hfold
    simp only [nextRecvKey, hpurged, recvPacketIndexInEpoch, Nat.sub_zero, Nat.not_lt_zero, hwindow,
      if_false, hepoch, ne_eq, not_true, hfold]
    rfl
  rw [heq]
  exact ⟨rfl, ⟨fun j hj => hget j (mem_range.mp hj)⟩⟩

variable {d : DoubleRatchet} {chainKey : Key} {t : Nat}

/-- **A later arrival below it.** A stored key that has not expired is the answer; the others stay. -/
theorem nextRecvKey_stored {now : Nat} {indices : List Nat}
    (hst : Stores K d chainKey t (i :: indices)) (hi : i ∉ indices) (htime : now - t < skipKeyTtl) :
    (d.nextRecvKey K now d.recvEpoch i).1 = some (messageKeyAt K chainKey i) ∧
      Stores K (d.nextRecvKey K now d.recvEpoch i).2 chainKey t indices := by
  have hkept : ∀ j ∈ i :: indices, (d.purgeExpiredSkipKeys now).skipped.get? (toLex (d.recvEpoch, j))
      = some ⟨messageKeyAt K chainKey j, t⟩ := by
    intro j hj
    rw [purgeExpiredSkipKeys, get?_retain, hst.get j hj]
    simp [htime]
  have heq : d.nextRecvKey K now d.recvEpoch i
      = (some (messageKeyAt K chainKey i),
        { d.purgeExpiredSkipKeys now with
          skipped := (d.purgeExpiredSkipKeys now).skipped.erase (toLex (d.recvEpoch, i)) }) := by
    simp only [nextRecvKey, hkept i mem_cons_self]
  rw [heq]
  refine ⟨rfl, ⟨?_⟩⟩
  intro j hj
  have hne : toLex (d.recvEpoch, j) ≠ toLex (d.recvEpoch, i) := by
    intro h
    have hji : j = i := congrArg (fun k => (ofLex k).2) h
    exact hi (hji ▸ hj)
  show ((d.purgeExpiredSkipKeys now).skipped.erase (toLex (d.recvEpoch, i))).get?
    (toLex (d.recvEpoch, j)) = _
  rw [get?_erase, if_neg hne]
  exact hkept j (mem_cons_of_mem i hj)

variable {arrivals : List Receipt}

open Receipt

theorem receiveAll_stored (hst : Stores K d chainKey t (arrivals.map packetIndex))
    (hnodup : (arrivals.map packetIndex).Nodup)
    (htime : ∀ a ∈ arrivals, a.now - t < skipKeyTtl) :
    d.receiveAll K arrivals = arrivals.map fun a => some (messageKeyAt K chainKey a.packetIndex) := by
  induction arrivals generalizing d with
  | nil => rfl
  | cons a rest ih =>
    rw [map_cons, nodup_cons] at hnodup
    obtain ⟨hkey, hst'⟩ := nextRecvKey_stored K hst hnodup.1 (htime a mem_cons_self)
    simp [receiveAll, hkey, ih hst' hnodup.2 fun b hb => htime b (mem_cons_of_mem a hb)]

@[simp] theorem length_receiveAll (d : DoubleRatchet) (arrivals : List Receipt) :
    (d.receiveAll K arrivals).length = arrivals.length := by
  induction arrivals generalizing d with
  | nil => rfl
  | cons a rest ih => rw [receiveAll, length_cons, length_cons, ih]

theorem countP_receiveAll_le_one (d : DoubleRatchet)
    (hnodup : (arrivals.map packetIndex).Nodup) (i : Nat) :
    ((arrivals.zip (d.receiveAll K arrivals)).countP
      fun p => p.1.packetIndex = i ∧ p.2.isSome) ≤ 1 := by
  have hfst : (arrivals.zip (d.receiveAll K arrivals)).map Prod.fst = arrivals :=
    map_fst_zip (by simp)
  calc ((arrivals.zip (d.receiveAll K arrivals)).countP fun p => p.1.packetIndex = i ∧ p.2.isSome)
      ≤ (arrivals.zip (d.receiveAll K arrivals)).countP fun p => p.1.packetIndex == i :=
        countP_mono_left fun p _ h => by simp_all
    _ = (((arrivals.zip (d.receiveAll K arrivals)).map Prod.fst).map packetIndex).count i := by
        rw [List.count, countP_map, countP_map]
        rfl
    _ ≤ 1 := by
        rw [hfst]
        exact nodup_iff_count_le_one.mp hnodup i

/-- **Agreement of the symmetric ratchet.** With matching chain keys, if the packet with the highest
index arrives first and each of the others once, before its key has expired, the receiver computes the
key each packet was sent under. -/
theorem symmetric_ratchet_agreement (sender receiver : DoubleRatchet) (n : Nat)
    (arrivals : List Receipt) (hchain : sender.sendChainKey = receiver.recvChainKey)
    (hfresh : ∀ i, receiver.skipped.get? (toLex (receiver.recvEpoch, i)) = none)
    (hsent : ∀ a ∈ arrivals, a.packetIndex < n) (hfirst : receiver.HighestFirst arrivals) :
    KeysAgree K sender receiver n arrivals := by
  cases arrivals with
  | nil => exact ⟨rfl, fun _ => Nat.zero_le 1⟩
  | cons first rest =>
    obtain ⟨hroom, hbelow, hnodup⟩ := hfirst
    obtain ⟨hkey, hst⟩ := nextRecvKey_advance K receiver first.now first.packetIndex hfresh hroom
    have hrest : Stores K (receiver.nextRecvKey K first.now receiver.recvEpoch first.packetIndex).2
        receiver.recvChainKey first.now (rest.map Receipt.packetIndex) := by
      refine ⟨fun i hi => hst.get i ?_⟩
      obtain ⟨a, ha, rfl⟩ := mem_map.mp hi
      exact mem_range.mpr (hbelow a ha).1
    have hall : ((first :: rest).map Receipt.packetIndex).Nodup := by
      rw [map_cons, nodup_cons]
      refine ⟨?_, hnodup⟩
      intro hmem
      obtain ⟨a, ha, heq⟩ := mem_map.mp hmem
      exact (hbelow a ha).1.ne heq
    constructor
    · have hsame : ∀ a ∈ first :: rest, (sendKeys K n sender)[a.packetIndex]?
          = some (messageKeyAt K receiver.recvChainKey a.packetIndex) := by
        intro a ha
        rw [getElem?_sendKeys K sender (hsent a ha), hchain]
      rw [map_congr_left hsame, receiveAll, map_cons, hkey,
        receiveAll_stored K hrest hnodup fun a ha => (hbelow a ha).2]
    · exact countP_receiveAll_le_one K receiver hall

/-! ### Concrete runs -/

def addPrimitives (tag : RatchetContext → UInt8) : RatchetPrimitives where
  deriveKey context input := Vector.ofFn fun i =>
    input.getD i.val 0 + input.getD (i.val + 32) 0 + tag context
  ephemeralPublic secret := secret
  dhExchange secret theirs := Vector.ofFn fun i => secret.get i + theirs.get i

def contextTag : RatchetContext → UInt8
  | .initiatorSend => 1
  | .responderSend => 2
  | .recvChain => 3
  | .sendChain => 4
  | .chain => 5
  | .message => 6
  | .root => 7

def sampleRatchet (isInitiator : Bool) : DoubleRatchet :=
  new (addPrimitives contextTag) (Vector.replicate 32 0) isInitiator (Vector.replicate 32 9) 0

/-- Three packets, the last one first. -/
theorem symmetric_ratchet_agreement_three :
    KeysAgree (addPrimitives contextTag) (sampleRatchet true) (sampleRatchet false) 3
      [⟨0, 2⟩, ⟨1, 0⟩, ⟨2, 1⟩] :=
  symmetric_ratchet_agreement (addPrimitives contextTag) (sampleRatchet true) (sampleRatchet false) 3
    [⟨0, 2⟩, ⟨1, 0⟩, ⟨2, 1⟩] rfl (fun _ => rfl) (by decide)
    ⟨by decide, by decide, by decide⟩

/-- **Packets in order.** The chain keys match and nothing is skipped. The second packet is answered
with the key of the third, since the loop starts at 0 again; and a packet that is delivered twice
yields two keys. -/
theorem in_order_keys_differ :
    (sampleRatchet true).sendChainKey = (sampleRatchet false).recvChainKey ∧
      ¬ KeysAgree (addPrimitives contextTag) (sampleRatchet true) (sampleRatchet false) 3
        [⟨0, 0⟩, ⟨0, 1⟩] ∧
      (sampleRatchet false).receiveAll (addPrimitives contextTag) [⟨0, 0⟩, ⟨0, 1⟩]
        = ((sendKeys (addPrimitives contextTag) 3 (sampleRatchet true)).eraseIdx 1).map some ∧
      ¬ KeysAgree (addPrimitives contextTag) (sampleRatchet true) (sampleRatchet false) 1
        [⟨0, 0⟩, ⟨0, 0⟩] := by
  refine ⟨rfl, ?_, by decide +kernel, ?_⟩
  · intro h
    exact absurd h.keys (by decide +kernel)
  · intro h
    exact absurd (h.once 0) (by decide +kernel)

end DoubleRatchet

end SeamProtocol
