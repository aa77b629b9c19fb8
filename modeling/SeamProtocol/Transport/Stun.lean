import SeamProtocol.Lib.Bytes
import Mathlib.Data.Nat.Bitwise

/-! # STUN responses

The parser goes through the attributes of a binding response. Reading outside of the message, or more
attributes than it has bytes, would be `none`; that no address is found is a `none` inside. -/

namespace SeamProtocol

open Lib List Option

inductive MappedAddr where
  | v4 (ip port : Nat)
  | v6 (octets : Bytes) (port : Nat)
  deriving DecidableEq

def stunMagic : Nat := 0x2112A442

def stunHeaderLen : Nat := 20

def stunBindingResponse : Nat := 0x0101

def stunAttrMappedAddress : Nat := 0x0001

def stunAttrXorMappedAddress : Nat := 0x0020

def parseMappedAddress (data : Bytes) (xor : Bool) : Option (Option MappedAddr) :=
  if data.length < 4 then some none
  else (slice data 1 2).bind fun family => (slice data 2 4).bind fun rawPort =>
    let port := if xor then beNat rawPort ^^^ stunMagic >>> 16 else beNat rawPort
    if beNat family = 1 then
      if data.length < 8 then some none
      else (slice data 4 8).map fun raw =>
        some (.v4 (if xor then beNat raw ^^^ stunMagic else beNat raw) port)
    else if beNat family = 2 then
      if data.length < 20 then some none
      else (slice data 4 20).map fun raw =>
        -- only the first four bytes are unmasked
        some (.v6 (if xor then xorInto raw (beBytes 4 stunMagic) else raw) port)
    else some none

def parseAttrs (data : Bytes) (limit : Nat) :
    Nat → Nat → Option MappedAddr → Option MappedAddr → Option (Option MappedAddr)
  | 0, _, _, _ => none
  | fuel + 1, pos, mapped, xorMapped =>
    if pos + 4 ≤ limit then
      (slice data pos (pos + 2)).bind fun attrType => (slice data (pos + 2) (pos + 4)).bind fun len =>
      if data.length < pos + 4 + beNat len then some (xorMapped.or mapped)
      else (slice data (pos + 4) (pos + 4 + beNat len)).bind fun value =>
      let next := pos + 4 + (beNat len + 3) / 4 * 4
      if beNat attrType = stunAttrMappedAddress then
        (parseMappedAddress value false).bind fun mapped => parseAttrs data limit fuel next mapped xorMapped
      else if beNat attrType = stunAttrXorMappedAddress then
        (parseMappedAddress value true).bind fun xorMapped => parseAttrs data limit fuel next mapped xorMapped
      else parseAttrs data limit fuel next mapped xorMapped
    else some (xorMapped.or mapped)

def parseBindingResponse (data expectedTxn : Bytes) : Option (Option MappedAddr) :=
  if data.length < stunHeaderLen then some none
  else (slice data 0 2).bind fun msgType =>
    if beNat msgType ≠ stunBindingResponse then some none
    else (slice data 2 4).bind fun attrLen => (slice data 4 8).bind fun magic =>
    if beNat magic ≠ stunMagic then some none
    else (slice data 8 20).bind fun txn =>
    if txn ≠ expectedTxn then some none
    else if data.length < stunHeaderLen + beNat attrLen then some none
    else parseAttrs data (stunHeaderLen + beNat attrLen) (data.length + 1) stunHeaderLen none none

/-! ## Messages -/

structure StunAttr where
  attrType : Nat
  value : Bytes
  pad : Bytes

structure StunAttr.Valid (a : StunAttr) : Prop where
  attrType : a.attrType < 2 ^ 16
  value : a.value.length < 2 ^ 16
  pad : a.value.length + a.pad.length = (a.value.length + 3) / 4 * 4

def StunAttr.encode (a : StunAttr) : Bytes :=
  beBytes 2 a.attrType ++ (beBytes 2 a.value.length ++ (a.value ++ a.pad))

def bindingResponse (txn : Bytes) (attrs : List StunAttr) : Bytes :=
  beBytes 2 stunBindingResponse ++ (beBytes 2 (attrs.flatMap StunAttr.encode).length ++
    (beBytes 4 stunMagic ++ (txn ++ attrs.flatMap StunAttr.encode)))

def MappedAddr.xorEncode (txn : Bytes) : MappedAddr → Bytes
  | v4 ip port => 0 :: 1 :: (beBytes 2 (port ^^^ stunMagic >>> 16) ++ beBytes 4 (ip ^^^ stunMagic))
  | v6 octets port =>
    0 :: 2 :: (beBytes 2 (port ^^^ stunMagic >>> 16) ++ xorInto octets (beBytes 4 stunMagic ++ txn))

def MappedAddr.Valid : MappedAddr → Prop
  | v4 ip port => ip < 2 ^ 32 ∧ port < 2 ^ 16
  | v6 octets port => octets.length = 16 ∧ port < 2 ^ 16

/-- What the parser makes of an address: the last twelve bytes of IPv6 stay masked. -/
def MappedAddr.reported (txn : Bytes) : MappedAddr → MappedAddr
  | v4 ip port => v4 ip port
  | v6 octets port => v6 (xorInto (xorInto octets (beBytes 4 stunMagic ++ txn)) (beBytes 4 stunMagic)) port

theorem beNat_xor {w n : Nat} (hn : n < 2 ^ (8 * w)) (m : Nat) (hm : m < 2 ^ (8 * w)) :
    beNat (beBytes w (n ^^^ m)) ^^^ m = n := by
  rw [beNat_beBytes_of_lt (by
    rw [show (256 : Nat) = 2 ^ 8 from rfl, ← pow_mul]
    exact Nat.xor_lt_two_pow hn hm), Nat.xor_xor_cancel_right]

theorem parseMappedAddress_xorEncode {addr : MappedAddr} (haddr : addr.Valid) (txn : Bytes) :
    parseMappedAddress (addr.xorEncode txn) true = some (some (addr.reported txn)) := by
  -- family and port come first in both families
  have hfront : ∀ (f : UInt8) (port raw : Bytes), port.length = 2 →
      slice (0 :: f :: (port ++ raw)) 1 2 = some [f] ∧ slice (0 :: f :: (port ++ raw)) 2 4 = some port ∧
        ∀ n, n = 4 + raw.length → slice (0 :: f :: (port ++ raw)) 4 n = some raw := by
    intro f port raw hport
    obtain ⟨h2, hdrop, hle⟩ : slice (0 :: f :: (port ++ raw)) 2 4 = some port ∧ _ ∧ _ :=
      slice_of_drop (by exact rfl) (by simp) (by rw [hport])
    refine ⟨by rw [slice_eq (by simp) (by simp)]; rfl, h2, fun n hn => ?_⟩
    exact (slice_of_drop (hdrop.trans (append_nil raw).symm) hle hn).1
  cases addr with
  | v4 ip port =>
    obtain ⟨h1, h2, h3⟩ := hfront 1 (beBytes 2 (port ^^^ stunMagic >>> 16)) (beBytes 4 (ip ^^^ stunMagic))
      (length_beBytes ..)
    rw [MappedAddr.xorEncode, parseMappedAddress, if_neg (by simp), h1, bind_some, h2,
      bind_some, if_pos (by decide), if_neg (by simp), h3 8 (by simp), map_some, if_pos rfl,
      if_pos rfl, beNat_xor haddr.1 _ (by decide), beNat_xor haddr.2 _ (by decide)]
    rfl
  | v6 octets port =>
    obtain ⟨h1, h2, h3⟩ := hfront 2 (beBytes 2 (port ^^^ stunMagic >>> 16))
      (xorInto octets (beBytes 4 stunMagic ++ txn)) (length_beBytes ..)
    have hlen : octets.length = 16 := haddr.1
    rw [MappedAddr.xorEncode, parseMappedAddress, if_neg (by simp), h1, bind_some, h2,
      bind_some, if_neg (by decide), if_pos (by decide), if_neg (by simp [hlen]),
      h3 20 (by simp [hlen]), map_some, if_pos rfl, if_pos rfl, beNat_xor haddr.2 _ (by decide)]
    rfl

theorem MappedAddr.reported_eq_iff {octets txn : Bytes} (port : Nat) (hlen : octets.length = 16)
    (htxn : txn.length = 12) :
    (v6 octets port).reported txn = v6 octets port ↔ txn = replicate 12 0 := by
  rw [reported, v6.injEq, and_iff_left rfl]
  constructor
  · intro h
    have hmask := congrArg (xorInto · (beBytes 4 stunMagic)) h
    simp only [xorInto_xorInto] at hmask
    rw [← xorInto_append_zeros octets (beBytes 4 stunMagic) 12] at hmask
    exact append_cancel_left (xorInto_right_cancel (by simp [htxn]) (by simp [htxn, hlen]) hmask)
  · rintro rfl
    rw [xorInto_append_zeros, xorInto_xorInto]

/-! ## The parser -/

theorem parseMappedAddress_isSome (data : Bytes) (xor : Bool) : ∃ r, parseMappedAddress data xor = some r := by
  unfold parseMappedAddress
  by_cases h4 : data.length < 4
  · exact ⟨_, if_pos h4⟩
  rw [if_neg h4, slice_eq (by decide) (by omega), bind_some, slice_eq (by decide) (by omega),
    bind_some]
  dsimp only
  by_cases h8 : data.length < 8
  · rw [if_pos h8, if_pos (show data.length < 20 by omega)]
    split_ifs <;> exact ⟨_, rfl⟩
  by_cases h20 : data.length < 20
  · rw [if_neg h8, if_pos h20, slice_eq (by decide) (by omega)]
    split_ifs <;> exact ⟨_, rfl⟩
  · rw [if_neg h8, if_neg h20, slice_eq (by decide) (by omega), slice_eq (by decide) (by omega)]
    split_ifs <;> exact ⟨_, rfl⟩

section

variable {data : Bytes} {limit fuel pos : Nat} {mapped xorMapped : Option MappedAddr}

theorem parseAttrs_isSome (hlimit : limit ≤ data.length) (hfuel : limit < pos + 4 * (fuel + 1)) :
    ∃ r, parseAttrs data limit (fuel + 1) pos mapped xorMapped = some r := by
  induction fuel generalizing pos mapped xorMapped with
  | zero => exact ⟨_, if_neg (by omega)⟩
  | succ fuel ih =>
    by_cases hpos : pos + 4 ≤ limit
    · rw [parseAttrs, if_pos hpos, slice_eq (by omega) (by omega), bind_some,
        slice_eq (by omega) (by omega), bind_some]
      by_cases hstop : data.length < pos + 4 + beNat (((data.drop (pos + 2)).take (pos + 4 - (pos + 2))))
      · exact ⟨_, if_pos hstop⟩
      rw [if_neg hstop, slice_eq (by omega) (by omega), bind_some]
      split_ifs
      · obtain ⟨r, hr⟩ := parseMappedAddress_isSome _ false
        rw [hr]
        exact ih (by omega)
      · obtain ⟨r, hr⟩ := parseMappedAddress_isSome _ true
        rw [hr]
        exact ih (by omega)
      · exact ih (by omega)
    · exact ⟨_, if_neg hpos⟩

theorem parseAttrs_attrs {attrs : List StunAttr} (hattrs : ∀ a ∈ attrs, a.Valid)
    (hdrop : data.drop pos = attrs.flatMap StunAttr.encode) (hpos : pos ≤ data.length)
    (hfuel : attrs.length ≤ fuel) :
    ∃ mapped', parseAttrs data data.length (fuel + 1) pos mapped xorMapped
      = some ((attrs.foldl (fun x a => if a.attrType = stunAttrXorMappedAddress then
          (parseMappedAddress a.value true).join else x) xorMapped).or mapped') := by
  induction attrs generalizing pos fuel mapped xorMapped with
  | nil =>
    have hlen := congrArg length hdrop
    rw [length_drop, flatMap_nil, length_nil] at hlen
    exact ⟨mapped, if_neg (by omega)⟩
  | cons a attrs ih =>
    obtain ⟨ha, hattrs⟩ := forall_mem_cons.mp hattrs
    cases fuel with
    | zero => simp at hfuel
    | succ fuel =>
      simp only [flatMap_cons, StunAttr.encode, append_assoc] at hdrop
      obtain ⟨h1, hdrop, hpos1⟩ : slice data pos (pos + 2) = _ ∧ _ ∧ _ :=
        slice_of_drop hdrop hpos (by rw [length_beBytes])
      obtain ⟨h2, hdrop, hpos2⟩ : slice data (pos + 2) (pos + 4) = _ ∧ _ ∧ _ :=
        slice_of_drop hdrop hpos1 (by rw [length_beBytes])
      obtain ⟨h3, hdrop, hpos3⟩ : slice data (pos + 4) (pos + 4 + a.value.length) = _ ∧ _ ∧ _ :=
        slice_of_drop hdrop hpos2 rfl
      obtain ⟨-, hdrop, hpos4⟩ : slice data _ (pos + 4 + (a.value.length + 3) / 4 * 4) = _ ∧ _ ∧ _ :=
        slice_of_drop hdrop hpos3 (by have := ha.pad; omega)
      obtain ⟨m, hm⟩ := parseMappedAddress_isSome a.value false
      obtain ⟨x, hx⟩ := parseMappedAddress_isSome a.value true
      rw [parseAttrs, if_pos hpos2, h1, bind_some, h2, bind_some,
        beNat_beBytes_of_lt ha.value, if_neg (Nat.not_lt.mpr hpos3), h3, bind_some,
        beNat_beBytes_of_lt ha.attrType, hm, hx, foldl_cons, hx]
      have hfuel' := Nat.le_of_succ_le_succ hfuel
      by_cases hmapped : a.attrType = stunAttrMappedAddress
      · rw [if_pos hmapped, if_neg (by rw [hmapped]; decide)]
        exact ih hattrs hdrop hpos4 hfuel'
      by_cases hxor : a.attrType = stunAttrXorMappedAddress
      · rw [if_neg hmapped, if_pos hxor, if_pos hxor]
        exact ih hattrs hdrop hpos4 hfuel'
      · simpa [hmapped, hxor] using ih hattrs hdrop hpos4 hfuel'

end

theorem parseBindingResponse_bindingResponse {txn : Bytes} (htxn : txn.length = 12) {attrs : List StunAttr}
    (hvalid : ∀ a ∈ attrs, a.Valid) (hlen : (attrs.flatMap StunAttr.encode).length < 2 ^ 16) :
    ∃ mapped, parseBindingResponse (bindingResponse txn attrs) txn
      = some ((attrs.foldl (fun x a => if a.attrType = stunAttrXorMappedAddress then
          (parseMappedAddress a.value true).join else x) none).or mapped) := by
  generalize hdata : bindingResponse txn attrs = data
  have hdrop : data.drop 0 = bindingResponse txn attrs := hdata.symm
  obtain ⟨h1, hdrop, hpos⟩ : slice data 0 2 = _ ∧ _ ∧ _ :=
    slice_of_drop hdrop (Nat.zero_le _) (by rw [length_beBytes])
  obtain ⟨h2, hdrop, hpos⟩ : slice data 2 4 = _ ∧ _ ∧ _ := slice_of_drop hdrop hpos (by rw [length_beBytes])
  obtain ⟨h3, hdrop, hpos⟩ : slice data 4 8 = _ ∧ _ ∧ _ := slice_of_drop hdrop hpos (by rw [length_beBytes])
  obtain ⟨h4, hdrop, hpos⟩ : slice data 8 20 = _ ∧ _ ∧ _ := slice_of_drop hdrop hpos (by rw [htxn])
  have hattrs := congrArg length hdrop
  rw [length_drop] at hattrs
  have hlimit : stunHeaderLen + (attrs.flatMap StunAttr.encode).length = data.length := by
    rw [← hattrs]
    exact Nat.add_sub_of_le hpos
  have h20 : ¬ data.length < stunHeaderLen := Nat.not_lt.mpr hpos
  rw [parseBindingResponse, if_neg h20, h1, h2, h3, h4, bind_some,
    beNat_beBytes_of_lt (by decide), if_neg (by simp), bind_some, bind_some,
    beNat_beBytes_of_lt (by decide), if_neg (by simp), bind_some, if_neg (by simp),
    beNat_beBytes_of_lt hlen, hlimit, if_neg (Nat.lt_irrefl _)]
  have hcount : attrs.length ≤ (attrs.flatMap StunAttr.encode).length := by
    rw [length_flatMap]
    refine (card_nsmul_le_sum _ 1 fun n hn => ?_).trans_eq' (by simp)
    obtain ⟨a, -, rfl⟩ := mem_map.mp hn
    simp [StunAttr.encode]
    omega
  exact parseAttrs_attrs hvalid hdrop hpos (by omega)

theorem parseBindingResponse_total (data txn : Bytes) :
    ∃ r, parseBindingResponse data txn = some r ∧
      (data.length < stunHeaderLen ∨ beNat (data.take 2) ≠ stunBindingResponse ∨
        beNat ((data.drop 4).take 4) ≠ stunMagic ∨ (data.drop 8).take 12 ≠ txn ∨
        data.length < stunHeaderLen + beNat ((data.drop 2).take 2) → r = none) := by
  unfold parseBindingResponse
  by_cases h20 : data.length < stunHeaderLen
  · exact ⟨none, if_pos h20, fun _ => rfl⟩
  have h20' : 20 ≤ data.length := Nat.not_lt.mp h20
  rw [if_neg h20, slice_eq (by decide) (by omega), slice_eq (by decide) (by omega),
    slice_eq (by decide) (by omega), slice_eq (by decide) h20']
  simp only [bind_some, drop_zero, Nat.sub_zero, Nat.reduceSub]
  split_ifs with htype hmagic htxn hlen
  · exact ⟨none, rfl, fun _ => rfl⟩
  · exact ⟨none, rfl, fun _ => rfl⟩
  · exact ⟨none, rfl, fun _ => rfl⟩
  · exact ⟨none, rfl, fun _ => rfl⟩
  · obtain ⟨r, hr⟩ := parseAttrs_isSome (Nat.not_lt.mp hlen)
      (show _ < stunHeaderLen + 4 * (data.length + 1) by omega)
    exact ⟨r, hr, by tauto⟩

/-- **The mapped address** of a well-formed response is returned exactly if it is an IPv4 address or the
transaction id is zero; and for every byte string the parser ends, reads inside of it, and returns nothing
if type, cookie, transaction id or length do not match. -/
theorem mapped_address_iff {txn : Bytes} (htxn : txn.length = 12) {addr : MappedAddr} (haddr : addr.Valid)
    {before after attrs : List StunAttr} {pad : Bytes}
    (hattrs : attrs = before ++ ⟨stunAttrXorMappedAddress, addr.xorEncode txn, pad⟩ :: after)
    (hvalid : ∀ a ∈ attrs, a.Valid)
    (hother : ∀ a ∈ before ++ after, a.attrType ≠ stunAttrXorMappedAddress)
    (hlen : (attrs.flatMap StunAttr.encode).length < 2 ^ 16) :
    (parseBindingResponse (bindingResponse txn attrs) txn = some (some addr) ↔
      (∃ ip port, addr = .v4 ip port) ∨ txn = replicate 12 0) ∧
    ∀ data txn : Bytes, ∃ r, parseBindingResponse data txn = some r ∧
      (data.length < stunHeaderLen ∨ beNat (data.take 2) ≠ stunBindingResponse ∨
        beNat ((data.drop 4).take 4) ≠ stunMagic ∨ (data.drop 8).take 12 ≠ txn ∨
        data.length < stunHeaderLen + beNat ((data.drop 2).take 2) → r = none) := by
  refine ⟨?_, parseBindingResponse_total⟩
  obtain ⟨mapped, hparse⟩ := parseBindingResponse_bindingResponse htxn hvalid hlen
  -- the other attributes do not touch the address
  have hsame : ∀ l : List StunAttr, (∀ a ∈ l, a.attrType ≠ stunAttrXorMappedAddress) →
      ∀ x : Option MappedAddr, l.foldl (fun x a => if a.attrType = stunAttrXorMappedAddress then
        (parseMappedAddress a.value true).join else x) x = x := by
    intro l hl x
    exact foldlRecOn l _ (motive := (· = x)) rfl fun y hy a ha => by rw [if_neg (hl a ha), hy]
  obtain ⟨hbefore, hafter⟩ := forall_mem_append.mp hother
  rw [hparse, hattrs, foldl_append, foldl_cons, hsame before hbefore, hsame after hafter, if_pos rfl,
    parseMappedAddress_xorEncode haddr]
  cases addr with
  | v4 ip port => simp [MappedAddr.reported]
  | v6 octets port =>
    rw [← MappedAddr.reported_eq_iff port haddr.1 htxn]
    simp

/-- An IPv4 address, after an attribute with padding. -/
theorem mapped_address_v4 :
    parseBindingResponse (bindingResponse (replicate 12 1) [⟨0x8022, [7], [0, 0, 0]⟩,
      ⟨stunAttrXorMappedAddress, (MappedAddr.v4 0x01020304 80).xorEncode (replicate 12 1), []⟩])
      (replicate 12 1) = some (some (.v4 0x01020304 80)) := by
  have hvalid : ∀ a ∈ [⟨0x8022, [7], [0, 0, 0]⟩, ⟨stunAttrXorMappedAddress,
      (MappedAddr.v4 0x01020304 80).xorEncode (replicate 12 1), []⟩], StunAttr.Valid a :=
    forall_mem_cons.mpr ⟨⟨by decide, by decide, by decide⟩,
      forall_mem_cons.mpr ⟨⟨by decide, by decide, by decide⟩, nofun⟩⟩
  exact (@mapped_address_iff (replicate 12 1) rfl (.v4 0x01020304 80) ⟨by decide, by decide⟩
    [⟨0x8022, [7], [0, 0, 0]⟩] [] _ [] rfl hvalid (by decide) (by decide)).1.mpr (.inl ⟨_, _, rfl⟩)

/-- **A wrong IPv6 address**: the one that was sent ends in 1, the one that is returned has the transaction
id in its last twelve bytes. -/
theorem ipv6_address_masked :
    parseBindingResponse (bindingResponse (replicate 12 1) [⟨stunAttrXorMappedAddress,
      (MappedAddr.v6 (replicate 15 0 ++ [1]) 80).xorEncode (replicate 12 1), []⟩]) (replicate 12 1)
      = some (some (.v6 (replicate 4 0 ++ replicate 11 1 ++ [0]) 80)) := by
  decide +kernel

end SeamProtocol
