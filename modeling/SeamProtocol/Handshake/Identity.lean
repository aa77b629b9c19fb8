import SeamProtocol.Files.Manifest

/-! # Identity files

The X25519 secret, the two ML-KEM keys with their lengths, and in version 3 the two ML-DSA keys, which
are derived from a file of version 2. In what is read, the outer `none` is a panic. -/

namespace SeamProtocol.Identity

open Lib List

/-- A key that is kept in `n` bytes and can be read back. -/
structure KeyCodec (K : Type) (n : Nat) where
  toBytes : K → Bytes
  fromBytes : Bytes → Option K
  length_toBytes : ∀ key, (toBytes key).length = n
  fromBytes_toBytes : ∀ key, fromBytes (toBytes key) = some key

structure KeyLibrary where
  Secret : Type
  Public : Type
  KemSecret : Type
  KemPublic : Type
  DsaSecret : Type
  DsaPublic : Type
  secret : KeyCodec Secret 32
  publicOf : Secret → Public
  kemSeed : KeyCodec KemSecret 64
  kemPublic : KeyCodec KemPublic 1184
  dsaSecret : KeyCodec DsaSecret 4032
  dsaPublic : KeyCodec DsaPublic 1952
  /-- `blake3::derive_key` of the X25519 secret, and the keys from that seed -/
  keygenFromSeed : Bytes → DsaPublic × DsaSecret
  deriveKey : Bytes → Bytes

def KeyCodec.plain (n : Nat) : KeyCodec { key : Bytes // key.length = n } n where
  toBytes key := key
  fromBytes bytes := if h : bytes.length = n then some ⟨bytes, h⟩ else none
  length_toBytes key := key.2
  fromBytes_toBytes key := dif_pos key.2

example : Nonempty KeyLibrary :=
  ⟨{ secret := .plain 32, publicOf := id, kemSeed := .plain 64, kemPublic := .plain 1184
     dsaSecret := .plain 4032, dsaPublic := .plain 1952, deriveKey := id
     keygenFromSeed := fun _ => (⟨_, length_replicate (a := 0)⟩, ⟨_, length_replicate (a := 0)⟩), .. }⟩

variable {L : KeyLibrary}

structure IdentityKeypair (L : KeyLibrary) where
  x25519Secret : L.Secret
  x25519Public : L.Public
  kemPk : L.KemPublic
  kemSk : L.KemSecret
  mldsaSk : L.DsaSecret
  mldsaPk : L.DsaPublic
  public_eq : x25519Public = L.publicOf x25519Secret

def KeyCodec.decode {K : Type} {n : Nat} (C : KeyCodec K n) (bytes : Bytes) : Option K :=
  if bytes.length = n then C.fromBytes bytes else none

variable {n : Nat}

@[simp] theorem KeyCodec.decode_toBytes {K : Type} (C : KeyCodec K n) (key : K) :
    C.decode (C.toBytes key) = some key := by
  rw [decode, if_pos (C.length_toBytes key), C.fromBytes_toBytes key]

def IdentityKeypair.toBytes (id : IdentityKeypair L) : Bytes :=
  3 :: (L.secret.toBytes id.x25519Secret ++ (beBytes 4 64 ++ (L.kemSeed.toBytes id.kemSk
    ++ (beBytes 4 1184 ++ (L.kemPublic.toBytes id.kemPk
    ++ (L.dsaSecret.toBytes id.mldsaSk ++ L.dsaPublic.toBytes id.mldsaPk))))))

/-- What both versions begin with; `rest` gets the keys and the index where they end. -/
def readKeys (L : KeyLibrary) (bytes : Bytes)
    (rest : Bytes → L.Secret → L.KemSecret → L.KemPublic → Nat → Option (Option (IdentityKeypair L))) :
    Option (Option (IdentityKeypair L)) :=
  if bytes.length < 41 then some none else
  (slice bytes 1 33).bind fun arr =>
  (L.secret.decode arr).elim (some none) fun x25519Secret =>
  (slice bytes 33 37).bind fun kemSkLen =>
  (usize (37 + beNat kemSkLen)).bind fun kemSkEnd =>
  if bytes.length < kemSkEnd then some none else
  (slice bytes 37 kemSkEnd).bind fun seed =>
  (L.kemSeed.decode seed).elim (some none) fun kemSk =>
  (usize (kemSkEnd + 4)).bind fun start =>
  if bytes.length < start then some none else
  (slice bytes kemSkEnd start).bind fun kemPkLen =>
  (usize (start + beNat kemPkLen)).bind fun kemPkEnd =>
  if bytes.length < kemPkEnd then some none else
  (slice bytes start kemPkEnd).bind fun pkArr =>
  (L.kemPublic.decode pkArr).elim (some none) fun kemPk => rest arr x25519Secret kemSk kemPk kemPkEnd

def fromBytesV3 (L : KeyLibrary) (bytes : Bytes) : Option (Option (IdentityKeypair L)) :=
  readKeys L bytes fun _ x25519Secret kemSk kemPk kemPkEnd =>
    (usize (kemPkEnd + 4032 + 1952)).bind fun mldsaEnd =>
    if bytes.length < mldsaEnd then some none else
    (slice bytes kemPkEnd (kemPkEnd + 4032)).bind fun skArr =>
    (slice bytes (kemPkEnd + 4032) mldsaEnd).bind fun pkArr =>
    (L.dsaSecret.decode skArr).elim (some none) fun mldsaSk =>
    (L.dsaPublic.decode pkArr).elim (some none) fun mldsaPk =>
    some (some ⟨x25519Secret, _, kemPk, kemSk, mldsaSk, mldsaPk, rfl⟩)

def fromBytesV2Upgrade (L : KeyLibrary) (bytes : Bytes) : Option (Option (IdentityKeypair L)) :=
  readKeys L bytes fun arr x25519Secret kemSk kemPk _ =>
    let keys := L.keygenFromSeed (L.deriveKey arr)
    some (some ⟨x25519Secret, _, kemPk, kemSk, keys.2, keys.1, rfl⟩)

def fromBytes (L : KeyLibrary) (bytes : Bytes) : Option (Option (IdentityKeypair L)) :=
  match bytes.head? with
  | some 3 => fromBytesV3 L bytes
  | some 2 => fromBytesV2Upgrade L bytes
  | _ => some none

def loadIdentity (L : KeyLibrary) (file : Bytes) : Option (Option (IdentityKeypair L × Bytes)) :=
  (fromBytes L file).map fun id => id.map fun id =>
    (id, if file.head? = some 2 then id.toBytes else file)

/-! ## No panic -/

variable {bytes : Bytes} {α β : Type}

theorem isSome_check {k : Option (Option α)} (hk : n ≤ bytes.length → k.isSome) :
    (if bytes.length < n then some none else k).isSome := by
  split_ifs with h
  · rfl
  · exact hk (Nat.le_of_not_lt h)

theorem isSome_slice {start stop : Nat} {k : Bytes → Option α} (h : start ≤ stop)
    (h' : stop ≤ bytes.length) (hk : ∀ x : Bytes, x.length = stop - start → (k x).isSome) :
    ((slice bytes start stop).bind k).isSome := by
  simpa [slice_eq h h'] using hk _ (by simp; omega)

theorem isSome_usize {k : Nat → Option α} (h : n < 2 ^ 64) (hk : (k n).isSome) :
    ((usize n).bind k).isSome := by
  rwa [usize, if_pos h, Option.bind_some]

theorem isSome_elim {o : Option α} {k : α → Option (Option β)} (hk : ∀ a, (k a).isSome) :
    (o.elim (some none) k).isSome := by
  cases o with
  | none => rfl
  | some a => exact hk a

theorem beNat_lt_of_length {len : Bytes} (h : len.length = n) : beNat len < 256 ^ n := by
  have hlt := leNat_lt len.reverse
  rwa [length_reverse, h] at hlt

/-- The indices are compared with the length before they are used, and far from `2 ^ 64`. -/
theorem isSome_readKeys
    {rest : Bytes → L.Secret → L.KemSecret → L.KemPublic → Nat → Option (Option (IdentityKeypair L))}
    (hrest : ∀ arr secret sk pk stop, stop ≤ bytes.length → stop < 2 ^ 34 →
      (rest arr secret sk pk stop).isSome) : (readKeys L bytes rest).isSome := by
  refine isSome_check fun h41 => ?_
  refine isSome_slice (by omega) (by omega) fun arr _ => isSome_elim fun secret => ?_
  refine isSome_slice (by omega) (by omega) fun skLen hlen => ?_
  have hsk := beNat_lt_of_length hlen
  refine isSome_usize (by omega) (isSome_check fun hend => ?_)
  refine isSome_slice (by omega) hend fun seed _ => isSome_elim fun sk => ?_
  refine isSome_usize (by omega) (isSome_check fun hstart => ?_)
  refine isSome_slice (by omega) hstart fun pkLen hlen => ?_
  rw [Nat.add_sub_cancel_left] at hlen
  have hpk := beNat_lt_of_length hlen
  refine isSome_usize (by omega) (isSome_check fun hstop => ?_)
  exact isSome_slice (by omega) hstop fun pk _ => isSome_elim fun pk => hrest _ _ _ _ _ hstop (by omega)

theorem isSome_fromBytes (L : KeyLibrary) (bytes : Bytes) : (fromBytes L bytes).isSome := by
  unfold fromBytes
  split
  · refine isSome_readKeys fun arr secret sk pk stop hstop hlt => ?_
    refine isSome_usize (by omega) (isSome_check fun hend => ?_)
    refine isSome_slice (by omega) (by omega) fun skArr _ => ?_
    refine isSome_slice (by omega) hend fun pkArr _ => ?_
    exact isSome_elim fun _ => isSome_elim fun _ => rfl
  · exact isSome_readKeys fun _ _ _ _ _ _ _ => rfl
  · rfl

/-! ## Round trips -/

open KeyCodec

theorem fromBytes_toBytes (id : IdentityKeypair L) : fromBytes L id.toBytes = some (some id) := by
  obtain ⟨secret, _, kemPk, kemSk, mldsaSk, mldsaPk, rfl⟩ := id
  set bytes := IdentityKeypair.toBytes ⟨secret, _, kemPk, kemSk, mldsaSk, mldsaPk, rfl⟩
  have hlen : bytes.length = 7273 := by simp [bytes, IdentityKeypair.toBytes, length_toBytes]
  -- One field after the other.
  obtain ⟨hx, d, -⟩ := @slice_of_drop bytes 1 33 _ _ rfl (by omega) (by rw [length_toBytes])
  obtain ⟨hskLen, d, -⟩ := @slice_of_drop bytes 33 37 _ _ d (by omega) (by rw [length_beBytes])
  obtain ⟨hsk, d, -⟩ := @slice_of_drop bytes 37 101 _ _ d (by omega) (by rw [length_toBytes])
  obtain ⟨hpkLen, d, -⟩ := @slice_of_drop bytes 101 105 _ _ d (by omega) (by rw [length_beBytes])
  obtain ⟨hpk, d, -⟩ := @slice_of_drop bytes 105 1289 _ _ d (by omega) (by rw [length_toBytes])
  obtain ⟨hdsaSk, d, -⟩ := @slice_of_drop bytes 1289 5321 _ _ d (by omega)
    (by rw [length_toBytes])
  obtain ⟨hdsaPk, -, -⟩ := @slice_of_drop bytes 5321 7273 _ [] (by rw [d, append_nil]) (by omega)
    (by rw [length_toBytes])
  have h3 : fromBytes L bytes = fromBytesV3 L bytes := rfl
  simp [h3, fromBytesV3, readKeys, hlen, hx, hskLen, hsk, hpkLen, hpk, hdsaSk, hdsaPk, usize,
    beNat_beBytes]

def loads (L : KeyLibrary) : Nat → Bytes → Option (Option (IdentityKeypair L))
  | 0, file => fromBytes L file
  | n + 1, file => (loadIdentity L file).bind fun r => r.elim (some none) fun r => loads L n r.2

/-- **Identity files.** An identity is read back from its file, no file makes reading panic, and however
often a file is loaded, and upgraded if it is of version 2, its keys stay the same. -/
theorem identity_files (L : KeyLibrary) :
    (∀ id : IdentityKeypair L, fromBytes L id.toBytes = some (some id))
    ∧ (∀ bytes, (fromBytes L bytes).isSome)
    ∧ ∀ file id, fromBytes L file = some (some id) → ∀ n, loads L n file = some (some id) := by
  refine ⟨fromBytes_toBytes, isSome_fromBytes L, fun file id hid n => ?_⟩
  induction n generalizing file with
  | zero => exact hid
  | succ n ih =>
    rw [loads, loadIdentity, hid]
    refine ih _ ?_
    split_ifs
    · exact fromBytes_toBytes id
    · exact hid

end SeamProtocol.Identity
