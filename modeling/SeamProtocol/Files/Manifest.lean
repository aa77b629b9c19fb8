import SeamProtocol.Files.Frame
import SeamProtocol.Lib.Text

/-! # The encoding of manifests

The decoder goes through the bytes with a position; reading outside of them and an overflow of the
position are `none`. -/

namespace SeamProtocol

open Lib List Option

def syncManifest : UInt8 := 0x20

def syncHashLen : Nat := 32

def minEntryLen : Nat := 4 + 8 + syncHashLen

inductive ManifestError where
  | expectedManifest
  | tooShort
  | implausibleCount (count length : Nat)
  | truncatedAtPathLen
  | truncatedAtPath
  | invalidUtf8
  deriving DecidableEq

def encodeEntry (e : ManifestEntry) : Bytes :=
  beBytes 4 e.path.length ++ (e.path ++ (beBytes 8 e.size ++ e.hash))

def encodeManifest (entries : List ManifestEntry) : Bytes :=
  syncManifest :: (beBytes 4 entries.length ++ entries.flatMap encodeEntry)

def usize (n : Nat) : Option Nat := if n < 2 ^ 64 then some n else none

def decodeEntries (data : Bytes) : Nat → Nat → Option (Except ManifestError (List ManifestEntry))
  | 0, _ => some (.ok [])
  | k + 1, pos =>
    (usize (pos + 4)).bind fun start =>
    if data.length < start then some (.error .truncatedAtPathLen)
    else (slice data pos start).bind fun len =>
    (usize (start + beNat len + 8 + syncHashLen)).bind fun next =>
    if data.length < next then some (.error .truncatedAtPath)
    else (slice data start (start + beNat len)).bind fun path =>
    if (fromUtf8 path).isNone then some (.error .invalidUtf8)
    else (slice data (start + beNat len) (start + beNat len + 8)).bind fun size =>
    (slice data (start + beNat len + 8) next).bind fun hash =>
    (decodeEntries data k next).map (Except.map (⟨path, beNat size, hash⟩ :: ·))

def decodeCount (data : Bytes) : Option (Except ManifestError (Nat × Bytes)) :=
  match data with
  | [] => some (.error .expectedManifest)
  | tag :: data =>
    if tag ≠ syncManifest then some (.error .expectedManifest)
    else if data.length < 4 then some (.error .tooShort)
    else (slice data 0 4).map fun count =>
      if data.length / minEntryLen < beNat count then .error (.implausibleCount (beNat count) data.length)
      else .ok (beNat count, data)

def decodeManifest (data : Bytes) : Option (Except ManifestError (List ManifestEntry)) :=
  (decodeCount data).bind fun
    | .error e => some (.error e)
    | .ok (count, data) => decodeEntries data count 4

structure ManifestEntry.Valid (e : ManifestEntry) : Prop where
  utf8 : (fromUtf8 e.path).isNone = false
  path : e.path.length < 2 ^ 32
  size : e.size < 2 ^ 64
  hash : e.hash.length = syncHashLen

section

variable {data rest : Bytes} {pos k : Nat}

theorem decodeEntries_append (h63 : data.length < 2 ^ 63) (hpos : pos ≤ data.length)
    {len path size hash : Bytes} (h : data.drop pos = len ++ (path ++ (size ++ (hash ++ rest))))
    (hlen : len.length = 4) (hpath : path.length = beNat len) (hsize : size.length = 8)
    (hhash : hash.length = syncHashLen) :
    decodeEntries data (k + 1) pos = (if (fromUtf8 path).isNone then some (.error .invalidUtf8)
      else (decodeEntries data k (pos + 4 + beNat len + 8 + syncHashLen)).map
        (Except.map (⟨path, beNat size, hash⟩ :: ·))) ∧
    data.drop (pos + 4 + beNat len + 8 + syncHashLen) = rest ∧
    pos + 4 + beNat len + 8 + syncHashLen ≤ data.length := by
  obtain ⟨h1, h, hpos1⟩ := slice_of_drop h hpos (by rw [hlen])
  obtain ⟨h2, h, hpos2⟩ := slice_of_drop h hpos1 (by rw [hpath])
  obtain ⟨h3, h, hpos3⟩ := slice_of_drop h hpos2 (by rw [hsize])
  obtain ⟨h4, h, hpos4⟩ := slice_of_drop h hpos3 (by rw [hhash])
  refine ⟨?_, h, hpos4⟩
  rw [decodeEntries, usize, if_pos (by omega), bind_some, if_neg (Nat.not_lt.mpr hpos1), h1,
    bind_some, usize, if_pos (by omega), bind_some, if_neg (Nat.not_lt.mpr hpos4), h2,
    bind_some, h3, bind_some, h4, bind_some]

theorem decodeEntries_flatMap (h63 : data.length < 2 ^ 63) {es : List ManifestEntry}
    (hes : ∀ e ∈ es, e.Valid) (hpos : pos ≤ data.length)
    (h : data.drop pos = es.flatMap encodeEntry ++ rest) :
    decodeEntries data es.length pos = some (.ok es) := by
  induction es generalizing pos with
  | nil => rfl
  | cons e es ih =>
    obtain ⟨he, hes⟩ := forall_mem_cons.mp hes
    have hlen : beNat (beBytes 4 e.path.length) = e.path.length := beNat_beBytes_of_lt he.path
    have hsize : beNat (beBytes 8 e.size) = e.size := beNat_beBytes_of_lt he.size
    simp only [flatMap_cons, encodeEntry, append_assoc] at h
    obtain ⟨hentry, hdrop, hle⟩ := decodeEntries_append h63 hpos h (length_beBytes ..) hlen.symm
      (length_beBytes ..) he.hash
    rw [length_cons, hentry, if_neg (Bool.eq_false_iff.mp he.utf8), ih hes hle hdrop, hsize]
    rfl

theorem decodeEntries_spec (h63 : data.length < 2 ^ 63) (k : Nat) (hpos : pos ≤ data.length) :
    ∃ res, decodeEntries data k pos = some res ∧ ∀ es, res = .ok es →
      es.length = k ∧ es.flatMap encodeEntry <+: data.drop pos := by
  induction k generalizing pos with
  | zero => exact ⟨_, rfl, fun es hes => by cases hes; simp⟩
  | succ k ih =>
    have hstart : usize (pos + 4) = some (pos + 4) := if_pos (by omega)
    by_cases h4 : data.length < pos + 4
    · simp [decodeEntries, hstart, h4]
    obtain ⟨len, r1, hdrop, hlen⟩ := exists_append (data.drop pos) (n := 4) (by simp; omega)
    have hr1 := congrArg length hdrop
    rw [length_drop, length_append, hlen] at hr1
    have h32 : beNat len < 2 ^ 32 := by
      have := leNat_lt len.reverse
      rwa [length_reverse, hlen] at this
    by_cases hnext : data.length < pos + 4 + beNat len + 8 + syncHashLen
    · refine ⟨.error .truncatedAtPath, ?_, nofun⟩
      rw [decodeEntries, hstart, bind_some, if_neg h4, (slice_of_drop hdrop hpos (by rw [hlen])).1,
        bind_some, usize, if_pos (by simp [syncHashLen]; omega), bind_some, if_pos hnext]
    · -- everything the entry needs is there
      simp only [syncHashLen] at hnext
      obtain ⟨path, r2, rfl, hpath⟩ := exists_append r1 (n := beNat len) (by omega)
      rw [length_append] at hr1
      obtain ⟨size, r3, rfl, hsize⟩ := exists_append r2 (n := 8) (by omega)
      rw [length_append] at hr1
      obtain ⟨hash, rest, rfl, hhash⟩ := exists_append r3 (n := 32) (by omega)
      obtain ⟨hentry, hrest, hle⟩ := decodeEntries_append (k := k) h63 hpos hdrop hlen hpath hsize hhash
      obtain ⟨res, hres, hok⟩ := ih hle
      rw [hentry]
      split_ifs with hutf8
      · exact ⟨_, rfl, nofun⟩
      refine ⟨_, by rw [hres]; rfl, fun es hes => ?_⟩
      cases res with
      | error => cases hes
      | ok es' =>
        cases hes
        obtain ⟨hcount, t, ht⟩ := hok es' rfl
        have hlen' : beBytes 4 path.length = len := by rw [hpath, ← hlen, beBytes_beNat]
        have hsize' : beBytes 8 (beNat size) = size := by rw [← hsize, beBytes_beNat]
        refine ⟨congrArg (· + 1) hcount, t, ?_⟩
        rw [hdrop, ← hrest, ← ht, flatMap_cons, encodeEntry, hlen', hsize']
        simp only [append_assoc]

end

/-- **The manifest codec**: decoding inverts encoding; for every byte string the decoder reads inside of
it, without overflow, reserves space for at most one entry per 44 bytes, and what it returns encodes to a
prefix. -/
theorem manifest_codec :
    (∀ es : List ManifestEntry, es.length < 2 ^ 32 → (∀ e ∈ es, e.Valid) →
      (encodeManifest es).length < 2 ^ 63 → decodeManifest (encodeManifest es) = some (.ok es)) ∧
    ∀ data : Bytes, data.length < 2 ^ 63 →
      ∃ res, decodeManifest data = some res ∧ (∀ es, res = .ok es → encodeManifest es <+: data) ∧
        ∀ count rest, decodeCount data = some (.ok (count, rest)) → count ≤ data.length / 44 := by
  constructor
  · intro es h32 hes h63
    simp only [encodeManifest, length_cons] at h63
    have hcount : beNat (beBytes 4 es.length) = es.length := beNat_beBytes_of_lt h32
    have hlong : es.length * minEntryLen ≤ (es.flatMap encodeEntry).length := by
      rw [length_flatMap]
      refine (card_nsmul_le_sum _ minEntryLen fun n hn => ?_).trans_eq' (by simp)
      obtain ⟨e, he, rfl⟩ := mem_map.mp hn
      simp [encodeEntry, minEntryLen, (hes e he).hash]
      omega
    generalize hdata : beBytes 4 es.length ++ es.flatMap encodeEntry = data at *
    obtain ⟨hslice, hdrop, hle⟩ : slice data 0 4 = some (beBytes 4 es.length) ∧
        data.drop 4 = es.flatMap encodeEntry ∧ 4 ≤ data.length :=
      slice_of_drop (by exact hdata.symm) (Nat.zero_le _) (by simp)
    have hfit : es.length ≤ data.length / minEntryLen := by
      rw [Nat.le_div_iff_mul_le (by decide), ← hdata, length_append]
      omega
    simpa [decodeManifest, encodeManifest, hdata, decodeCount, Nat.not_lt.mpr hle, hslice, hcount,
      Nat.not_lt.mpr hfit] using decodeEntries_flatMap (by omega) hes hle (by rw [hdrop, append_nil])
  · intro data h63
    cases data with
    | nil => exact ⟨_, rfl, nofun, nofun⟩
    | cons tag data =>
      rw [length_cons] at h63 ⊢
      unfold decodeManifest decodeCount
      dsimp only
      by_cases htag : tag ≠ syncManifest
      · rw [if_pos htag]
        exact ⟨_, rfl, nofun, nofun⟩
      by_cases h4 : data.length < 4
      · simp [htag, h4]
      obtain ⟨count, rest, hdata, hlen⟩ := exists_append data (n := 4) (by omega)
      obtain ⟨hslice, hdrop, -⟩ : slice data 0 4 = some count ∧ data.drop 4 = rest ∧ 4 ≤ data.length :=
        slice_of_drop (by exact hdata) (Nat.zero_le _) (by simp [hlen])
      rw [if_neg htag, if_neg h4, hslice, Option.map_some]
      split_ifs with hbig
      · exact ⟨_, rfl, nofun, nofun⟩
      obtain ⟨res, hres, hok⟩ := decodeEntries_spec (by omega) (beNat count) (Nat.not_lt.mp h4)
      refine ⟨res, hres, fun es hes => ?_, fun n rest' h => ?_⟩
      · obtain ⟨hcount, t, ht⟩ := hok es hes
        refine ⟨t, ?_⟩
        rw [encodeManifest, hcount, ← hlen, beBytes_beNat, not_not.mp htag]
        simp [ht, hdrop, ← hdata]
      · cases h
        exact (Nat.not_lt.mp hbig).trans (Nat.div_le_div_right (Nat.le_succ _))

end SeamProtocol
