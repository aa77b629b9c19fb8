import Mathlib.Tactic

/-! # Byte strings: fixed-width integers and masking

`leBytes w n` and `leNat` are the `w` low-order bytes of `n`, least significant first, and back;
`beBytes` and `beNat` are the big-endian forms. `xorInto xs ys` is the XOR of `ys` into the front of
`xs`. -/

namespace Lib

abbrev Bytes := List UInt8

/-! ## Fixed-width integers -/

def leBytes : Nat → Nat → Bytes
  | 0, _ => []
  | w + 1, n => UInt8.ofNat n :: leBytes w (n / 256)

def leNat : Bytes → Nat
  | [] => 0
  | b :: bs => b.toNat + 256 * leNat bs

def beBytes (w n : Nat) : Bytes := (leBytes w n).reverse

def beNat (bs : Bytes) : Nat := leNat bs.reverse

open List

@[simp] theorem length_leBytes (w n : Nat) : (leBytes w n).length = w := by
  induction w generalizing n with
  | zero => rfl
  | succ w ih => rw [leBytes, length_cons, ih]

@[simp] theorem length_beBytes (w n : Nat) : (beBytes w n).length = w := by
  simp [beBytes]

theorem leNat_leBytes (w n : Nat) : leNat (leBytes w n) = n % 256 ^ w := by
  induction w generalizing n with
  | zero => rw [leBytes, leNat, pow_zero, Nat.mod_one]
  | succ w ih =>
    have hbyte : (UInt8.ofNat n).toNat = n % 256 := UInt8.toNat_ofNat'
    rw [leBytes, leNat, ih, hbyte, pow_succ', Nat.mod_mul]

theorem beNat_beBytes (w n : Nat) : beNat (beBytes w n) = n % 256 ^ w := by
  simp [beNat, beBytes, leNat_leBytes]

variable (bs : Bytes)

theorem leNat_lt : leNat bs < 256 ^ bs.length := by
  induction bs with
  | nil => simp [leNat]
  | cons b bs ih =>
    have hb : b.toNat < 256 := b.toNat_lt
    rw [leNat, length_cons, pow_succ]
    omega

theorem leBytes_leNat : leBytes bs.length (leNat bs) = bs := by
  induction bs with
  | nil => rfl
  | cons b bs ih =>
    have hb : b.toNat < 256 := b.toNat_lt
    rw [length_cons, leNat, leBytes, show (b.toNat + 256 * leNat bs) / 256 = leNat bs by omega, ih,
      show UInt8.ofNat (b.toNat + 256 * leNat bs) = b from UInt8.toNat_inj.mp (by simp)]

theorem beBytes_beNat : beBytes bs.length (beNat bs) = bs := by
  rw [beBytes, beNat, ← length_reverse, leBytes_leNat, reverse_reverse]

variable {n : Nat}

theorem beNat_beBytes_of_lt {w : Nat} (h : n < 256 ^ w) : beNat (beBytes w n) = n := by
  rw [beNat_beBytes, Nat.mod_eq_of_lt h]

/-! ## Slices -/

/-- The bytes from one index to another; reading outside of the bytes is `none`. -/
def slice (data : Bytes) (start stop : Nat) : Option Bytes :=
  if start ≤ stop ∧ stop ≤ data.length then some ((data.drop start).take (stop - start)) else none

variable {data : Bytes} {start stop : Nat}

theorem slice_eq (h : start ≤ stop) (h' : stop ≤ data.length) :
    slice data start stop = some ((data.drop start).take (stop - start)) := if_pos ⟨h, h'⟩

theorem slice_of_drop {x rest : Bytes} (h : data.drop start = x ++ rest)
    (hstart : start ≤ data.length) (hstop : stop = start + x.length) :
    slice data start stop = some x ∧ data.drop stop = rest ∧ stop ≤ data.length := by
  have hlen := congrArg length h
  rw [length_drop, length_append] at hlen
  subst hstop
  refine ⟨?_, ?_, by omega⟩
  · rw [slice_eq (by omega) (by omega), h, Nat.add_sub_cancel_left, take_left]
  · rw [← drop_drop, h, drop_left]

theorem exists_append (l : Bytes) (h : n ≤ l.length) : ∃ x y, l = x ++ y ∧ x.length = n :=
  ⟨l.take n, l.drop n, (take_append_drop ..).symm, length_take_of_le h⟩

/-! ## Masking -/

def xorInto : Bytes → Bytes → Bytes
  | [], _ => []
  | x :: xs, [] => x :: xs
  | x :: xs, y :: ys => (x ^^^ y) :: xorInto xs ys

@[simp] theorem length_xorInto (xs ys : Bytes) : (xorInto xs ys).length = xs.length := by
  induction xs generalizing ys with
  | nil => rfl
  | cons x xs ih =>
    cases ys with
    | nil => rfl
    | cons y ys => rw [xorInto, length_cons, length_cons, ih]

@[simp] theorem xorInto_xorInto (xs ys : Bytes) : xorInto (xorInto xs ys) ys = xs := by
  induction xs generalizing ys with
  | nil => rfl
  | cons x xs ih =>
    cases ys with
    | nil => rfl
    | cons y ys =>
      rw [xorInto, xorInto, ih, UInt8.xor_assoc, UInt8.xor_self, UInt8.xor_zero]

theorem xorInto_append_zeros (xs ys : Bytes) (k : Nat) :
    xorInto xs (ys ++ replicate k 0) = xorInto xs ys := by
  induction xs generalizing ys k with
  | nil => rfl
  | cons x xs ih =>
    cases ys with
    | cons y ys => simp [xorInto, ih]
    | nil =>
      cases k with
      | zero => rfl
      | succ k =>
        have hxs : xorInto xs [] = xs := by cases xs <;> rfl
        have := ih [] k
        simp_all [xorInto, replicate_succ]

theorem xorInto_right_cancel {xs ys zs : Bytes} (hlen : ys.length = zs.length)
    (hle : ys.length ≤ xs.length) (h : xorInto xs ys = xorInto xs zs) : ys = zs := by
  induction xs generalizing ys zs with
  | nil =>
    have hys : ys = [] := eq_nil_of_length_eq_zero (Nat.le_zero.mp hle)
    subst hys
    exact (eq_nil_of_length_eq_zero hlen.symm).symm
  | cons x xs ih =>
    cases ys with
    | nil => exact (eq_nil_of_length_eq_zero hlen.symm).symm
    | cons y ys =>
      cases zs with
      | nil => cases hlen
      | cons z zs =>
        obtain ⟨hhead, htail⟩ := cons.inj h
        have hyz : y = z := (UInt8.xor_right_inj x).mp hhead
        rw [hyz, ih (Nat.succ.inj hlen) (Nat.le_of_succ_le_succ hle) htail]

end Lib
