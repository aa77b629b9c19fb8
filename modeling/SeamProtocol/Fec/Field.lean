import Mathlib.Algebra.Field.Basic
import Mathlib.Dynamics.PeriodicPts.Lemmas
import SeamProtocol.Lib.Bytes

/-! # The field with 256 elements

Bytes with XOR as addition, and with the product of polynomials modulo `x⁸ + x⁴ + x³ + x² + 1` as
multiplication, which is computed with tables of powers and logarithms. -/

namespace SeamProtocol

open Lib Function Finset UInt8

/-! ## Tables -/

def nextPower (x : UInt16) : UInt16 :=
  let x := x <<< 1
  if x &&& 0x100 ≠ 0 then x ^^^ 0x11d else x

structure Tables where
  exp : Nat → UInt8
  log : Nat → UInt8
  x : UInt16

def fillTables (t : Tables) (i : Nat) : Tables where
  exp := Function.update (Function.update t.exp i t.x.toUInt8) (i + 255) t.x.toUInt8
  log := Function.update t.log t.x.toNat (UInt8.ofNat i)
  x := nextPower t.x

def buildTables : Tables :=
  let t := (List.range 255).foldl fillTables ⟨fun _ => 0, fun _ => 0, 1⟩
  { t with exp := Function.update (Function.update t.exp 255 1) 510 1 }

def Gf : Type := UInt8

namespace Gf

instance : DecidableEq Gf := inferInstanceAs (DecidableEq UInt8)

instance : Zero Gf := ⟨(0 : UInt8)⟩

instance : One Gf := ⟨(1 : UInt8)⟩

def ofNat (n : Nat) : Gf := UInt8.ofNat n

def toByte (a : Gf) : UInt8 := a

def toNat (a : Gf) : Nat := a.toByte.toNat

def add (a b : Gf) : Gf := UInt8.xor a b

instance : Add Gf := ⟨add⟩

def exp (i : Nat) : Gf := buildTables.exp i

def log (a : Gf) : Nat := (buildTables.log a.toNat).toNat

def mul (a b : Gf) : Gf := if a = 0 ∨ b = 0 then 0 else exp (log a + log b)

instance : Mul Gf := ⟨mul⟩

def inv (a : Gf) : Option Gf := if a = 0 then none else some (exp (255 - log a))

/-! ## Addition -/

theorem toByte_eq (a : Gf) : a.toByte = a := rfl

theorem toNat_injective : Function.Injective toNat := fun _ _ h => UInt8.toNat_inj.mp h

theorem toNat_lt (a : Gf) : a.toNat < 256 := UInt8.toNat_lt a

variable {n : Nat}

@[simp] theorem toNat_ofNat (h : n < 256) : (ofNat n).toNat = n := toNat_ofNat_of_lt' h

@[simp] theorem ofNat_toNat (a : Gf) : ofNat a.toNat = a := UInt8.ofNat_toNat

theorem forall_of_ofNat {p : Gf → Prop} (h : ∀ n < 256, p (ofNat n)) (a : Gf) : p a := by
  have ha := h a.toNat a.toNat_lt
  rwa [ofNat_toNat] at ha

theorem add_self (a : Gf) : a + a = 0 := UInt8.xor_self

instance : Neg Gf := ⟨id⟩

instance : Sub Gf := ⟨add⟩

instance : AddCommGroup Gf where
  add_assoc a b c := UInt8.xor_assoc a b c
  zero_add a := UInt8.zero_xor
  add_zero a := UInt8.xor_zero
  add_comm a b := UInt8.xor_comm a b
  neg_add_cancel a := add_self a
  nsmul := nsmulRec
  zsmul := zsmulRec

/-! ## Shifts -/

def shift (a : Gf) : Gf :=
  let carry : UInt8 := if a.toByte.toBitVec.msb then 0x1d else 0
  a.toByte <<< 1 ^^^ carry

theorem shift_add (a b : Gf) : shift (a + b) = shift a + shift b := by
  have hmsb : (a + b).toByte.toBitVec.msb = (a.toByte.toBitVec.msb ^^ b.toByte.toBitVec.msb) :=
    BitVec.msb_xor
  have hshift : (a + b).toByte <<< 1 = a.toByte <<< 1 ^^^ b.toByte <<< 1 := shiftLeft_xor
  unfold shift
  rw [hmsb, hshift]
  have hcomm : ∀ x y c d : UInt8, (x ^^^ y) ^^^ (c ^^^ d) = (x ^^^ c) ^^^ (y ^^^ d) := by
    intro x y c d
    rw [UInt8.xor_assoc, UInt8.xor_assoc, ← UInt8.xor_assoc y c d, UInt8.xor_comm y c,
      UInt8.xor_assoc c y d]
  have hcarry : ∀ p q : Bool, (if (p ^^ q) = true then 0x1d else 0 : UInt8)
      = (if p = true then 0x1d else 0) ^^^ (if q = true then 0x1d else 0) := by decide
  rw [hcarry]
  exact hcomm _ _ _ _

theorem shift_injective : Function.Injective shift := by
  intro a b h
  have hker : ∀ c : Gf, shift c = 0 → c = 0 := forall_of_ofNat (by decide +kernel)
  have hzero : shift (a - b) = 0 := by
    show shift (a + b) = 0
    rw [shift_add, h, add_self]
  exact sub_eq_zero.mp (hker _ hzero)

theorem nextPower_eq (a : Gf) : nextPower a.toByte.toUInt16 = (shift a).toByte.toUInt16 := by
  revert a
  exact forall_of_ofNat (by decide +kernel)

def power (n : Nat) : Gf := shift^[n] 1

theorem power_succ (n : Nat) : power (n + 1) = shift (power n) := iterate_succ_apply' shift n 1

theorem minimalPeriod_shift : Function.minimalPeriod shift 1 = 255 := by
  have hperiod : Function.IsPeriodicPt shift 255 1 := by
    show power 255 = 1
    decide +kernel
  have hdvd : Function.minimalPeriod shift 1 ∣ 255 := hperiod.minimalPeriod_dvd
  -- a proper divisor of 255 divides 85, 51 or 15
  have hnot : ∀ n, power n ≠ 1 → ¬ Function.minimalPeriod shift 1 ∣ n := by
    intro n hn hdvd
    exact hn (isPeriodicPt_iff_minimalPeriod_dvd.mpr hdvd)
  have h85 := hnot 85 (by decide +kernel)
  have h51 := hnot 51 (by decide +kernel)
  have h15 := hnot 15 (by decide +kernel)
  have hmem : Function.minimalPeriod shift 1 ∈ Nat.divisors 255 := by
    rw [Nat.mem_divisors]
    exact ⟨hdvd, by decide⟩
  have hdiv : Nat.divisors 255 = {1, 3, 5, 15, 17, 51, 85, 255} := by decide +kernel
  rw [hdiv] at hmem
  simp only [mem_insert, mem_singleton] at hmem
  rcases hmem with h | h | h | h | h | h | h | h <;> rw [h] at h85 h51 h15 ⊢ <;> omega

theorem power_eq_power_iff {m : Nat} (hm : m < 255) (hn : n < 255) : power m = power n ↔ m = n := by
  rw [← minimalPeriod_shift] at hm hn
  exact iterate_eq_iterate_iff_of_lt_minimalPeriod hm hn

theorem power_mod (n : Nat) : power (n % 255) = power n := by
  rw [← minimalPeriod_shift]
  exact iterate_mod_minimalPeriod_eq

theorem power_ne_zero (n : Nat) : power n ≠ 0 := by
  induction n with
  | zero => decide
  | succ n ih =>
    rw [power_succ]
    intro h
    exact ih (shift_injective (h.trans (by decide)))

variable {a : Gf}

theorem exists_power (ha : a ≠ 0) : ∃ n < 255, power n = a := by
  -- 255 different powers among 255 numbers
  have hsub : (Finset.range 255).image (fun n => (power n).toNat) ⊆ Finset.Icc 1 255 := by
    intro k hk
    obtain ⟨n, -, rfl⟩ := mem_image.mp hk
    have hpos : (power n).toNat ≠ 0 := fun h => power_ne_zero n (toNat_injective h)
    have hlt := (power n).toNat_lt
    rw [mem_Icc]
    omega
  have hinj : Set.InjOn (fun n => (power n).toNat) (Finset.range 255) := by
    intro m hm n hn h
    rw [coe_range] at hm hn
    exact (power_eq_power_iff hm hn).mp (toNat_injective h)
  have hcard : (Finset.Icc 1 255).card ≤ ((Finset.range 255).image fun n => (power n).toNat).card := by
    rw [card_image_of_injOn hinj]
    simp
  have hall := eq_of_subset_of_card_le hsub hcard
  have hpos : a.toNat ≠ 0 := fun h => ha (toNat_injective h)
  have hmem : a.toNat ∈ Finset.Icc 1 255 := by
    have hlt := a.toNat_lt
    rw [mem_Icc]
    omega
  rw [← hall] at hmem
  obtain ⟨n, hn, heq⟩ := mem_image.mp hmem
  exact ⟨n, mem_range.mp hn, toNat_injective heq⟩

/-! ## Lookups -/

structure Filled (n : Nat) (t : Tables) : Prop where
  next : t.x = (power n).toByte.toUInt16
  low : ∀ j < n, t.exp j = (power j).toByte
  high : ∀ j < n, t.exp (j + 255) = (power j).toByte
  logs : ∀ j < n, t.log (power j).toNat = UInt8.ofNat j

theorem Filled.fillTables (hn : n < 255) {t : Tables} (h : Filled n t) :
    Filled (n + 1) (fillTables t n) := by
  have hbyte : t.x.toUInt8 = (power n).toByte := by
    simp [h.next]
  have hnum : t.x.toNat = (power n).toNat := by
    rw [h.next, toNat_toUInt16]
    rfl
  unfold SeamProtocol.fillTables
  rw [hbyte, hnum]
  refine ⟨?_, fun j hj => ?_, fun j hj => ?_, fun j hj => ?_⟩ <;> dsimp only
  · rw [h.next, nextPower_eq, power_succ]
  · rw [update_of_ne (by omega)]
    by_cases hjn : j = n
    · rw [hjn, update_self]
    · rw [update_of_ne hjn]
      exact h.low j (by omega)
  · by_cases hjn : j = n
    · rw [hjn, update_self]
    · rw [update_of_ne (by omega), update_of_ne (by omega)]
      exact h.high j (by omega)
  · by_cases hjn : j = n
    · rw [hjn, update_self]
    · -- different powers have different places
      have hne : (power j).toNat ≠ (power n).toNat := fun heq =>
        hjn ((power_eq_power_iff (by omega) hn).mp (toNat_injective heq))
      rw [update_of_ne hne]
      exact h.logs j (by omega)

theorem filled_foldl (n : Nat) (hn : n ≤ 255) :
    Filled n ((List.range n).foldl SeamProtocol.fillTables ⟨fun _ => 0, fun _ => 0, 1⟩) := by
  induction n with
  | zero =>
    exact ⟨by decide, fun _ hj => absurd hj (by omega), fun _ hj => absurd hj (by omega),
      fun _ hj => absurd hj (by omega)⟩
  | succ n ih =>
    rw [List.range_succ, List.foldl_append]
    exact (ih (by omega)).fillTables (by omega)

theorem exp_eq_power {i : Nat} (hi : i ≤ 510) : exp i = power i := by
  have h := filled_foldl 255 (le_refl _)
  unfold exp buildTables
  dsimp only
  rw [← power_mod i]
  rcases lt_trichotomy i 255 with hlow | rfl | hhigh
  · rw [update_of_ne (by omega), update_of_ne (by omega), h.low i hlow,
      Nat.mod_eq_of_lt hlow, toByte_eq]
  · rfl
  · by_cases hlast : i = 510
    · rw [hlast, update_self]
      rfl
    · have hrow := h.high (i - 255) (by omega)
      rw [Nat.sub_add_cancel (by omega)] at hrow
      have hmod : i % 255 = i - 255 := by omega
      rw [update_of_ne hlast, update_of_ne (by omega), hrow, hmod, toByte_eq]

theorem log_power (hn : n < 255) : log (power n) = n := by
  have h := (filled_foldl 255 (le_refl _)).logs n hn
  unfold log buildTables
  rw [h, toNat_ofNat_of_lt' (hn.trans (by decide))]

/-! ## Multiplication -/

theorem mul_def (a b : Gf) : a * b = if a = 0 ∨ b = 0 then 0 else exp (log a + log b) := rfl

theorem power_mul_power (m n : Nat) : power m * power n = power (m + n) := by
  rw [mul_def, if_neg (not_or.mpr ⟨power_ne_zero m, power_ne_zero n⟩), ← power_mod m, ← power_mod n,
    log_power (Nat.mod_lt _ (by decide)), log_power (Nat.mod_lt _ (by decide)),
    exp_eq_power (by omega), ← power_mod (m % 255 + n % 255), ← Nat.add_mod, power_mod]

theorem mul_power (a : Gf) (n : Nat) : a * power n = shift^[n] a := by
  by_cases ha : a = 0
  · have hzero : shift^[n] 0 = 0 := iterate_fixed (by decide) n
    rw [ha, hzero, mul_def, if_pos (.inl rfl)]
  · obtain ⟨m, -, rfl⟩ := exists_power ha
    rw [power_mul_power, power, Nat.add_comm, iterate_add_apply]
    rfl

theorem iterate_shift_add (n : Nat) (a b : Gf) : shift^[n] (a + b) = shift^[n] a + shift^[n] b := by
  induction n generalizing a b with
  | zero => rfl
  | succ n ih => rw [iterate_succ_apply, iterate_succ_apply,
      iterate_succ_apply, shift_add, ih]

theorem zero_mul' (a : Gf) : 0 * a = 0 := by rw [mul_def, if_pos (.inl rfl)]

theorem mul_zero' (a : Gf) : a * 0 = 0 := by rw [mul_def, if_pos (.inr rfl)]

theorem mul_comm' (a b : Gf) : a * b = b * a := by
  by_cases ha : a = 0
  · rw [ha, zero_mul', mul_zero']
  by_cases hb : b = 0
  · rw [hb, mul_zero', zero_mul']
  obtain ⟨i, -, rfl⟩ := exists_power ha
  obtain ⟨j, -, rfl⟩ := exists_power hb
  rw [power_mul_power, power_mul_power, Nat.add_comm]

theorem mul_assoc' (a b c : Gf) : a * b * c = a * (b * c) := by
  by_cases ha : a = 0
  · rw [ha, zero_mul', zero_mul', zero_mul']
  by_cases hb : b = 0
  · rw [hb, mul_zero', zero_mul', mul_zero']
  by_cases hc : c = 0
  · rw [hc, mul_zero', mul_zero', mul_zero']
  obtain ⟨i, -, rfl⟩ := exists_power ha
  obtain ⟨j, -, rfl⟩ := exists_power hb
  obtain ⟨k, -, rfl⟩ := exists_power hc
  rw [power_mul_power, power_mul_power, power_mul_power, power_mul_power, Nat.add_assoc]

theorem mul_one' (a : Gf) : a * 1 = a := mul_power a 0

theorem add_mul' (a b c : Gf) : (a + b) * c = a * c + b * c := by
  by_cases hc : c = 0
  · rw [hc, mul_zero', mul_zero', mul_zero', add_zero]
  · obtain ⟨n, -, rfl⟩ := exists_power hc
    rw [mul_power, mul_power, mul_power, iterate_shift_add]

instance : CommRing Gf where
  mul_assoc := mul_assoc'
  one_mul a := (mul_comm' 1 a).trans (mul_one' a)
  mul_one := mul_one'
  left_distrib a b c := by rw [mul_comm' a, add_mul', mul_comm' b, mul_comm' c]
  right_distrib := add_mul'
  zero_mul := zero_mul'
  mul_zero := mul_zero'
  mul_comm := mul_comm'
  zsmul := zsmulRec
  neg_add_cancel := add_self

theorem mul_inv_cancel' (ha : a ≠ 0) : a * (inv a).getD 0 = 1 := by
  obtain ⟨n, hn, rfl⟩ := exists_power ha
  rw [inv, if_neg ha, Option.getD_some, log_power hn, exp_eq_power (by omega), power_mul_power,
    Nat.add_sub_cancel' (by omega), ← power_mod]
  rfl

instance : Field Gf where
  inv a := (inv a).getD 0
  exists_pair_ne := ⟨0, 1, by decide⟩
  mul_inv_cancel a ha := mul_inv_cancel' ha
  inv_zero := rfl
  nnqsmul := _
  nnqsmul_def := fun _ _ => rfl
  qsmul := _
  qsmul_def := fun _ _ => rfl

theorem inv_eq_some (ha : a ≠ 0) : inv a = some a⁻¹ := by
  show inv a = some ((inv a).getD 0)
  simp [inv, ha]

end Gf

end SeamProtocol
