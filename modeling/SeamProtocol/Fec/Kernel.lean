import Mathlib.RingTheory.AdjoinRoot
import SeamProtocol.Fec.Codec

/-! # The kernel of the code

`mul_add_slice` as it is written, with eight bytes in a turn of its loop, and the arithmetic of bytes as
that of polynomials. -/

namespace SeamProtocol

open Lib List Polynomial

/-! ## Polynomials -/

namespace Gf

/-- The polynomial that the bits of a byte spell. -/
noncomputable def poly (a : Gf) : (ZMod 2)[X] :=
  ∑ i ∈ Finset.range 8, if a.toNat.testBit i then X ^ i else 0

noncomputable def modulus : (ZMod 2)[X] := X ^ 8 + X ^ 4 + X ^ 3 + X ^ 2 + 1

theorem ite_xor (p q : Bool) (t : (ZMod 2)[X]) :
    (if p ^^ q then t else 0) = (if p then t else 0) + if q then t else 0 := by
  cases p <;> cases q <;> simp [CharTwo.add_self_eq_zero]

theorem poly_add (a b : Gf) : poly (a + b) = poly a + poly b := by
  unfold poly
  rw [← Finset.sum_add_distrib]
  refine Finset.sum_congr rfl fun i _ => ?_
  rw [← ite_xor, ← Nat.testBit_xor]
  rfl

theorem poly_shift (a : Gf) :
    poly (shift a) = X * poly a + if a.toNat.testBit 7 then modulus else 0 := by
  -- every bit moves up, and the top one is folded back
  have hbits : ∀ a : Gf, (range 8).map (shift a).toNat.testBit = [a.toNat.testBit 7,
      a.toNat.testBit 0, a.toNat.testBit 1 ^^ a.toNat.testBit 7, a.toNat.testBit 2 ^^ a.toNat.testBit 7,
      a.toNat.testBit 3 ^^ a.toNat.testBit 7, a.toNat.testBit 4, a.toNat.testBit 5, a.toNat.testBit 6] :=
    forall_of_ofNat (by decide +kernel)
  have hbits := hbits a
  simp only [range_succ, range_zero, nil_append, cons_append, map_cons, map_nil,
    cons.injEq, and_true] at hbits
  obtain ⟨h0, h1, h2, h3, h4, h5, h6, h7⟩ := hbits
  unfold poly modulus
  simp only [Finset.sum_range_succ, Finset.sum_range_zero, h0, h1, h2, h3, h4, h5, h6, h7, ite_xor,
    mul_add, mul_ite, mul_zero, ← pow_succ', Nat.reduceAdd]
  by_cases hcarry : a.toNat.testBit 7 = true
  · simp only [hcarry, if_true]
    linear_combination (-X ^ 8) * (CharTwo.two_eq_zero : (2 : (ZMod 2)[X]) = 0)
  · simp only [hcarry, Bool.false_eq_true, if_false]
    ring

open AdjoinRoot

theorem mk_poly_power (n : Nat) :
    mk modulus (poly (power n)) = root modulus ^ n := by
  induction n with
  | zero =>
    have hone : poly (power 0) = 1 := by
      simp [poly, power, show (1 : Gf).toNat = 1 from rfl, Nat.testBit_one_eq_true_iff_self_eq_zero]
    rw [hone, map_one, pow_zero]
  | succ n ih =>
    have hcarry : ∀ p : Bool, mk modulus (if p then modulus else 0) = 0 := by
      intro p
      cases p <;> simp
    rw [power_succ, poly_shift, map_add, hcarry, add_zero, map_mul, ih, mk_X, pow_succ']

noncomputable def toQuotient : Gf →+* AdjoinRoot modulus where
  toFun a := AdjoinRoot.mk modulus (poly a)
  map_zero' := by simp [poly, show (0 : Gf).toNat = 0 from rfl]
  map_one' := mk_poly_power 0
  map_add' a b := by rw [poly_add, map_add]
  map_mul' a b := by
    have hzero : poly 0 = 0 := by simp [poly, show (0 : Gf).toNat = 0 from rfl]
    by_cases ha : a = 0
    · rw [ha, zero_mul, hzero, map_zero, zero_mul]
    by_cases hb : b = 0
    · rw [hb, mul_zero, hzero, map_zero, mul_zero]
    obtain ⟨m, -, rfl⟩ := exists_power ha
    obtain ⟨n, -, rfl⟩ := exists_power hb
    rw [power_mul_power, mk_poly_power, mk_poly_power, mk_poly_power, pow_add]

theorem toQuotient_bijective : Function.Bijective toQuotient := by
  have hdegree : modulus.degree ≠ 0 := by
    have : modulus.degree = 8 := by
      unfold modulus
      compute_degree!
    rw [this]
    decide
  have := AdjoinRoot.nontrivial modulus hdegree
  refine ⟨toQuotient.injective, fun x => ?_⟩
  obtain ⟨p, rfl⟩ := AdjoinRoot.mk_surjective x
  induction p using Polynomial.induction_on' with
  | add p q hp hq =>
    obtain ⟨a, ha⟩ := hp
    obtain ⟨b, hb⟩ := hq
    exact ⟨a + b, by rw [map_add, ha, hb, map_add]⟩
  | monomial n c =>
    -- a power of the root is a byte
    by_cases hc : c = 0
    · exact ⟨0, by rw [hc, map_zero, monomial_zero_right, map_zero]⟩
    · have hone : ∀ c : ZMod 2, c ≠ 0 → c = 1 := by decide
      rw [hone c hc, monomial_one_right_eq_X_pow, map_pow, AdjoinRoot.mk_X]
      exact ⟨power n, mk_poly_power n⟩

end Gf

/-! ## Slices -/

namespace Kernel

/-- `dst[i] ^= f(src[i])`; an index beyond either slice panics. -/
def xorAt (f : Gf → Gf) (src dst : Symbol) (i : Nat) : Option Symbol :=
  dst[i]?.bind fun d => src[i]?.map fun s => dst.set i (Gf.add d (f s))

def xorChunk (f : Gf → Gf) (src dst : Symbol) (i : Nat) : Option Symbol :=
  let b := i * 8
  [b, b + 1, b + 2, b + 3, b + 4, b + 5, b + 6, b + 7].foldlM (xorAt f src) dst

def xorSlice (f : Gf → Gf) (src dst : Symbol) : Option Symbol :=
  let chunks := dst.length / 8
  let rest := dst.length % 8
  ((List.range chunks).foldlM (xorChunk f src) dst).bind fun dst =>
    let base := chunks * 8
    (List.range rest).foldlM (fun dst i => xorAt f src dst (base + i)) dst

def mulAddSlice (dst src : Symbol) (scalar : Gf) : Option Symbol :=
  if dst.length ≠ src.length then none
  else if scalar = 0 then some dst
  else if scalar = 1 then xorSlice id src dst
  else
    let logS := Gf.log scalar
    xorSlice (fun s => if s ≠ 0 then Gf.exp (logS + Gf.log s) else 0) src dst

variable {f : Gf → Gf} {src dst : Symbol}

theorem foldlM_xorChunk (chunks : Nat) :
    (range chunks).foldlM (xorChunk f src) dst
      = (range (chunks * 8)).foldlM (xorAt f src) dst := by
  induction chunks with
  | zero => rfl
  | succ chunks ih =>
    rw [range_succ, foldlM_append, ih, Nat.succ_mul, range_add, foldlM_append]
    simp only [foldlM_cons, foldlM_nil, bind_pure]
    rfl

theorem xorAt_append {s : Gf} (done rest : Symbol) (d : Gf) (hs : src[done.length]? = some s) :
    xorAt f src (done ++ d :: rest) done.length = some (done ++ (d + f s) :: rest) := by
  simp only [xorAt, getElem?_append_right le_rfl, Nat.sub_self, hs]
  simp
  rfl

theorem foldlM_xorAt (hlen : dst.length = src.length) (n : Nat) (hn : n ≤ dst.length) :
    (range n).foldlM (xorAt f src) dst
      = some (zipWith (fun d s => d + f s) (dst.take n) (src.take n) ++ dst.drop n) := by
  induction n with
  | zero => simp
  | succ n ih =>
    have hsrc : n < src.length := hlen ▸ hn
    have hdone : (zipWith (fun d s => d + f s) (dst.take n) (src.take n)).length = n := by
      simp [(Nat.lt_of_succ_le hn).le, hsrc.le]
    have hnext := @xorAt_append f src src[n]
      (zipWith (fun d s => d + f s) (dst.take n) (src.take n)) (dst.drop (n + 1)) dst[n]
      (by rw [hdone, getElem?_eq_getElem hsrc])
    rw [range_succ, foldlM_append, ih (Nat.lt_of_succ_le hn).le, drop_eq_getElem_cons hn,
      take_succ_eq_append_getElem hn, take_succ_eq_append_getElem hsrc,
      zipWith_append (by simp [(Nat.lt_of_succ_le hn).le, hsrc.le]), append_assoc]
    rw [hdone] at hnext
    simp only [Option.bind_eq_bind, Option.bind_some, foldlM_cons, foldlM_nil, hnext]
    rfl

theorem xorSlice_eq (hlen : dst.length = src.length) :
    xorSlice f src dst = some (zipWith (fun d s => d + f s) dst src) := by
  have hall : xorSlice f src dst = (range dst.length).foldlM (xorAt f src) dst := by
    unfold xorSlice
    dsimp only
    nth_rewrite 4 [← Nat.div_add_mod' dst.length 8]
    rw [foldlM_xorChunk, range_add, foldlM_append]
    simp only [foldlM_map]
    rfl
  rw [hall, foldlM_xorAt hlen _ le_rfl, take_length, drop_length, append_nil, hlen, take_length]

theorem mulAddSlice_eq_spec (dst src : Symbol) (scalar : Gf) :
    mulAddSlice dst src scalar = SeamProtocol.mulAddSlice dst src scalar := by
  unfold mulAddSlice SeamProtocol.mulAddSlice
  by_cases hlen : dst.length = src.length
  · simp only [xorSlice_eq hlen, ne_eq, ite_not]
    rfl
  · rw [if_pos hlen, if_pos hlen]

/-- **The unrolled kernel computes what it says**: bytes with XOR and `mul` are the polynomials over the
field with two elements modulo `x⁸ + x⁴ + x³ + x² + 1`, which are a field, and `mul_add_slice` leaves
`dst[i] ^ mul(s, src[i])` at every index. -/
theorem kernel_eq_specification :
    (∀ (dst src : Symbol) (s : Gf), dst.length = src.length → ∃ out, mulAddSlice dst src s = some out ∧
      out.length = dst.length ∧ ∀ i (hd : i < dst.length) (hs : i < src.length),
        out[i]? = some (Gf.add dst[i] (Gf.mul s src[i]))) ∧
    IsField Gf ∧ ∃ φ : Gf ≃ AdjoinRoot (X ^ 8 + X ^ 4 + X ^ 3 + X ^ 2 + 1 : (ZMod 2)[X]),
      (∀ a, φ a = AdjoinRoot.mk _ (∑ i ∈ Finset.range 8, if a.toNat.testBit i then X ^ i else 0)) ∧
      (∀ a b, φ (a.toByte ^^^ b.toByte) = φ a + φ b) ∧ ∀ a b, φ (Gf.mul a b) = φ a * φ b := by
  refine ⟨fun dst src s hlen => ?_, Field.toIsField Gf, .ofBijective Gf.toQuotient Gf.toQuotient_bijective,
    fun _ => rfl, Gf.toQuotient.map_add, Gf.toQuotient.map_mul⟩
  refine ⟨_, (mulAddSlice_eq_spec dst src s).trans ((mulAddSlice_eq dst src s).trans
    (if_neg (not_not.mpr hlen))), by simp [hlen], fun i hd hs => ?_⟩
  simp [hd, hs]
  rfl

end Kernel

end SeamProtocol
