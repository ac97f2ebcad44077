import Mathlib.Algebra.Field.ZMod
import Mathlib.Algebra.Order.Ring.Int
import Mathlib.Data.Int.GCD
import Mathlib.Data.Int.ModEq
import Mathlib.Data.Nat.Size
import Mathlib.RingTheory.Coprime.Lemmas
import Mathlib.Tactic.LinearCombination
import KeyRecovery.Arith

/-!
# Binary digits, powers and inverses

A number is known by its digits up to the place where they are cut off, and a negative one too: its
lowest digits are those of its remainder by the power of two.

`euclid` ends in the greatest common divisor, up to sign (`natAbs_euclid`), and the coefficients
keep step with the remainders: whatever number both are the multiple of modulo `m` at the start,
they are the multiple of at the end (`euclid_modEq`). With a modulus above `1` this makes
`inverse?` answer the one inverse in range, and nothing else (`inverse?_eq_some_iff`).

Two divisions one after the other leave less than half of the first divisor, whatever the signs
(`two_mul_natAbs_fmod_lt`). So there are at most two for each bit of it (`exists_endsAfter`), and
where they end is what `euclid` answers (`EndsAfter.euclid_eq`). A remainder has the sign of its
divisor, so with a negative modulus all are negative or `0`, and none is `1`; modulo `1` all numbers
are `0`. Any other modulus has an inverse for the numbers coprime to it and for no others.
-/

namespace KeyRecovery

/-! ## Binary digits -/

/-- The lowest digit, and behind it those of the half. -/
theorem emod_two_mul (k : Int) {m : Int} (h : 0 < m) : k % (2 * m) = k % 2 + 2 * (k / 2 % m) := by
  have h2 := Int.mul_ediv_add_emod k 2
  have hm := Int.mul_ediv_add_emod (k / 2) m
  have h0 := Int.emod_nonneg (k / 2) h.ne'
  have hlt := Int.emod_lt_of_pos (k / 2) h
  calc k % (2 * m) = (k % 2 + 2 * (k / 2 % m) + 2 * m * (k / 2 / m)) % (2 * m) := by
        congr 1
        rw [Int.mul_assoc]
        omega
    _ = (k % 2 + 2 * (k / 2 % m)) % (2 * m) := Int.add_mul_emod_self_left _ _ _
    _ = k % 2 + 2 * (k / 2 % m) := Int.emod_eq_of_lt (by omega) (by omega)

theorem natCast_ofBitsLE_bitsLE : ∀ (length : Nat) (k : Int),
    (ofBitsLE (bitsLE k length) : Int) = k % 2 ^ length
  | 0, k => by rw [pow_zero, Int.emod_one]; rfl
  | length + 1, k => by
    have ih := natCast_ofBitsLE_bitsLE length (k / 2)
    rw [bitsLE, ofBitsLE, pow_succ, mul_comm _ 2, emod_two_mul k (pow_pos (by decide) length), ← ih,
      Nat.cast_add, Nat.cast_mul, Nat.cast_ofNat]
    congr 1
    by_cases h : k % 2 = 1
    · rw [decide_eq_true h, if_pos rfl, h]
      rfl
    · rw [decide_eq_false h, if_neg (by simp)]
      omega

theorem ofBitsLE_bitsLE (length k : Nat) : ofBitsLE (bitsLE k length) = k % 2 ^ length := by
  exact_mod_cast natCast_ofBitsLE_bitsLE length k

/-- A number is written by its digits. -/
theorem ofBitsLE_binary (k : Nat) : ofBitsLE (binary k) = k := by
  unfold binary
  rw [ofBitsLE_bitsLE]
  split
  · rename_i h
    subst h
    rfl
  · exact Nat.mod_eq_of_lt Nat.lt_log2_self

/-! ## Repeated squaring -/

theorem powBits_eq {m : Nat} : ∀ (bits : List Bool) (base acc : Nat), acc < m →
    powBits m bits base acc = acc * base ^ ofBitsLE bits % m
  | [], base, acc, h => by
    rw [powBits, ofBitsLE, Nat.pow_zero, Nat.mul_one, Nat.mod_eq_of_lt h]
  | b :: bits, base, acc, h => by
    have hsq : (base * base % m) ^ ofBitsLE bits % m = base ^ (2 * ofBitsLE bits) % m := by
      rw [← Nat.pow_mod, ← Nat.pow_two, ← Nat.pow_mul]
    rw [powBits, ofBitsLE, Nat.pow_add, powBits_eq bits]
    · cases b
      · simp only [Bool.false_eq_true, if_false, Nat.pow_zero, Nat.one_mul]
        rw [Nat.mul_mod, hsq, ← Nat.mul_mod]
      · simp only [if_true, Nat.pow_one]
        rw [Nat.mul_mod, Nat.mod_mod, hsq, ← Nat.mul_mod, Nat.mul_assoc]
    · split
      · exact Nat.mod_lt _ (by omega)
      · exact h

theorem powMod_eq (base exponent : Nat) {m : Nat} (h : 0 < m) :
    powMod base exponent m = base ^ exponent % m := by
  unfold powMod
  rw [powBits_eq _ _ _ (Nat.mod_lt _ h), ofBitsLE_binary, Nat.mul_mod, Nat.mod_mod, ← Nat.pow_mod,
    ← Nat.mul_mod, Nat.one_mul]

/-! ## The inverse that is found -/

theorem euclid_zero (a s t : Int) : euclid a 0 s t = (a, s) := by
  rw [euclid, if_pos rfl]

theorem euclid_of_ne_zero {b : Int} (h : b ≠ 0) (a s t : Int) :
    euclid a b s t = euclid b (a.fmod b) t (s - a.fdiv b * t) := by
  rw [euclid, if_neg h]

theorem fmod_eq_sub (a b : Int) : a.fmod b = a - a.fdiv b * b := by
  have := Int.fdiv_mul_add_fmod a b
  omega

theorem gcd_fmod (a b : Int) : Int.gcd (a.fmod b) b = Int.gcd a b := by
  rw [fmod_eq_sub, Int.gcd_sub_mul_right_left]

theorem natAbs_euclid (a b s t : Int) : (euclid a b s t).1.natAbs = Int.gcd a b := by
  induction a, b, s, t using euclid.induct with
  | case1 a s t => rw [euclid_zero, Int.gcd_zero_right]
  | case2 a b s t hb ih => rw [euclid_of_ne_zero hb, ih, Int.gcd_comm, gcd_fmod]

theorem euclid_nonneg {a b : Int} (ha : 0 ≤ a) (hb : 0 ≤ b) (s t : Int) :
    0 ≤ (euclid a b s t).1 := by
  induction a, b, s, t using euclid.induct with
  | case1 a s t => rwa [euclid_zero]
  | case2 a b s t hb0 ih =>
    rw [euclid_of_ne_zero hb0]
    exact ih hb (Int.fmod_nonneg_of_pos a (by omega))

theorem euclid_modEq {m x : Int} (a b s t : Int) (ha : a ≡ s * x [ZMOD m])
    (hb : b ≡ t * x [ZMOD m]) : (euclid a b s t).1 ≡ (euclid a b s t).2 * x [ZMOD m] := by
  induction a, b, s, t using euclid.induct with
  | case1 a s t => rwa [euclid_zero]
  | case2 a b s t hb0 ih =>
    rw [euclid_of_ne_zero hb0]
    refine ih hb ?_
    rw [fmod_eq_sub, Int.sub_mul, Int.mul_assoc]
    exact ha.sub (hb.mul_left _)

/-- What has an inverse is coprime to the modulus. -/
theorem gcd_eq_one_of_emod {a m x : Int} (h : a * x % m = 1) : Int.gcd a m = 1 := by
  refine Int.isCoprime_iff_gcd_eq_one.1 ⟨x, -(a * x / m), ?_⟩
  have := Int.mul_ediv_add_emod (a * x) m
  rw [h] at this
  linear_combination -this

section Modulus

variable {a m : Int} (hm : 1 < m)

include hm

/-- The inverse found is in range, and it is one. -/
theorem inverse?_spec {x : Int} (h : inverse? a m = some x) :
    (0 ≤ x ∧ x < m) ∧ a * x % m = 1 := by
  unfold inverse? at h
  simp only [] at h
  split_ifs at h with h0 h1
  obtain rfl := Option.some.inj h
  have hmod := euclid_modEq (m := m) (x := a) (a.fmod m) m 1 0
    (by rw [one_mul, Int.fmod_eq_emod_of_nonneg _ (by omega)]; exact Int.mod_modEq a m)
    (by rw [zero_mul]; exact Int.emod_self)
  rw [h1] at hmod
  refine ⟨⟨Int.fmod_nonneg_of_pos _ (by omega), Int.fmod_lt_of_pos _ (by omega)⟩, ?_⟩
  rw [Int.fmod_eq_emod_of_nonneg _ (by omega), Int.mul_emod, Int.emod_emod, ← Int.mul_emod,
    Int.mul_comm, ← hmod]
  exact Int.emod_eq_of_lt (by omega) hm

theorem inverse?_isSome (h : Int.gcd a m = 1) : (inverse? a m).isSome := by
  rw [← gcd_fmod] at h
  have h0 : a.fmod m ≠ 0 := by
    intro h0
    rw [h0, Int.gcd_zero_left] at h
    omega
  have h1 : (euclid (a.fmod m) m 1 0).1 = 1 := by
    have hn : 0 ≤ (euclid (a.fmod m) m 1 0).1 :=
      euclid_nonneg (Int.fmod_nonneg_of_pos a (by omega)) (by omega) 1 0
    have hd := natAbs_euclid (a.fmod m) m 1 0
    omega
  unfold inverse?
  simp only []
  rw [if_neg h0, if_pos h1]
  rfl

theorem inverse?_eq_some_iff {x : Int} :
    inverse? a m = some x ↔ (0 ≤ x ∧ x < m) ∧ a * x % m = 1 := by
  refine ⟨inverse?_spec hm, fun ⟨hx, h⟩ => ?_⟩
  have hax : a * x ≡ 1 [ZMOD m] := h.trans (Int.emod_eq_of_lt (by omega) hm).symm
  obtain ⟨y, hy⟩ := Option.isSome_iff_exists.1 (inverse?_isSome hm (gcd_eq_one_of_emod h))
  obtain ⟨hyr, hy1⟩ := inverse?_spec hm hy
  -- Two inverses agree modulo `m`: each is the product of both and `a`.
  have hxy : y ≡ x [ZMOD m] := by
    have hay : a * y ≡ 1 [ZMOD m] := hy1.trans (Int.emod_eq_of_lt (by omega) hm).symm
    calc y = 1 * y := (Int.one_mul y).symm
      _ ≡ a * x * y [ZMOD m] := (hax.symm).mul_right y
      _ = a * y * x := by ring
      _ ≡ 1 * x [ZMOD m] := hay.mul_right x
      _ = x := Int.one_mul x
  rw [hy, ← Int.emod_eq_of_lt hyr.1 hyr.2, hxy, Int.emod_eq_of_lt hx.1 hx.2]

end Modulus

section Prime

variable {a m : Int} [hm : Fact m.toNat.Prime]

theorem one_lt_of_prime_toNat : 1 < m := by
  have := hm.out.one_lt
  omega

/-- Modulo a prime it is the inverse in the field. -/
theorem inverse?_of_prime (ha : (a : ZMod m.toNat) ≠ 0) :
    inverse? a m = some ((a : ZMod m.toNat)⁻¹.val : Int) := by
  have h1 : 1 < m := one_lt_of_prime_toNat
  have hm0 : (m.toNat : Int) = m := Int.toNat_of_nonneg (by omega)
  refine (inverse?_eq_some_iff h1).2 ⟨⟨Int.natCast_nonneg _, ?_⟩, ?_⟩
  · have := ZMod.val_lt (a : ZMod m.toNat)⁻¹
    omega
  · have h : ((a * ((a : ZMod m.toNat)⁻¹.val : Int) : Int) : ZMod m.toNat) = (1 : Int) := by
      push_cast
      rw [ZMod.natCast_zmod_val, mul_inv_cancel₀ ha]
    rw [ZMod.intCast_eq_intCast_iff', hm0] at h
    rw [h, Int.emod_eq_of_lt (by omega) h1]

end Prime

section Divisions

variable {a b m : Int}

/-! ## Signs -/

theorem fmod_nonpos_of_neg (a : Int) (hb : b < 0) : a.fmod b ≤ 0 := by
  have h := Int.fmod_nonneg_of_pos (-a) (b := -b) (by omega)
  rw [Int.neg_fmod_neg] at h
  omega

theorem euclid_nonpos (ha : a ≤ 0) (hb : b ≤ 0) (s t : Int) : (euclid a b s t).1 ≤ 0 := by
  induction a, b, s, t using euclid.induct with
  | case1 a s t => rwa [euclid_zero]
  | case2 a b s t hb0 ih =>
    rw [euclid_of_ne_zero hb0]
    exact ih hb (fmod_nonpos_of_neg a (by omega))

theorem inverse?_of_neg (a : Int) (hm : m < 0) : inverse? a m = none := by
  have hd := euclid_nonpos (fmod_nonpos_of_neg a hm) hm.le 1 0
  unfold inverse?
  split_ifs
  · rfl
  · exact if_neg (by omega)

theorem inverse?_one (a : Int) : inverse? a 1 = none := if_pos (Int.fmod_one a)

/-! ## Halving -/

theorem two_mul_mod_lt {n r : ℕ} (hr : 0 < r) (h : r < n) : 2 * (n % r) < n := by
  have hlt : n % r < r := Nat.mod_lt n hr
  have hle : n % r ≤ n - r := by
    rw [Nat.mod_eq_sub_mod h.le]
    exact Nat.mod_le _ _
  omega

theorem two_mul_natAbs_fmod_lt_of_pos (hb : 0 < b) (hr : a.fmod b ≠ 0) :
    2 * (b.fmod (a.fmod b)).natAbs < b.natAbs := by
  have hlt : a.fmod b < b := Int.fmod_lt_of_pos a hb
  obtain ⟨r, hk⟩ := Int.eq_ofNat_of_zero_le (Int.fmod_nonneg_of_pos a hb)
  obtain ⟨n, rfl⟩ := Int.eq_ofNat_of_zero_le hb.le
  rw [hk] at hlt hr ⊢
  rw [← Int.ofNat_fmod, Int.natAbs_natCast, Int.natAbs_natCast]
  exact two_mul_mod_lt (by omega) (by omega)

theorem two_mul_natAbs_fmod_lt (hb : b ≠ 0) (hr : a.fmod b ≠ 0) :
    2 * (b.fmod (a.fmod b)).natAbs < b.natAbs := by
  rcases Int.lt_or_gt_of_ne hb with h | h
  · have hneg := two_mul_natAbs_fmod_lt_of_pos (a := -a) (b := -b) (by omega)
      (by rwa [Int.neg_fmod_neg, Int.neg_ne_zero])
    rwa [Int.neg_fmod_neg, Int.neg_fmod_neg, Int.natAbs_neg, Int.natAbs_neg] at hneg
  · exact two_mul_natAbs_fmod_lt_of_pos h hr

/-! ## Divisions -/

/-- A number and what divides it next, with the coefficients of `euclid`. -/
structure Division where
  a : Int
  b : Int
  s : Int
  t : Int

namespace Division

variable {σ τ : Division} {n : ℕ}

/-- One division: what the divisor is divided by next is the remainder. -/
def next (σ : Division) : Division :=
  ⟨σ.b, σ.a.fmod σ.b, σ.t, σ.s - σ.a.fdiv σ.b * σ.t⟩

/-- After `n` divisions, none of them by `0`, there is only `0` to divide by. -/
inductive EndsAfter : ℕ → Division → Division → Prop
  | done {σ : Division} (hb : σ.b = 0) : EndsAfter 0 σ σ
  | divide {n : ℕ} {σ τ : Division} (hb : σ.b ≠ 0) (h : EndsAfter n σ.next τ) :
      EndsAfter (n + 1) σ τ

theorem EndsAfter.euclid_eq (h : EndsAfter n σ τ) : euclid σ.a σ.b σ.s σ.t = (τ.a, τ.s) := by
  induction h with
  | @done σ hb => rw [hb, euclid_zero]
  | divide hb _ ih =>
    rw [euclid_of_ne_zero hb]
    exact ih

theorem size_next_next_lt (hb : σ.b ≠ 0) (hr : σ.next.b ≠ 0) :
    σ.next.next.b.natAbs.size < σ.b.natAbs.size := by
  have hhalf : 2 * σ.next.next.b.natAbs < σ.b.natAbs := two_mul_natAbs_fmod_lt hb hr
  have hbit : (Nat.bit true σ.next.next.b.natAbs).size = σ.next.next.b.natAbs.size + 1 :=
    Nat.size_bit (by rw [Nat.bit_val]; simp)
  have hle : Nat.bit true σ.next.next.b.natAbs ≤ σ.b.natAbs := by
    rw [Nat.bit_val]
    exact hhalf
  have := Nat.size_le_size hle
  omega

/-- There are at most two divisions for each bit of the divisor. -/
theorem exists_endsAfter (σ : Division) :
    ∃ n τ, n ≤ 2 * σ.b.natAbs.size ∧ EndsAfter n σ τ := by
  -- Two divisions at a time, as one alone may leave almost all of the divisor.
  by_cases hb : σ.b = 0
  · exact ⟨0, σ, Nat.zero_le _, .done hb⟩
  by_cases hr : σ.next.b = 0
  · have hpos : 0 < σ.b.natAbs.size := Nat.size_pos.2 (Int.natAbs_pos.2 hb)
    exact ⟨1, σ.next, by omega, .divide hb (.done hr)⟩
  have hlt := size_next_next_lt hb hr
  obtain ⟨n, τ, hn, h⟩ := exists_endsAfter σ.next.next
  exact ⟨n + 2, τ, by omega, .divide hb (.divide hr h)⟩
termination_by σ.b.natAbs.size

end Division

open Division (EndsAfter)

/-- What `inverse?` makes of where the divisions end. -/
theorem inverse?_of_endsAfter {n : ℕ} {τ : Division} (h : EndsAfter n ⟨a.fmod m, m, 1, 0⟩ τ) :
    inverse? a m = if a.fmod m ≠ 0 ∧ τ.a = 1 then some (τ.s.fmod m) else none := by
  have he : euclid (a.fmod m) m 1 0 = (τ.a, τ.s) := h.euclid_eq
  unfold inverse?
  rw [he]
  by_cases h0 : a.fmod m = 0
  · rw [if_pos h0, if_neg fun h => h.1 h0]
  · rw [if_neg h0]
    exact if_congr (and_iff_right h0).symm rfl rfl

/-! ## Inverses -/

/-- An inverse in range. -/
def IsInverse (a m x : Int) : Prop := (0 ≤ x ∧ x < m) ∧ a * x % m = 1

theorem one_lt_of_inverse? {x : Int} (hm : m ≠ 0) (h : inverse? a m = some x) : 1 < m := by
  by_contra hle
  rcases Int.lt_or_gt_of_ne hm with hneg | hpos
  · rw [inverse?_of_neg a hneg] at h
    cases h
  · obtain rfl : m = 1 := by omega
    rw [inverse?_one] at h
    cases h

theorem exists_inverse?_iff (hm : m ≠ 0) :
    (∃ x, inverse? a m = some x) ↔ 2 ≤ m ∧ Int.gcd a m = 1 := by
  constructor
  · rintro ⟨x, h⟩
    have h1 := one_lt_of_inverse? hm h
    exact ⟨h1, gcd_eq_one_of_emod (inverse?_spec h1 h).2⟩
  · rintro ⟨h2, hg⟩
    exact Option.isSome_iff_exists.1 (inverse?_isSome h2 hg)

/-- With a modulus other than `0` the divisions end, however large the number. The answer is an
inverse exactly if the modulus is above `1` and coprime to the number, and then the only one in
range. -/
theorem tryInverse_iff_coprime (a : Int) (hm : m ≠ 0) :
    (∃ n τ, n ≤ 2 * m.natAbs.size ∧ EndsAfter n ⟨a.fmod m, m, 1, 0⟩ τ
      ∧ tryInverse a m = .ok (if a.fmod m ≠ 0 ∧ τ.a = 1 then some (τ.s.fmod m) else none))
    ∧ ((∃ x, tryInverse a m = .ok (some x)) ↔ 2 ≤ m ∧ Int.gcd a m = 1)
    ∧ (∀ x, tryInverse a m = .ok (some x) → IsInverse a m x ∧ ∀ y, IsInverse a m y → y = x)
    ∧ (m = 1 ∨ m < 0 → tryInverse a m = .ok none) := by
  simp only [tryInverse_of_ne_zero hm, Except.ok.injEq]
  refine ⟨?_, exists_inverse?_iff hm, fun x h => ?_, ?_⟩
  · obtain ⟨n, τ, hn, h⟩ := Division.exists_endsAfter ⟨a.fmod m, m, 1, 0⟩
    exact ⟨n, τ, hn, h, inverse?_of_endsAfter h⟩
  · have h1 := one_lt_of_inverse? hm h
    refine ⟨inverse?_spec h1 h, fun y hy => ?_⟩
    rw [(inverse?_eq_some_iff h1).2 hy, Option.some.injEq] at h
    exact h
  · rintro (rfl | hneg)
    · exact inverse?_one a
    · exact inverse?_of_neg a hneg

/-- Modulo `12` the number `-7` has an inverse and `-8` has none; modulo `-12` there is none. -/
theorem tryInverse_iff_coprime_twelve :
    ((12 : Int) ≠ 0 ∧ (-12 : Int) ≠ 0)
    ∧ (tryInverse (-7) 12 = .ok (some 5) ∧ ∀ y, IsInverse (-7) 12 y → y = 5)
    ∧ (¬ ∃ x, tryInverse (-8) 12 = .ok (some x))
    ∧ tryInverse (-7) (-12) = .ok none
    ∧ ∃ n τ, n ≤ 8 ∧ EndsAfter n ⟨-7, -12, 1, 0⟩ τ := by
  have h12 : (12 : Int) ≠ 0 := by decide
  have hneg : (-12 : Int) ≠ 0 := by decide
  have h5 : tryInverse (-7) 12 = .ok (some 5) := by decide +kernel
  obtain ⟨-, -, honly, -⟩ := tryInverse_iff_coprime (-7) h12
  obtain ⟨-, hiff, -, -⟩ := tryInverse_iff_coprime (-8) h12
  obtain ⟨⟨n, τ, hn, hends, -⟩, -, -, hnone⟩ := tryInverse_iff_coprime (-7) hneg
  refine ⟨⟨h12, hneg⟩, ⟨h5, (honly 5 h5).2⟩, ?_, hnone (.inr (by decide)), n, τ, hn, hends⟩
  rw [hiff]
  decide

end Divisions

end KeyRecovery
