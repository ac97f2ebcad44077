import Mathlib.Algebra.Module.ZMod
import Mathlib.Data.List.Prime
import Mathlib.GroupTheory.Perm.Cycle.Type
import Mathlib.NumberTheory.LucasPrimality
import Mathlib.Tactic.Module
import Mathlib.Tactic.NormNum.Prime
import KeyRecovery.Ecdsa
import KeyRecovery.Proofs.Curve.Multiple

/-!
# The moduli are prime, and the group has as many elements as the order of the generator

A number `p` is prime if some `a` has order `p - 1` modulo `p`, and that is read off the powers of
`a` with the exponents `p - 1` and `(p - 1) / q`, for the prime factors `q` of `p - 1`. A table of
numbers is prime row by row if each row passes the test with factors from the rows before it. The
factors of `p - 1` and of `n - 1` are in such a table, with those under two million found prime by
trial.

The generator has order `n`, so `n` divides the number of elements. A point is known by its `x` and
the parity of its `y` (`eq_of_x_of_parity`), which leaves room for at most `2 p + 1` elements and so
for `n` or `2 n`. And there is no element of order two, since `-7` is not a cube modulo `p`. Hence
`n` times any element is the identity, a multiple of the generator or not (`nsmul_order`), so the
group is a vector space over the residues modulo the order, and a number multiplies as its residue
does.
-/

namespace KeyRecovery

open Curve

/-! ## Lucas's test -/

/-- A number with a generator of its residues and the factors of its predecessor, each as often as
it divides. -/
structure LucasRow where
  p : ℕ
  generator : ℕ
  factors : List ℕ

namespace LucasRow

def Passes (row : LucasRow) : Prop :=
  row.factors.prod + 1 = row.p ∧ 1 < row.p ∧ powMod row.generator (row.p - 1) row.p = 1
    ∧ ∀ q ∈ row.factors, powMod row.generator ((row.p - 1) / q) row.p ≠ 1

instance (row : LucasRow) : Decidable row.Passes := inferInstanceAs (Decidable (_ ∧ _ ∧ _ ∧ _))

/-- Every row passes with factors from `known` or from the rows before it. -/
def Table : List ℕ → List LucasRow → Prop
  | _, [] => True
  | known, row :: rows =>
    (row.Passes ∧ ∀ q ∈ row.factors, q ∈ known) ∧ Table (row.p :: known) rows

instance decidableTable : ∀ known rows, Decidable (Table known rows)
  | _, [] => inferInstanceAs (Decidable True)
  | known, row :: rows =>
    have := decidableTable (row.p :: known) rows
    inferInstanceAs (Decidable (_ ∧ Table (row.p :: known) rows))

theorem natCast_pow_eq_one_iff {p : ℕ} (hp : 1 < p) (a k : ℕ) :
    (a : ZMod p) ^ k = 1 ↔ powMod a k p = 1 := by
  rw [powMod_eq a k (by omega), ← Nat.cast_pow, ← Nat.cast_one, ZMod.natCast_eq_natCast_iff',
    Nat.mod_eq_of_lt hp]

theorem Passes.prime {row : LucasRow} (h : row.Passes) (hq : ∀ q ∈ row.factors, q.Prime) :
    row.p.Prime := by
  obtain ⟨hprod, hp, hfull, hpart⟩ := h
  refine lucas_primality row.p (row.generator : ZMod row.p) ?_ fun q hprime hdvd => ?_
  · exact (natCast_pow_eq_one_iff hp _ _).2 hfull
  · rw [Ne, natCast_pow_eq_one_iff hp]
    refine hpart q ?_
    rw [← hprod, Nat.add_sub_cancel] at hdvd
    obtain ⟨f, hf, hqf⟩ := (Prime.dvd_prod_iff hprime.prime).1 hdvd
    rwa [(Nat.prime_dvd_prime_iff_eq hprime (hq f hf)).1 hqf]

theorem Table.prime : ∀ {known : List ℕ} {rows : List LucasRow}, (∀ q ∈ known, q.Prime) →
    Table known rows → ∀ row ∈ rows, row.p.Prime
  | known, [], _, _, row, h => by simp at h
  | known, r :: rows, hk, ht, row, h => by
    have hr : r.p.Prime := ht.1.1.prime fun q hq => hk q (ht.1.2 q hq)
    rcases List.mem_cons.1 h with rfl | h
    · exact hr
    · refine Table.prime (fun q hq => ?_) ht.2 row h
      rcases List.mem_cons.1 hq with rfl | hq
      · exact hr
      · exact hk q hq

end LucasRow

/-! ## The moduli -/

namespace Secp256k1

def smallPrimes : List ℕ :=
  [2, 3, 5, 7, 11, 17, 29, 31, 41, 53, 59, 97, 109, 149, 293, 461, 631, 797, 971, 1373, 1627, 2011,
    2621, 2657, 4051, 4423, 5323, 7723, 9349, 13441, 16699, 24809, 28181, 41201, 85831, 96557,
    120233, 305873, 1206781, 1627771]

def primeTable : List LucasRow :=
  [⟨13331831, 13, [2, 5, 971, 1373]⟩,
    ⟨173378833005251801, 6, [2, 2, 2, 5, 5, 2621, 24809, 13331831]⟩,
    ⟨22149492674086928081353, 5, [2, 2, 2, 3, 5323, 173378833005251801]⟩,
    ⟨132896956044521568488119, 6, [2, 3, 22149492674086928081353]⟩,
    ⟨7240687, 3, [2, 3, 1206781]⟩,
    ⟨107590001, 3, [2, 2, 2, 2, 5, 5, 5, 5, 7, 29, 53]⟩,
    ⟨255515944373312847190720520512484175977, 3,
      [2, 2, 2, 7, 7, 11, 1627, 2657, 4423, 41201, 96557, 7240687, 107590001]⟩,
    ⟨205115282021455665897114700593932402728804164701536103180137503955397371, 10,
      [2, 3, 5, 29, 29, 31, 7723, 132896956044521568488119,
        255515944373312847190720520512484175977]⟩,
    ⟨curve.p.toNat, 3,
      [2, 3, 7, 13441, 205115282021455665897114700593932402728804164701536103180137503955397371]⟩,
    ⟨4681609, 23, [2, 2, 2, 3, 97, 2011]⟩,
    ⟨107361793816595537, 3, [2, 2, 2, 2, 16699, 85831, 4681609]⟩,
    ⟨44706919, 6, [2, 3, 797, 9349]⟩,
    ⟨174723607534414371449, 3, [2, 2, 2, 17, 59, 4051, 120233, 44706919]⟩,
    ⟨545358713, 5, [2, 2, 2, 41, 59, 28181]⟩,
    ⟨297159362677, 2, [2, 2, 3, 3, 11, 461, 1627771]⟩,
    ⟨29047611873442575647497758179, 2, [2, 293, 305873, 545358713, 297159362677]⟩,
    ⟨341948486974166000522343609283189, 2, [2, 2, 3, 3, 3, 109, 29047611873442575647497758179]⟩,
    ⟨curve.n.toNat, 7,
      [2, 2, 2, 2, 2, 2, 3, 149, 631, 107361793816595537, 174723607534414371449,
        341948486974166000522343609283189]⟩]

theorem prime_of_mem_smallPrimes : ∀ q ∈ smallPrimes, q.Prime := by
  simp only [smallPrimes, List.forall_mem_cons]
  norm_num

theorem table_primeTable : LucasRow.Table smallPrimes primeTable := by decide +kernel

theorem prime_of_mem_primeTable {p : ℕ} (h : p ∈ primeTable.map LucasRow.p) : p.Prime := by
  obtain ⟨row, hrow, rfl⟩ := List.mem_map.1 h
  exact table_primeTable.prime prime_of_mem_smallPrimes row hrow

theorem prime_p : curve.p.toNat.Prime := prime_of_mem_primeTable (by simp [primeTable])

theorem prime_n : curve.n.toNat.Prime := prime_of_mem_primeTable (by simp [primeTable])

instance : curve.IsElliptic where
  prime := prime_p
  three_lt := by decide
  discriminant := by decide

instance : Fact curve.n.toNat.Prime := ⟨prime_n⟩

end Secp256k1

/-! ## The order of the group -/

namespace Curve

variable {C : Curve} [hC : C.IsElliptic]

theorem odd_p : C.p % 2 = 1 := by
  have h3 := hC.three_lt
  have := hC.prime.eq_two_or_odd
  omega

/-- Opposite residues have numbers of different parity, but for `0`. -/
theorem val_neg_mod_two {y : C.BaseField} (hy : y ≠ 0) : (-y).val % 2 ≠ y.val % 2 := by
  have hp := odd_p (C := C)
  have hlt := y.val_lt
  rw [ZMod.neg_val, if_neg hy]
  omega

/-- What a compressed key keeps of a point. -/
def compressed : C.PointGroup → Option (C.BaseField × Bool)
  | .zero => none
  | .some x y _ => some (x, decide (y.val % 2 = 1))

theorem compressed_injective : Function.Injective (compressed (C := C)) := by
  rintro (_ | ⟨x, y, hn⟩) (_ | ⟨x', y', hn'⟩) h
  · rfl
  · simp [compressed] at h
  · simp [compressed] at h
  · simp only [compressed, Option.some.injEq, Prod.mk.injEq, decide_eq_decide] at h
    obtain ⟨rfl, hy⟩ := h
    rw [WeierstrassCurve.Affine.Point.some.injEq]
    refine ⟨rfl, ?_⟩
    rcases WeierstrassCurve.Affine.Y_eq_of_X_eq hn.1 hn'.1 rfl with h | h
    · exact h
    · rw [negY_eq] at h
      by_cases h0 : y' = 0
      · rw [h, h0, neg_zero]
      · have := val_neg_mod_two h0
        rw [h] at hy
        omega

theorem eq_of_x_of_parity {W W' : Affine} (h : C.IsSolution W) (h' : C.IsSolution W')
    (hx : W.x = W'.x) (hy : W.y % 2 = W'.y % 2) : W = W' := by
  refine toGroup_injOn h h' (compressed_injective ?_)
  have hW := val_intCast_of_mem h.2.1
  have hW' := val_intCast_of_mem h'.2.1
  rw [h.toGroup_eq, h'.toGroup_eq]
  simp only [compressed, hx, Option.some.injEq, Prod.mk.injEq, true_and, decide_eq_decide]
  omega

omit hC in
theorem coordinates_neg_x (g : C.PointGroup) : (C.coordinates (-g)).x = (C.coordinates g).x := by
  rcases g with _ | ⟨x, y, hn⟩
  · rfl
  · rw [WeierstrassCurve.Affine.Point.neg_some, coordinates, coordinates]

instance : Finite C.PointGroup := Finite.of_injective _ compressed_injective

theorem natCard_pointGroup_le : Nat.card C.PointGroup ≤ 2 * C.p.toNat + 1 := by
  have h := Nat.card_le_card_of_injective _ (compressed_injective (C := C))
  rw [Nat.card_eq_fintype_card (α := Option _), Fintype.card_option, Fintype.card_prod, ZMod.card,
    Fintype.card_bool] at h
  omega

end Curve

namespace Secp256k1

/-- The generator as an element of the group. -/
noncomputable def base : curve.PointGroup := curve.toGroup curve.generator

theorem isSolution_base : curve.IsSolution ⟨curve.gx, curve.gy⟩ := by decide +kernel

theorem standsFor_base : StandsFor curve.generator base :=
  isSolution_base.standsFor_toGroup

theorem coordinates_base : curve.coordinates base = ⟨curve.gx, curve.gy⟩ := by
  have h := coordinates_toGroup isSolution_base
  rwa [Point.ofAffine] at h

theorem base_ne_zero : base ≠ 0 := isSolution_base.toGroup_ne_zero

theorem nsmul_order_base : curve.n.toNat • base = 0 :=
  (standsFor_base.mul curve.n).z_eq_zero_iff.1 (by decide +kernel)

/-- No cube is `-7`: its power with exponent `(p - 1) / 3` is not `1`. -/
theorem cube_ne (x : curve.BaseField) : x ^ 3 + 7 ≠ 0 := by
  intro h
  have h7 : ((curve.p.toNat - 7 : ℕ) : curve.BaseField) = x ^ 3 := by
    rw [Nat.cast_sub (by decide), ZMod.natCast_self]
    push_cast
    linear_combination -h
  have hx : x ≠ 0 := by
    rintro rfl
    have h0 : (7 : Int) = 0 := by
      refine eq_of_intCast_eq (C := curve) (by decide) (by decide) ?_
      push_cast
      linear_combination h
    omega
  have hpow : ((curve.p.toNat - 7 : ℕ) : curve.BaseField) ^ ((curve.p.toNat - 1) / 3) = 1 := by
    rw [h7, ← pow_mul, Nat.mul_div_cancel' (by decide), ZMod.pow_card_sub_one_eq_one hx]
  rw [LucasRow.natCast_pow_eq_one_iff (by decide)] at hpow
  exact absurd hpow (by decide +kernel)

/-- A point of order two has a vertical tangent, at `y = 0`. -/
theorem eq_zero_of_add_self {g : curve.PointGroup} (hg : g + g = 0) : g = 0 := by
  rcases g with _ | ⟨x, y, hn⟩
  · rfl
  exfalso
  have hy : y = 0 := by
    rw [add_eq_zero_iff_eq_neg, WeierstrassCurve.Affine.Point.neg_some,
      WeierstrassCurve.Affine.Point.some.injEq, negY_eq] at hg
    have h2 : 2 * y = 0 := by linear_combination hg.2
    exact (mul_eq_zero.1 h2).resolve_left two_ne_zero_residue
  rw [nonsingular_iff, hy] at hn
  refine cube_ne x ?_
  have ha : (curve.a : curve.BaseField) = 0 := Int.cast_zero
  have hb : (curve.b : curve.BaseField) = 7 := Int.cast_ofNat 7
  rw [ha, hb] at hn
  linear_combination -hn

theorem coordinates_neg_y {g : curve.PointGroup} (hg : g ≠ 0) :
    (curve.coordinates (-g)).y % 2 ≠ (curve.coordinates g).y % 2 := by
  rcases g with _ | ⟨x, y, hn⟩
  · exact absurd rfl hg
  have hy : y ≠ 0 := by
    rintro rfl
    refine hg (eq_zero_of_add_self ?_)
    rw [add_eq_zero_iff_eq_neg, WeierstrassCurve.Affine.Point.neg_some,
      WeierstrassCurve.Affine.Point.some.injEq, negY_eq, neg_zero]
    exact ⟨rfl, rfl⟩
  have := val_neg_mod_two hy
  rw [WeierstrassCurve.Affine.Point.neg_some, coordinates, coordinates, negY_eq]
  show ((-y).val : Int) % 2 ≠ (y.val : Int) % 2
  omega

theorem odd_natCard : ¬ 2 ∣ Nat.card curve.PointGroup := by
  intro h
  have := Fintype.ofFinite curve.PointGroup
  rw [Nat.card_eq_fintype_card] at h
  obtain ⟨g, hg⟩ := exists_prime_addOrderOf_dvd_card 2 h
  have h2 : g + g = 0 := by
    rw [← two_nsmul, ← hg]
    exact addOrderOf_nsmul_eq_zero g
  rw [eq_zero_of_add_self h2, addOrderOf_zero] at hg
  omega

/-- The generator reaches every element. -/
theorem natCard_pointGroup : Nat.card curve.PointGroup = curve.n.toNat := by
  have hg : addOrderOf base = curve.n.toNat :=
    addOrderOf_eq_prime nsmul_order_base base_ne_zero
  obtain ⟨k, hk⟩ := addOrderOf_dvd_natCard base
  rw [hg] at hk
  have hle := natCard_pointGroup_le (C := curve)
  have hodd := odd_natCard
  have hpos : 0 < Nat.card curve.PointGroup := Nat.card_pos
  have hk0 : k ≠ 0 := by
    rintro rfl
    omega
  have hk3 : k < 3 := by
    by_contra h3
    have := Nat.mul_le_mul_left curve.n.toNat (Nat.not_lt.1 h3)
    have hbound : 2 * curve.p.toNat + 1 < curve.n.toNat * 3 := by decide
    omega
  have hk2 : k ≠ 2 := by
    rintro rfl
    exact hodd ⟨_, by rw [hk, mul_comm]⟩
  obtain rfl : k = 1 := by omega
  rw [hk, Nat.mul_one]

theorem nsmul_order (g : curve.PointGroup) : curve.n.toNat • g = 0 := by
  rw [← natCard_pointGroup]
  exact card_nsmul_eq_zero'

/-! ## Scalars are residues -/

/-- The residues that scalars are taken in. -/
abbrev ScalarField : Type := ZMod curve.n.toNat

/-- A residue multiplies as any of its numbers does. -/
noncomputable instance : Module ScalarField curve.PointGroup := AddCommGroup.zmodModule nsmul_order

theorem val_nsmul (a : ScalarField) (g : curve.PointGroup) : a.val • g = a • g := by
  rw [← Nat.cast_smul_eq_nsmul ScalarField, ZMod.natCast_zmod_val]

theorem natCast_toNat_n : (curve.n.toNat : Int) = curve.n := by decide

theorem toNat_nsmul {v : Int} (h : 0 ≤ v) (g : curve.PointGroup) :
    v.toNat • g = (v : ScalarField) • g := by
  rw [← Nat.cast_smul_eq_nsmul ScalarField, ← Int.cast_natCast, Int.toNat_of_nonneg h]

theorem intCast_fmod_n (v : Int) : ((v.fmod curve.n : Int) : ScalarField) = v := by
  rw [Int.fmod_eq_emod_of_nonneg v (by decide)]
  exact ZMod.intCast_mod v curve.n.toNat

theorem intCast_eq_iff {u v : Int} : (u : ScalarField) = v ↔ u % curve.n = v % curve.n := by
  rw [ZMod.intCast_eq_intCast_iff', natCast_toNat_n]

theorem intCast_n : (curve.n : ScalarField) = 0 := (intCast_eq_iff (v := 0)).2 (by decide)

theorem mul_emod_eq_one_iff {t s : Int} :
    t * s % curve.n = 1 ↔ (t : ScalarField) * s = 1 := by
  have h := intCast_eq_iff (u := t * s) (v := 1)
  rw [Int.emod_eq_of_lt (a := 1) (by decide) (by decide)] at h
  rw [← h]
  push_cast
  rfl

theorem fmod_n_mem (v : Int) : 0 ≤ v.fmod curve.n ∧ v.fmod curve.n < curve.n :=
  ⟨Int.fmod_nonneg_of_pos v (by decide), Int.fmod_lt_of_pos v (by decide)⟩

/-- The digits that are taken of a reduced number are all of it. -/
theorem ofBitsLE_fmod_nsmul (v : Int) (g : curve.PointGroup) :
    ofBitsLE (bitsLE (v.fmod curve.n) Ecdsa.scalarBits) • g = (v : ScalarField) • g := by
  obtain ⟨h0, hn⟩ := fmod_n_mem v
  rw [← intCast_fmod_n v]
  generalize v.fmod curve.n = u at h0 hn ⊢
  obtain ⟨k, rfl⟩ := Int.eq_ofNat_of_zero_le h0
  have hk : k < 2 ^ Ecdsa.scalarBits := by
    have : curve.n < (2 ^ Ecdsa.scalarBits : ℕ) := by decide
    omega
  rw [ofBitsLE_bitsLE, Nat.mod_eq_of_lt hk, Int.cast_natCast, Nat.cast_smul_eq_nsmul]

/-- The sum of the two multiples is a multiple of one sum, the reductions notwithstanding. -/
theorem ofBitsLE_fmod_products (z r t : Int) (g h : curve.PointGroup) :
    ofBitsLE (bitsLE ((z * t).fmod curve.n) Ecdsa.scalarBits) • g
        + ofBitsLE (bitsLE ((r * t).fmod curve.n) Ecdsa.scalarBits) • h
      = (t : ScalarField) • ((z : ScalarField) • g + (r : ScalarField) • h) := by
  rw [ofBitsLE_fmod_nsmul, ofBitsLE_fmod_nsmul, Int.cast_mul, Int.cast_mul]
  module

end Secp256k1

namespace Ecdsa

open Secp256k1 (curve ScalarField)

theorem InRange.ne_zero {v : Int} (h : InRange v) : (v : ScalarField) ≠ 0 := by
  obtain ⟨h0, hn⟩ := h
  intro hv
  rw [← Int.cast_zero, Secp256k1.intCast_eq_iff, Int.emod_eq_of_lt h0.le hn] at hv
  simp only [Int.zero_emod] at hv
  omega

theorem InRange.emod {v : Int} (h : InRange v) : v % curve.n = v := Int.emod_eq_of_lt h.1.le h.2

/-- Scalars in range are told apart by their residues. -/
theorem InRange.eq_of_intCast_eq {u v : Int} (hu : InRange u) (hv : InRange v)
    (h : (u : ScalarField) = v) : u = v := by
  rw [← hu.emod, ← hv.emod]
  exact Secp256k1.intCast_eq_iff.1 h

theorem InRange.opposite {v : Int} (h : InRange v) : InRange (curve.n - v) := by
  obtain ⟨h0, hn⟩ := h
  refine ⟨by omega, by omega⟩

theorem InRange.fits {v : Int} (h : InRange v) : 0 ≤ v ∧ v < 256 ^ scalarLength :=
  ⟨h.1.le, h.2.trans (by decide)⟩

theorem inRange_val {a : ScalarField} (h : a ≠ 0) : InRange a.val := by
  have hlt := a.val_lt
  have hn := Secp256k1.natCast_toNat_n
  have h0 : a.val ≠ 0 := fun h0 => h ((ZMod.val_eq_zero a).1 h0)
  refine ⟨by omega, by omega⟩

/-- Of the scalars in range one is the inverse, and that is the number of the inverse residue. -/
theorem mul_emod_eq_one_iff_eq {t s : Int} (ht : InRange t) (hs : InRange s) :
    t * s % curve.n = 1 ↔ t = ((s : ScalarField)⁻¹.val : ℕ) := by
  have hv : (((s : ScalarField)⁻¹.val : ℕ) : ScalarField) = (s : ScalarField)⁻¹ :=
    ZMod.natCast_zmod_val _
  rw [Secp256k1.mul_emod_eq_one_iff, mul_eq_one_iff_eq_inv₀ hs.ne_zero]
  constructor
  · intro h
    refine ht.eq_of_intCast_eq (inRange_val (inv_ne_zero hs.ne_zero)) ?_
    rw [Int.cast_natCast, hv, h]
  · rintro rfl
    rw [Int.cast_natCast, hv]

end Ecdsa

end KeyRecovery
