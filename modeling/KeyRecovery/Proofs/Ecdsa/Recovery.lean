import KeyRecovery.Proofs.Ecdsa.Verification

/-!
# Recovery inverts verification, up to the indicator

A signature verifies under a key exactly if some indicator recovers the key from it, and that is
the indicator of the element the signer met (`isRecovered_iff`). The indicator enters nowhere else,
so the keys that a signature verifies under are those of its four indicators, and no key is that of
two.

`sign` is the textbook signer, who writes down the indicator of the nonce point. The key of the
signer is what standard recovery finds, from the signature itself and from its other form with the
opposite nonce point.
-/

namespace KeyRecovery.Ecdsa

open Curve
open Secp256k1 (curve ScalarField base)

/-! ## The keys of the indicators -/

section Indicators

/-- `R` is the point that `r` and the indicator `v` name. -/
def IsNamed (r v : Int) (R : Affine) : Prop :=
  curve.IsSolution R ∧ R.x = (if v / 2 % 2 = 1 then r + curve.n else r) ∧ R.y % 2 = v % 2

/-- The indicator whose second bit says that `x` is not below the order, and whose lowest bit is the
parity of `y`. -/
def indicatorOf (R : Affine) : Int := 2 * (if curve.n ≤ R.x then 1 else 0) + R.y % 2

/-- `Q` is the key that standard recovery finds: `r⁻¹ (s R - z G)` for the point `R` that `r` and
`v` name. -/
def IsRecovered (r s v : Int) (z : ScalarField) (Q : Affine) : Prop :=
  (0 ≤ v ∧ v ≤ 3) ∧ curve.IsSolution Q ∧ ∃ R, IsNamed r v R
    ∧ curve.toGroup (.ofAffine Q) = (r : ScalarField)⁻¹
      • ((s : ScalarField) • curve.toGroup (.ofAffine R) - z • base)

variable {Q R : Affine} {r s v : Int} {sig : Signature}

theorem noncePoint?_eq_some_iff : noncePoint? r v = some R ↔ IsNamed r v R := by
  unfold noncePoint? IsNamed
  simp only []
  generalize (if v / 2 % 2 = 1 then r + curve.n else r) = x
  have hodd : decide (R.y % 2 = 1) = decide (v % 2 = 1) ↔ R.y % 2 = v % 2 := by
    rw [decide_eq_decide]
    omega
  split_ifs with hx
  · rw [Secp256k1.lift?_eq_some_iff, hodd]
    exact ⟨fun ⟨h, hR, hy⟩ => ⟨hR, h, hy⟩, fun ⟨hR, h, hy⟩ => ⟨h, hR, hy⟩⟩
  · refine ⟨fun h => by simp at h, fun ⟨hR, h, _⟩ => ?_⟩
    rw [← h] at hx
    exact absurd hR.1.2 hx

theorem p_lt_two_mul_n : curve.p < curve.n + curve.n := by decide

/-- The order goes into an `x` at most once. -/
theorem x_emod_order {x : Int} (hx : 0 ≤ x ∧ x < curve.p) :
    x % curve.n = if curve.n ≤ x then x - curve.n else x := by
  have hp := p_lt_two_mul_n
  split_ifs with hn
  · rw [← Int.sub_emod_right, Int.emod_eq_of_lt (by omega) (by omega)]
  · exact Int.emod_eq_of_lt hx.1 (by omega)

theorem indicatorOf_mem (R : Affine) : 0 ≤ indicatorOf R ∧ indicatorOf R ≤ 3 := by
  unfold indicatorOf
  split_ifs <;> omega

/-- A point is named by its `x` modulo the order and its own indicator, and by nothing else. -/
theorem isNamed_iff (hR : curve.IsSolution R) (hr : InRange r) (hv : 0 ≤ v ∧ v ≤ 3) :
    IsNamed r v R ↔ R.x % curve.n = r ∧ v = indicatorOf R := by
  obtain ⟨hr0, hrn⟩ := hr
  obtain ⟨hx0, hxp⟩ := hR.1
  unfold IsNamed indicatorOf
  rw [x_emod_order hR.1, eq_true hR, true_and]
  split_ifs <;> omega

theorem IsNamed.unique {R' : Affine} (h : IsNamed r v R) (h' : IsNamed r v R') : R = R' :=
  eq_of_x_of_parity h.1 h'.1 (h.2.1.trans h'.2.1.symm) (h.2.2.trans h'.2.2.symm)

theorem noncePoint_eq_iff {g w : curve.PointGroup} {z : ScalarField} (hr : InRange r)
    (hs : InRange s) :
    noncePoint g z r s = w
      ↔ g = (r : ScalarField)⁻¹ • ((s : ScalarField) • w - z • base) := by
  rw [noncePoint_eq, inv_smul_eq_iff₀ hs.ne_zero, eq_inv_smul_iff₀ hr.ne_zero, eq_sub_iff_add_eq']

theorem isRecovered_iff {z : ScalarField} (hr : InRange r) (hs : InRange s) :
    IsRecovered r s v z Q ↔ curve.IsSolution Q ∧ IsSignature (curve.toGroup (.ofAffine Q)) z r s
      ∧ v = indicatorOf (curve.coordinates (noncePoint (curve.toGroup (.ofAffine Q)) z r s)) := by
  constructor
  · rintro ⟨hv, hQ, R, hR, hkey⟩
    have hw := (noncePoint_eq_iff hr hs).2 hkey
    have hc := coordinates_toGroup hR.1
    obtain ⟨hx, hi⟩ := (isNamed_iff hR.1 hr hv).1 hR
    rw [IsSignature, hw, hc]
    exact ⟨hQ, ⟨hr, hs, hR.1.toGroup_ne_zero, hx⟩, hi⟩
  · rintro ⟨hQ, ⟨-, -, hne, hx⟩, hi⟩
    have hR := isSolution_coordinates hne
    have hv : 0 ≤ v ∧ v ≤ 3 := hi ▸ indicatorOf_mem _
    refine ⟨hv, hQ, _, (isNamed_iff hR hr hv).2 ⟨hx, hi⟩, ?_⟩
    rw [toGroup_coordinates hne]
    exact (noncePoint_eq_iff hr hs).1 rfl

theorem standsFor_keyPoint (hR : curve.IsSolution R) {z t : Int} (hs : 0 ≤ s) (hz : 0 ≤ z)
    (ht : 0 ≤ t) :
    StandsFor (keyPoint R s z t) ((t : ScalarField)
      • ((s : ScalarField) • curve.toGroup (.ofAffine R) - (z : ScalarField) • base)) := by
  have h := ((hR.standsFor_toGroup.mul s).add (Secp256k1.standsFor_base.mul z).neg).mul t
  rwa [Secp256k1.toNat_nsmul hs, Secp256k1.toNat_nsmul hz, Secp256k1.toNat_nsmul ht,
    ← sub_eq_add_neg] at h

theorem recoverKey?_eq_some_iff {z : Int} (hr : InRange sig.r) (hs : InRange sig.s) (hz : 0 ≤ z)
    (hv : 0 ≤ sig.v ∧ sig.v ≤ 3) :
    recoverKey? sig z = some Q ↔ IsRecovered sig.r sig.s sig.v z Q := by
  have hkey : ∀ R, IsNamed sig.r sig.v R →
      (curve.affine? (keyPoint R sig.s z ((sig.r : ScalarField)⁻¹.val : ℕ)) = some Q
        ↔ curve.IsSolution Q ∧ curve.toGroup (.ofAffine Q) = (sig.r : ScalarField)⁻¹
          • ((sig.s : ScalarField) • curve.toGroup (.ofAffine R) - (z : ScalarField) • base)) := by
    intro R hR
    have hst := standsFor_keyPoint hR.1 hs.1.le hz
      (Int.natCast_nonneg (sig.r : ScalarField)⁻¹.val)
    rw [Int.cast_natCast, ZMod.natCast_zmod_val] at hst
    rw [hst.affine?_eq_some_iff]
    constructor
    · rintro ⟨hne, rfl⟩
      exact ⟨isSolution_coordinates hne, toGroup_coordinates hne⟩
    · rintro ⟨hQ, hg⟩
      rw [← hg]
      exact ⟨hQ.toGroup_ne_zero, (coordinates_toGroup hQ).symm⟩
  unfold recoverKey? IsRecovered
  simp only [inverse?_of_prime hr.ne_zero, Option.bind_eq_bind, Option.bind_eq_some_iff,
    Option.some.injEq, exists_eq_left', noncePoint?_eq_some_iff]
  constructor
  · rintro ⟨R, hR, h⟩
    obtain ⟨hQ, hg⟩ := (hkey R hR).1 h
    exact ⟨hv, hQ, R, hR, hg⟩
  · rintro ⟨-, hQ, R, hR, hg⟩
    exact ⟨R, hR, (hkey R hR).2 ⟨hQ, hg⟩⟩

end Indicators

/-! ## Recovery undoes signing -/

section Signing

/-- The signature that the key `d` and the nonce `k` make of `z`. -/
noncomputable def sign (d k : ℕ) (z : ScalarField) : Signature :=
  let R := curve.coordinates (k • base)
  ⟨R.x % curve.n, ((k : ScalarField)⁻¹ * (z + (R.x % curve.n : Int) * d)).val, indicatorOf R⟩

/-- With `-s` for `s`, which is a signature of the same under the same key. -/
def opposite (sig : Signature) : Signature :=
  ⟨sig.r, curve.n - sig.s, ((sig.v.toNat ^^^ 1 : ℕ) : Int)⟩

variable {Q R : Affine} {r s v : Int} {z : ScalarField} {d k : ℕ}

theorem nsmul_base_ne_zero (hd : InRange d) : d • base ≠ 0 := by
  rw [← Nat.cast_smul_eq_nsmul ScalarField, ← Int.cast_natCast]
  exact smul_ne_zero hd.ne_zero Secp256k1.base_ne_zero

theorem inRange_sign_r (h : (sign d k z).r ≠ 0) : InRange (sign d k z).r :=
  ⟨lt_of_le_of_ne (Int.emod_nonneg _ (by decide)) h.symm, Int.emod_lt_of_pos _ (by decide)⟩

theorem inRange_sign_s (h : (sign d k z).s ≠ 0) : InRange (sign d k z).s :=
  inRange_val fun h0 => h (by simp [sign, h0])

theorem isRecovered_sign (hd : InRange d) (hk : InRange k) (hr : (sign d k z).r ≠ 0) :
    IsRecovered (sign d k z).r (sign d k z).s (sign d k z).v z (curve.coordinates (d • base)) := by
  have hdne := nsmul_base_ne_zero hd
  have hkne := nsmul_base_ne_zero hk
  have hR := isSolution_coordinates hkne
  have hrr := inRange_sign_r hr
  refine ⟨indicatorOf_mem _, isSolution_coordinates hdne, curve.coordinates (k • base),
    (isNamed_iff hR hrr (indicatorOf_mem _)).2 ⟨rfl, rfl⟩, ?_⟩
  rw [toGroup_coordinates hdne, toGroup_coordinates hkne, eq_inv_smul_iff₀ hrr.ne_zero]
  have hs : ((sign d k z).s : ScalarField) * k = z + ((sign d k z).r : ScalarField) * d := by
    have hk0 : (k : ScalarField) ≠ 0 := by
      rw [← Int.cast_natCast]
      exact hk.ne_zero
    unfold sign
    rw [Int.cast_natCast, ZMod.natCast_zmod_val]
    field_simp
  rw [← Nat.cast_smul_eq_nsmul ScalarField, ← Nat.cast_smul_eq_nsmul ScalarField, smul_smul,
    smul_smul, hs]
  module

/-- A signature with `-s` is that of the opposite nonce point, which has the other parity. -/
theorem IsRecovered.opposite (h : IsRecovered r s v z Q) :
    IsRecovered r (curve.n - s) ((v.toNat ^^^ 1 : ℕ) : Int) z Q := by
  obtain ⟨hv, hQ, R, ⟨hR, hx, hy⟩, hg⟩ := h
  have hne := neg_ne_zero.2 hR.toGroup_ne_zero
  have hpar := Secp256k1.coordinates_neg_y hR.toGroup_ne_zero
  have hxor : ((v.toNat ^^^ 1 : ℕ) : Int) = v + 1 - 2 * (v % 2) := by
    obtain rfl | rfl | rfl | rfl : v = 0 ∨ v = 1 ∨ v = 2 ∨ v = 3 := by omega
    all_goals rfl
  rw [coordinates_toGroup hR] at hpar
  refine ⟨by omega, hQ, curve.coordinates (-curve.toGroup (.ofAffine R)),
    ⟨isSolution_coordinates hne, ?_, ?_⟩, ?_⟩
  · rw [coordinates_neg_x, coordinates_toGroup hR, hx, hxor]
    congr 1
    rw [eq_iff_iff]
    omega
  · omega
  · rw [toGroup_coordinates hne, hg]
    push_cast
    rw [Secp256k1.intCast_n]
    module

end Signing

end KeyRecovery.Ecdsa
