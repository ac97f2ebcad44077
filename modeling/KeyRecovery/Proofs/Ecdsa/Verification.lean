import KeyRecovery.Proofs.Curve.Law
import KeyRecovery.Proofs.Encoding.PublicKey

/-!
# Verification decides the equation of the group

`noncePoint g z r s` is the element that a signer with the key `g` would have met. The two
multipliers that `verify` computes are residues, and the joint walk over their digits ends at this
element whatever they are, so a signature verifies under a point of the curve exactly if the
element is not the identity and its `x` is `r` modulo the order.

Computed the other way, with the scalars of the digest and of `r` first and the inverse of `s` last,
the point is the same (`verification_identity`). The reductions are sound for every point of the
curve, as the order takes each to infinity.
-/

namespace KeyRecovery.Ecdsa

open Curve
open Secp256k1 (curve ScalarField base)

/-! ## The equation -/

section Equation

/-- The scalar of a digest: the number its first 32 bytes write. -/
def digestScalar (digest : Bytes) : ScalarField := (BigEndian.value (digest.take scalarLength) : ℕ)

/-- The element that a signer with the key `g` met, if `(r, s)` is a signature of `z`. -/
noncomputable def noncePoint (g : curve.PointGroup) (z : ScalarField) (r s : Int) :
    curve.PointGroup :=
  (z * (s : ScalarField)⁻¹).val • base + ((r : ScalarField) * (s : ScalarField)⁻¹).val • g

theorem noncePoint_eq (g : curve.PointGroup) (z : ScalarField) (r s : Int) :
    noncePoint g z r s = (s : ScalarField)⁻¹ • (z • base + (r : ScalarField) • g) := by
  unfold noncePoint
  rw [Secp256k1.val_nsmul, Secp256k1.val_nsmul]
  module

theorem scalar?_of_length {data : Bytes} (h : scalarLength ≤ data.length) :
    curve.scalar? data = some ((BigEndian.value (data.take scalarLength) : Int).fmod curve.n) := by
  have hs : data.slice 0 curve.coordBytes = data.take scalarLength := by
    have := @Bytes.slice_of_nonneg data 0 scalarLength
    rwa [List.drop_zero] at this
  have hlt : ¬ (data.length : Int) < curve.coordBytes := by
    have : curve.coordBytes = (scalarLength : Int) := rfl
    omega
  unfold Curve.scalar?
  rw [if_neg hlt, hs]

/-- What is read of a digest, reduced by the order, is its scalar. -/
theorem scalar?_digest {digest : Bytes} (h : scalarLength ≤ digest.length) :
    ∃ z, curve.scalar? digest = some z ∧ 0 ≤ z ∧ (z : ScalarField) = digestScalar digest := by
  refine ⟨_, scalar?_of_length h, (Secp256k1.fmod_n_mem _).1, ?_⟩
  rw [Secp256k1.intCast_fmod_n, Int.cast_natCast, digestScalar]

theorem scalar?_of_lt {data : Bytes} (h : data.length < scalarLength) :
    curve.scalar? data = none := by
  have hlt : (data.length : Int) < curve.coordBytes := by
    have : curve.coordBytes = (scalarLength : Int) := rfl
    omega
  exact if_pos hlt

variable {Q : Affine} {digest : Bytes} {z r s t : Int}

theorem combination_eq (hQ : curve.IsSolution Q) (z r t : Int) :
    ∃ V, combination Q z r t = .ok (if V.z = 0 then none else some V)
      ∧ StandsFor V ((t : ScalarField) • ((z : ScalarField) • base
        + (r : ScalarField) • curve.toGroup (.ofAffine Q))) := by
  have hl : (bitsLE ((z * t).fmod curve.n) scalarBits).length
      = (bitsLE ((r * t).fmod curve.n) scalarBits).length := by
    rw [length_bitsLE, length_bitsLE]
  refine ⟨_, tryMulAdd_of_ne_zero Secp256k1.p_ne_zero hl _ _, ?_⟩
  have h := StandsFor.mulAdd Secp256k1.standsFor_base hQ.standsFor_toGroup _ _ hl
  rwa [Secp256k1.ofBitsLE_fmod_products] at h

/-- A coordinate fits on its bytes. -/
theorem encodeScalar_x {x : Int} (hx : 0 ≤ x ∧ x < curve.p) :
    ∃ data, encodeScalar x = .ok data ∧ curve.tryScalar data = .ok (some (x % curve.n)) := by
  obtain ⟨data, hd, hl, hv⟩ := encodeScalar_eq_ok ⟨hx.1, hx.2.trans (by decide)⟩
  refine ⟨data, hd, ?_⟩
  rw [tryScalar_of_ne_zero Secp256k1.n_ne_zero, scalar?_of_length hl.ge,
    List.take_of_length_le hl.le, hv, Int.fmod_eq_emod_of_nonneg _ (by decide)]

/-- The `x` of the sum, where it has one. -/
theorem abscissa_eq (hQ : curve.IsSolution Q) (z r t : Int) {g : curve.PointGroup}
    (hg : g = (t : ScalarField) • ((z : ScalarField) • base
      + (r : ScalarField) • curve.toGroup (.ofAffine Q))) :
    ∃ x, abscissa Q z r t = .ok x
      ∧ ∀ u, x = some u ↔ g ≠ 0 ∧ (curve.coordinates g).x % curve.n = u := by
  obtain ⟨V, hV, hst⟩ := combination_eq hQ z r t
  rw [← hg] at hst
  unfold abscissa
  rw [hV]
  by_cases hz : g = 0
  · refine ⟨none, ?_, fun u => ⟨fun h => by simp at h, fun h => absurd hz h.1⟩⟩
    rw [if_pos (hst.z_eq_zero_iff.2 hz)]
    rfl
  · obtain ⟨data, hd, hs⟩ := encodeScalar_x (isSolution_coordinates hz).1
    refine ⟨some ((curve.coordinates g).x % curve.n), ?_, fun u => ?_⟩
    · rw [if_neg (mt hst.z_eq_zero_iff.1 hz)]
      simp only [ok_bind, tryAffine_of_ne_zero Secp256k1.p_ne_zero, hst.affine?_eq hz, hd, hs]
    · rw [Option.some.injEq]
      exact ⟨fun h => ⟨hz, h⟩, fun h => h.2⟩

/-- Without a supplied inverse one is found, and a supplied one is taken if it is one. -/
theorem usableInverse_eq {s : Int} (hs : InRange s) (supplied : Option Int) :
    ∃ t, usableInverse s supplied = .ok t
      ∧ (t = none ↔ ∃ u, supplied = some u ∧ u * s % curve.n ≠ 1)
      ∧ ∀ u, t = some u → (u : ScalarField) = (s : ScalarField)⁻¹ := by
  rcases supplied with _ | u
  · refine ⟨some ((s : ScalarField)⁻¹.val : Int), ?_, by simp, fun u hu => ?_⟩
    · unfold usableInverse
      rw [tryInverse_of_ne_zero Secp256k1.n_ne_zero, inverse?_of_prime hs.ne_zero]
    · rw [← Option.some.inj hu, Int.cast_natCast, ZMod.natCast_zmod_val]
  · refine ⟨_, rfl, ?_, fun v hv => ?_⟩
    · rw [Int.fmod_eq_emod_of_nonneg _ (by decide)]
      simp
    · rw [Int.fmod_eq_emod_of_nonneg _ (by decide)] at hv
      split_ifs at hv with h1
      rw [← Option.some.inj hv]
      exact eq_inv_of_mul_eq_one_left (Secp256k1.mul_emod_eq_one_iff.1 h1)

/-- `(r, s)` is a signature of `z` under the key `g`. -/
def IsSignature (g : curve.PointGroup) (z : ScalarField) (r s : Int) : Prop :=
  InRange r ∧ InRange s ∧ noncePoint g z r s ≠ 0
    ∧ (curve.coordinates (noncePoint g z r s)).x % curve.n = r

theorem verify_eq (hQ : curve.IsSolution Q) (digest : Bytes) (r s : Int) (supplied : Option Int) :
    ∃ accepted, verify (PublicKey.uncompressed Q) digest r s supplied = .ok accepted
      ∧ (accepted = true ↔ scalarLength ≤ digest.length
        ∧ (∀ u, supplied = some u → u * s % curve.n = 1)
        ∧ IsSignature (curve.toGroup (.ofAffine Q)) (digestScalar digest) r s) := by
  rw [verify, PublicKey.point?_uncompressed hQ, tryScalar_of_ne_zero Secp256k1.n_ne_zero]
  simp only [ok_bind, pure_eq_ok]
  by_cases hl : scalarLength ≤ digest.length
  · obtain ⟨z, hz, -, hzd⟩ := scalar?_digest hl
    rw [hz]
    simp only []
    by_cases hrs : InRange r ∧ InRange s
    · obtain ⟨t, ht, hnone, hsome⟩ := usableInverse_eq hrs.2 supplied
      rw [if_neg (not_not_intro hrs), ht]
      rcases t with _ | t
      · obtain ⟨u, hu, hne⟩ := hnone.1 rfl
        exact ⟨false, rfl, fun h => by simp at h, fun h => absurd (h.2.1 u hu) hne⟩
      · have hsup : ∀ u, supplied = some u → u * s % curve.n = 1 := fun u hu => by
          by_contra h
          exact absurd (hnone.2 ⟨u, hu, h⟩) (by simp)
        have hg : noncePoint (curve.toGroup (.ofAffine Q)) (digestScalar digest) r s
            = (t : ScalarField) • ((z : ScalarField) • base
              + (r : ScalarField) • curve.toGroup (.ofAffine Q)) := by
          rw [noncePoint_eq, hsome t rfl, hzd]
        obtain ⟨x, hx, hiff⟩ := abscissa_eq hQ z r t hg
        simp only [ok_bind, hx]
        refine ⟨decide (x = some r), rfl, ?_⟩
        rw [decide_eq_true_eq, hiff]
        exact ⟨fun h => ⟨hl, hsup, hrs.1, hrs.2, h⟩, fun h => h.2.2.2.2⟩
    · rw [if_pos hrs]
      exact ⟨false, rfl, fun h => by simp at h, fun h => absurd ⟨h.2.2.1, h.2.2.2.1⟩ hrs⟩
  · rw [scalar?_of_lt (by omega)]
    exact ⟨false, rfl, fun h => by simp at h, fun h => absurd h.1 hl⟩

theorem verify_eq_true_iff (hQ : curve.IsSolution Q) :
    verify (PublicKey.uncompressed Q) digest r s none = .ok true
      ↔ scalarLength ≤ digest.length
        ∧ IsSignature (curve.toGroup (.ofAffine Q)) (digestScalar digest) r s := by
  obtain ⟨accepted, hv, hiff⟩ := verify_eq hQ digest r s none
  rw [hv, Except.ok.injEq, hiff]
  simp

/-- Without a supplied inverse, verification accepts the signatures of long enough digests. -/
theorem verify_none (hQ : curve.IsSolution Q) (digest : Bytes) (r s : Int) :
    ∃ accepted, verify (PublicKey.uncompressed Q) digest r s none = .ok accepted
      ∧ (accepted = true ↔ scalarLength ≤ digest.length
        ∧ IsSignature (curve.toGroup (.ofAffine Q)) (digestScalar digest) r s) := by
  obtain ⟨accepted, hv, hiff⟩ := verify_eq hQ digest r s none
  refine ⟨accepted, hv, hiff.trans ⟨fun h => ⟨h.1, h.2.2⟩, fun h => ⟨h.1, ?_, h.2⟩⟩⟩
  intro u hu
  simp at hu

/-- The nonce `1` and the key `1`. -/
theorem isSignature_base_of_add_eq {z : ScalarField} (hs : InRange s)
    (h : z + (curve.gx : ScalarField) = s) : IsSignature base z curve.gx s := by
  have hr : InRange curve.gx := by decide
  have hW : noncePoint base z curve.gx s = base := by
    rw [noncePoint_eq, ← add_smul, h, inv_smul_smul₀ hs.ne_zero]
  unfold IsSignature
  rw [hW, Secp256k1.coordinates_base]
  exact ⟨hr, hs, Secp256k1.base_ne_zero, hr.emod⟩

theorem isSignature_base : IsSignature base 0 curve.gx curve.gx :=
  isSignature_base_of_add_eq (by decide) (zero_add _)

theorem digestScalar_encode {k : ℕ} (h : k < 256 ^ scalarLength) :
    digestScalar (BigEndian.encode scalarLength k) = k := by
  rw [digestScalar, List.take_of_length_le (BigEndian.length_encode ..).le,
    BigEndian.value_encode_of_lt h]

theorem digestScalar_replicate : digestScalar (List.replicate 32 0) = 0 := by
  have : BigEndian.value ((List.replicate 32 0).take scalarLength) = 0 := by decide
  rw [digestScalar, this, Nat.cast_zero]

theorem verify_base : verify (PublicKey.uncompressed ⟨curve.gx, curve.gy⟩) (List.replicate 32 0)
    curve.gx curve.gx none = .ok true := by
  rw [verify_eq_true_iff Secp256k1.isSolution_base, digestScalar_replicate]
  exact ⟨by simp, isSignature_base⟩

theorem verify_none_base : curve.IsSolution ⟨curve.gx, curve.gy⟩
    ∧ verify (PublicKey.uncompressed ⟨curve.gx, curve.gy⟩) (List.replicate 32 0) curve.gx curve.gx
      none = .ok true := by
  refine ⟨Secp256k1.isSolution_base, ?_⟩
  obtain ⟨accepted, hv, hiff⟩ :=
    verify_none Secp256k1.isSolution_base (List.replicate 32 0) curve.gx curve.gx
  rw [digestScalar_replicate] at hiff
  rw [hv, hiff.2 ⟨by simp, isSignature_base⟩]

end Equation

/-! ## The sum is one multiple of a sum -/

variable {Q : Point} {g : curve.PointGroup} {z r s : Int}

/-- The multiple of the sum is computed without reducing anything by the order. -/
theorem exists_mul_sumOfMuls (hQ : StandsFor Q g) (hz : 0 ≤ z) (hr : 0 ≤ r) {t : Int}
    (ht : 0 ≤ t) :
    ∃ V, (do curve.tryMul t (← curve.trySumOfMuls z curve.generator r Q)) = .ok V
      ∧ StandsFor V ((t : ScalarField) • ((z : ScalarField) • base + (r : ScalarField) • g)) := by
  obtain ⟨sum, hsum, hstands⟩ := Secp256k1.standsFor_base.trySumOfMuls hQ hz hr
  refine ⟨curve.mul t sum, ?_, ?_⟩
  · rw [hsum]
    exact tryMul_of_ne_zero Secp256k1.p_ne_zero t sum
  · have hmul := hstands.mul t
    rwa [Secp256k1.toNat_nsmul ht, ← Int.cast_smul_eq_zsmul ScalarField,
      ← Int.cast_smul_eq_zsmul ScalarField] at hmul

/-- For every `s` in range an inverse is found. With it the joint walk over the two reduced products
answers nothing exactly if the multiple of the sum is at infinity, and the same point in any case,
where nothing is read as infinity. -/
theorem verification_identity (hQ : StandsFor Q g) (hz : 0 ≤ z) (hr : 0 ≤ r) (hs : InRange s) :
    ∃ t joint apart, tryInverse s curve.n = .ok (some t)
      ∧ curve.tryMulAdd (bitsLE ((z * t).fmod curve.n) scalarBits) curve.generator
        (bitsLE ((r * t).fmod curve.n) scalarBits) Q = .ok joint
      ∧ (do curve.tryMul t (← curve.trySumOfMuls z curve.generator r Q)) = .ok apart
      ∧ (joint = none ↔ apart.isInfinity = true)
      ∧ curve.trySame (joint.getD Point.infinity) apart = .ok true := by
  have hinverse : tryInverse s curve.n = .ok (some (s : ScalarField)⁻¹.val) := by
    rw [tryInverse_of_ne_zero Secp256k1.n_ne_zero, inverse?_of_prime hs.ne_zero]
  have ht : 0 ≤ ((s : ScalarField)⁻¹.val : Int) := Int.natCast_nonneg _
  generalize ((s : ScalarField)⁻¹.val : Int) = t at hinverse ht
  have hl : (bitsLE ((z * t).fmod curve.n) scalarBits).length
      = (bitsLE ((r * t).fmod curve.n) scalarBits).length := by
    rw [length_bitsLE, length_bitsLE]
  obtain ⟨joint, hjoint, hdenotes⟩ := Secp256k1.standsFor_base.tryMulAdd hQ hl
  obtain ⟨apart, hapart, hstands⟩ := exists_mul_sumOfMuls hQ hz hr ht
  rw [Secp256k1.ofBitsLE_fmod_products] at hdenotes
  refine ⟨t, joint, apart, hinverse, hjoint, hapart, ?_,
    hdenotes.standsFor_getD.trySame_eq hstands⟩
  rw [hdenotes.eq_none_iff, Point.isInfinity_iff, hstands.z_eq_zero_iff]

/-- The generator and its opposite, once each: both sums are at infinity. -/
theorem verification_identity_opposite :
    (curve.IsSolution ⟨curve.gx, curve.p - curve.gy⟩ ∧ InRange 2)
    ∧ ∃ t, tryInverse 2 curve.n = .ok (some t)
      ∧ curve.tryMulAdd (bitsLE ((1 * t).fmod curve.n) scalarBits) curve.generator
        (bitsLE ((1 * t).fmod curve.n) scalarBits) (.ofAffine ⟨curve.gx, curve.p - curve.gy⟩)
        = .ok none := by
  have hQ : curve.IsSolution ⟨curve.gx, curve.p - curve.gy⟩ := by decide +kernel
  have hs : InRange 2 := by decide
  have hsum : curve.trySumOfMuls 1 curve.generator 1 (.ofAffine ⟨curve.gx, curve.p - curve.gy⟩)
      = .ok Point.infinity := by decide +kernel
  obtain ⟨t, joint, apart, ht, hjoint, hapart, hiff, -⟩ :=
    verification_identity hQ.standsFor_toGroup zero_le_one zero_le_one hs
  have hz := (StandsFor.infinity (C := curve) (P := Point.infinity) rfl).mul t
  rw [nsmul_zero] at hz
  rw [hsum, ok_bind, tryMul_of_ne_zero Secp256k1.p_ne_zero, Except.ok.injEq] at hapart
  rw [← hapart, Point.isInfinity_iff, hz.z_eq_zero_iff] at hiff
  exact ⟨⟨hQ, hs⟩, t, ht, hiff.2 rfl ▸ hjoint⟩

end KeyRecovery.Ecdsa
