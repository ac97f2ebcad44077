import KeyRecovery.Proofs.Ecdsa.Verification

/-!
# Verification has an answer for every key and every supplied inverse

An inverse enters two products that are reduced by the order, so two numbers of one residue lead to
the same `x` (`abscissa_congr`). The inverse that is found and one that passes the test are both of
the residue of `s⁻¹`, and nothing else of the verification looks at them. No law of the group is
needed for this, so the key may be any pair of reduced coordinates. Nor is one needed for there to
be a result at all (`exists_abscissa`): an `x` is reduced, and so it fits on its bytes.

A key is not tested to be on the curve, and off it the walk over the digits follows no law of a
group. But each triple that the walk meets is reduced and has `0` or a unit for its `z`, and the sum
is absent exactly in the first case. So the sum that is there stands for an affine point, whose `x`
fits on its bytes: none of the absent results that verification looks out for behind it comes up.
-/

namespace KeyRecovery

open Curve
open Secp256k1 (curve ScalarField)

/-! ## Supplied inverses -/

namespace Curve

variable {C : Curve} [C.HasModulus] {P : Point} {W : Affine}

theorem x_mem_of_affine? (h : C.affine? P = some W) : 0 ≤ W.x ∧ W.x < C.p := by
  unfold affine? at h
  split_ifs at h
  obtain ⟨i, -, rfl⟩ := Option.map_eq_some_iff.1 h
  exact ⟨reduce_nonneg _, reduce_lt _⟩

end Curve

namespace Ecdsa

variable {s t t' : Int}

theorem fmod_mul_congr (h : (t : ScalarField) = t') (u : Int) :
    (u * t).fmod curve.n = (u * t').fmod curve.n := by
  have hu : ((u * t : Int) : ScalarField) = (u * t' : Int) := by
    rw [Int.cast_mul, Int.cast_mul, h]
  rw [Int.fmod_eq_emod_of_nonneg _ (by decide), Int.fmod_eq_emod_of_nonneg _ (by decide)]
  exact Secp256k1.intCast_eq_iff.1 hu

theorem abscissa_congr (h : (t : ScalarField) = t') (key : Affine) (z r : Int) :
    abscissa key z r t = abscissa key z r t' := by
  unfold abscissa combination
  rw [fmod_mul_congr h, fmod_mul_congr h]

theorem exists_abscissa (key : Affine) (z r t : Int) : ∃ x, abscissa key z r t = .ok x := by
  unfold abscissa combination
  rw [tryMulAdd_of_ne_zero Secp256k1.p_ne_zero (by rw [length_bitsLE, length_bitsLE]), ok_bind]
  generalize curve.mulAdd _ _ _ _ = V
  by_cases hz : V.z = 0
  · rw [if_pos hz]
    exact ⟨none, rfl⟩
  rw [if_neg hz]
  simp only [tryAffine_of_ne_zero Secp256k1.p_ne_zero, ok_bind]
  rcases hW : curve.affine? V with _ | W
  · exact ⟨none, rfl⟩
  · obtain ⟨data, hd, hs⟩ := encodeScalar_x (x_mem_of_affine? hW)
    refine ⟨some (W.x % curve.n), ?_⟩
    simp only [hd, ok_bind, hs]

/-- With a supplied inverse the answer is the one without, if it is an inverse, and else a
refusal. -/
theorem verify_some (key digest : Bytes) (r s t : Int) :
    ∃ accepted, verify key digest r s none = .ok accepted
      ∧ verify key digest r s (some t)
        = .ok (if t * s % curve.n = 1 then accepted else false) := by
  unfold verify
  rw [tryScalar_of_ne_zero Secp256k1.n_ne_zero]
  rcases PublicKey.point? key with _ | Q
  · exact ⟨false, rfl, by rw [ite_self]; rfl⟩
  rcases curve.scalar? digest with _ | z
  · exact ⟨false, rfl, by rw [ite_self]; rfl⟩
  simp only [ok_bind, pure_eq_ok]
  by_cases hrs : InRange r ∧ InRange s
  · obtain ⟨found, hfound, hnone, hres⟩ := usableInverse_eq hrs.2 none
    obtain ⟨given, hgiven, hnone', hres'⟩ := usableInverse_eq hrs.2 (some t)
    rw [if_neg (not_not_intro hrs), if_neg (not_not_intro hrs), hfound, hgiven]
    rcases found with _ | u
    · obtain ⟨u, hu, -⟩ := hnone.1 rfl
      exact absurd hu (by simp)
    obtain ⟨x, hx⟩ := exists_abscissa Q z r u
    refine ⟨decide (x = some r), by simp only [ok_bind, hx], ?_⟩
    rcases given with _ | v
    · obtain ⟨w, hw, hne⟩ := hnone'.1 rfl
      rw [← Option.some.inj hw] at hne
      rw [if_neg hne]
      rfl
    · have ht : t * s % curve.n = 1 := by
        by_contra hne
        exact absurd (hnone'.2 ⟨t, rfl, hne⟩) (by simp)
      have hvu : (v : ScalarField) = u := (hres' v rfl).trans (hres u rfl).symm
      simp only [ok_bind, abscissa_congr hvu, hx, if_pos ht]
  · rw [if_pos hrs, if_pos hrs]
    exact ⟨false, rfl, by rw [ite_self]⟩

end Ecdsa

/-! ## Keys off the curve -/

namespace Curve

variable {C : Curve} {P Q V : Point}

theorem isKept_isReduced [C.HasModulus] :
    C.IsKept fun P P' => C.IsReduced P ∧ C.IsReduced P' where
  infinity := ⟨isReduced_infinity, isReduced_infinity⟩
  double := fun _ => ⟨isReduced_double _, isReduced_double _⟩
  add := fun hP hQ => ⟨hP.1.add hQ.1, hP.2.add hQ.2⟩

theorem IsReduced.mulAdd [C.HasModulus] (hP : C.IsReduced P) (hQ : C.IsReduced Q)
    (as bs : List Bool) : C.IsReduced (C.mulAdd as P bs Q) :=
  (isKept_isReduced.mulAdd ⟨hP, hP⟩ ⟨hQ, hQ⟩ as bs).1

variable [hC : C.HasOddPrime]

theorem IsProper.mulAdd (hP : C.IsProper P) (hQ : C.IsProper Q) (as bs : List Bool) :
    C.IsProper (C.mulAdd as P bs Q) := by
  obtain ⟨v, hP⟩ := isProper_iff.1 hP
  obtain ⟨w, hQ⟩ := isProper_iff.1 hQ
  obtain ⟨u, hV, -⟩ := isKept_alike.mulAdd ⟨v, hP, hP⟩ ⟨w, hQ, hQ⟩ as bs
  exact isProper_iff.2 ⟨u, hV⟩

/-- The joint walk of two proper points answers a proper one or, at infinity, nothing. -/
theorem IsProper.of_tryMulAdd (hP : C.IsProper P) (hQ : C.IsProper Q) {as bs : List Bool}
    (hl : as.length = bs.length) (h : C.tryMulAdd as P bs Q = .ok (some V)) :
    V.z ≠ 0 ∧ C.IsProper V ∧ (C.IsReduced P → C.IsReduced Q → C.IsReduced V) := by
  rw [tryMulAdd_of_ne_zero HasModulus.p_ne_zero hl, Except.ok.injEq] at h
  split_ifs at h with hz
  obtain rfl := Option.some.inj h
  exact ⟨hz, hP.mulAdd hQ as bs, fun hP hQ => hP.mulAdd hQ as bs⟩

theorem isProper_ofAffine (W : Affine) : C.IsProper (.ofAffine W) := by
  refine isProper_iff.2 ⟨_, isScaled_div ?_⟩
  rw [Point.ofAffine, Int.cast_one]
  exact one_ne_zero

/-- The affine point is there, since the inverse of `z` is. -/
theorem IsProper.exists_affine? (hP : C.IsProper P) (hz : P.z ≠ 0) :
    ∃ i W, P.z * i % C.p = 1 ∧ C.affine? P = some W := by
  have hz' : (P.z : C.BaseField) ≠ 0 := by
    rw [Ne, intCast_eq_zero_iff_dvd]
    exact hP.resolve_left hz
  obtain ⟨i, hi⟩ : ∃ i, inverse? P.z C.p = some i := ⟨_, inverse?_of_prime hz'⟩
  refine ⟨i, C.scaled P i, (inverse?_spec HasModulus.one_lt hi).2, ?_⟩
  unfold affine?
  rw [if_neg hz, hi, Option.map_some]

end Curve

namespace Ecdsa

variable {key : Bytes} {Q : Affine} {V : Point} {z r t : Int}

theorem isReduced_of_point? (h : PublicKey.point? key = some Q) :
    curve.IsReduced (.ofAffine Q) := by
  rcases key with _ | ⟨mark, data⟩
  · simp [PublicKey.point?] at h
  rw [PublicKey.point?] at h
  split_ifs at h with hc
  obtain rfl := Option.some.inj h
  exact ⟨⟨Int.natCast_nonneg _, hc.2.1⟩, ⟨Int.natCast_nonneg _, hc.2.2⟩, zero_le_one, by
    show 1 < curve.p
    decide⟩

/-- The sum, where it is not absent, is a proper point, on the curve or not. -/
theorem isProper_of_combination (h : combination Q z r t = .ok (some V)) :
    V.z ≠ 0 ∧ curve.IsProper V ∧ (curve.IsReduced (.ofAffine Q) → curve.IsReduced V) := by
  have hG : curve.IsProper curve.generator := isProper_ofAffine ⟨curve.gx, curve.gy⟩
  have hGr : curve.IsReduced curve.generator := by
    unfold Curve.IsReduced
    decide
  unfold combination at h
  obtain ⟨hz, hV, hreduced⟩ :=
    hG.of_tryMulAdd (isProper_ofAffine Q) (by rw [length_bitsLE, length_bitsLE]) h
  exact ⟨hz, hV, hreduced hGr⟩

theorem exists_verify (key digest : Bytes) (r s : Int) (supplied : Option Int) :
    ∃ accepted, verify key digest r s supplied = .ok accepted := by
  unfold verify
  rw [tryScalar_of_ne_zero Secp256k1.n_ne_zero]
  rcases PublicKey.point? key with _ | Q
  · exact ⟨false, rfl⟩
  rcases curve.scalar? digest with _ | z
  · exact ⟨false, rfl⟩
  simp only [ok_bind, pure_eq_ok]
  by_cases hrs : InRange r ∧ InRange s
  · obtain ⟨t, ht, -⟩ := usableInverse_eq hrs.2 supplied
    rw [if_neg (not_not_intro hrs), ht]
    rcases t with _ | t
    · exact ⟨false, rfl⟩
    · obtain ⟨x, hx⟩ := exists_abscissa Q z r t
      exact ⟨decide (x = some r), by simp only [ok_bind, hx]⟩
  · rw [if_pos hrs]
    exact ⟨false, rfl⟩

/-- Verification answers for all keys and numbers. Nothing it looks out for on the way is absent: an
`s` in range has an inverse, and a sum that is there is reduced, has an inverse for its `z`, and
stands for an affine point whose `x` is written on its bytes and read as a scalar. -/
theorem verify_total (key digest : Bytes) (r s : Int) (supplied : Option Int) :
    (∃ accepted, verify key digest r s supplied = .ok accepted)
    ∧ (InRange s → ∃ t, tryInverse s curve.n = .ok (some t))
    ∧ ∀ Q z t V, PublicKey.point? key = some Q → combination Q z r t = .ok (some V) →
      (curve.IsReduced V ∧ ∃ i, V.z * i % curve.p = 1)
      ∧ ∃ W data u, curve.tryAffine V = .ok (some W) ∧ (0 ≤ W.x ∧ W.x < curve.p)
        ∧ encodeScalar W.x = .ok data ∧ curve.tryScalar data = .ok (some u) := by
  refine ⟨exists_verify key digest r s supplied, fun hs => ?_, fun Q z t V hQ hV => ?_⟩
  · rw [tryInverse_of_ne_zero Secp256k1.n_ne_zero]
    exact ⟨_, congrArg _ (inverse?_of_prime hs.ne_zero)⟩
  · obtain ⟨hz, hproper, hreduced⟩ := isProper_of_combination hV
    obtain ⟨i, W, hi, hW⟩ := hproper.exists_affine? hz
    have hx := x_mem_of_affine? hW
    obtain ⟨data, hdata, hscalar⟩ := encodeScalar_x hx
    refine ⟨⟨hreduced (isReduced_of_point? hQ), i, hi⟩, W, data, _, ?_, hx, hdata, hscalar⟩
    rw [tryAffine_of_ne_zero Secp256k1.p_ne_zero, hW]

/-- A key off the curve, doubled by the walk. -/
theorem verify_total_offCurve :
    ¬ curve.IsSolution ⟨1, 1⟩
    ∧ PublicKey.point? (PublicKey.uncompressed ⟨1, 1⟩) = some ⟨1, 1⟩
    ∧ combination ⟨1, 1⟩ 0 2 1 = .ok (some ⟨1, 1, 2⟩)
    ∧ (InRange 1 ∧ ∃ t, tryInverse 1 curve.n = .ok (some t))
    ∧ (∃ i, 2 * i % curve.p = 1) ∧ ∃ W, curve.tryAffine ⟨1, 1, 2⟩ = .ok (some W) := by
  have hQ : PublicKey.point? (PublicKey.uncompressed ⟨1, 1⟩) = some ⟨1, 1⟩ := by decide +kernel
  have hV : combination ⟨1, 1⟩ 0 2 1 = .ok (some ⟨1, 1, 2⟩) := by decide +kernel
  have hs : InRange 1 := by decide
  obtain ⟨-, hinverse, hsum⟩ :=
    verify_total (PublicKey.uncompressed ⟨1, 1⟩) (List.replicate 32 0) 2 1 none
  obtain ⟨⟨-, hi⟩, W, -, -, hW, -⟩ := hsum _ _ _ _ hQ hV
  exact ⟨by decide +kernel, hQ, hV, ⟨hs, hinverse hs⟩, hi, W, hW⟩

end Ecdsa

end KeyRecovery
