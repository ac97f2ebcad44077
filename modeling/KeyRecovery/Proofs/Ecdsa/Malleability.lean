import Mathlib.Data.Nat.Bitwise
import Mathlib.GroupTheory.SpecificGroups.Cyclic.Basic
import KeyRecovery.Proofs.Ecdsa.Recovery

/-!
# Which signatures verify besides one that does

With `-s` for `s` the element of the equation changes its sign and keeps its `x`, so the signature
stays one (`IsSignature.opposite`). Elements of one `x` are equal or opposite, and `s` can be told
from the element, since no multiple of the order is in range. So a third `s` has an element of the
other `x` that `r` is the remainder of (`IsSignature.iff_eq_or_eq_or_takeBoth`), and there is none
where `r` is the remainder of itself alone (`IsSignature.iff_eq_or_eq`).

Flipping a bit adds its power of two or takes it away (`flipped_eq`), and the order is odd, so what
is flipped is the opposite only for the two `s` in the middle of the range and their lowest bit
(`flipped_eq_opposite_iff`). These two are accepted together like all opposites. Otherwise what is
flipped can only be accepted if its element has the other `x` of remainder `r`. That happens for
every `r` that the `x` of two points leave (`exists_verify_flipped`): the points are multiples of
each other, and for every ratio but a few there is an `s` that a flipped bit multiplies by it.
-/

namespace KeyRecovery

namespace Curve

variable {C : Curve} [hC : C.IsElliptic]

theorem eq_or_eq_neg_of_x_eq {g h : C.PointGroup} (hg : g ≠ 0) (hh : h ≠ 0)
    (hx : (C.coordinates g).x = (C.coordinates h).x) : g = h ∨ g = -h := by
  rcases g with _ | ⟨x, y, hn⟩
  · exact absurd rfl hg
  rcases h with _ | ⟨x', y', hn'⟩
  · exact absurd rfl hh
  obtain rfl : x = x' := ZMod.val_injective _ (Int.ofNat_inj.1 hx)
  rw [WeierstrassCurve.Affine.Point.neg_some, WeierstrassCurve.Affine.Point.some.injEq,
    WeierstrassCurve.Affine.Point.some.injEq]
  exact (WeierstrassCurve.Affine.Y_eq_of_X_eq hn.1 hn'.1 rfl).imp (⟨rfl, ·⟩) (⟨rfl, ·⟩)

end Curve

namespace Ecdsa

open Curve
open Secp256k1 (curve ScalarField base)

/-! ## Opposite scalars -/

section Opposite

variable {Q : Affine} {digest : Bytes} {g : curve.PointGroup} {z : ScalarField} {r s s' : Int}

theorem noncePoint_opposite (g : curve.PointGroup) (z : ScalarField) (r s : Int) :
    noncePoint g z r (curve.n - s) = -noncePoint g z r s := by
  rw [noncePoint_eq, noncePoint_eq, Int.cast_sub, Secp256k1.intCast_n, zero_sub, inv_neg, neg_smul]

/-- All elements but the identity have the order of the scalars. -/
theorem intCast_eq_of_noncePoint_eq (hne : noncePoint g z r s ≠ 0)
    (h : noncePoint g z r s' = noncePoint g z r s) : (s' : ScalarField) = s := by
  rw [noncePoint_eq] at hne h
  rw [noncePoint_eq] at h
  have hsum : z • base + (r : ScalarField) • g ≠ 0 := fun h0 => hne (by rw [h0, smul_zero])
  exact inv_injective (smul_left_injective ScalarField hsum h)

theorem IsSignature.opposite (h : IsSignature g z r s) : IsSignature g z r (curve.n - s) := by
  obtain ⟨hr, hs, hne, hx⟩ := h
  rw [IsSignature, noncePoint_opposite, coordinates_neg_x]
  exact ⟨hr, hs.opposite, neg_ne_zero.2 hne, hx⟩

/-- Two numbers below the field at most have the remainder `r`. -/
theorem isSignature_iff_x : IsSignature g z r s ↔ (InRange r ∧ InRange s)
    ∧ ((curve.coordinates (noncePoint g z r s)).x = r
      ∨ (curve.coordinates (noncePoint g z r s)).x = r + curve.n) := by
  constructor
  · rintro ⟨hr, hs, hne, hx⟩
    rw [x_emod_order (isSolution_coordinates hne).1] at hx
    refine ⟨⟨hr, hs⟩, ?_⟩
    split_ifs at hx
    · exact .inr (eq_add_of_sub_eq hx)
    · exact .inl hx
  · rintro ⟨⟨hr, hs⟩, hx⟩
    refine ⟨hr, hs, ?_, ?_⟩
    · intro h0
      have hzero : (curve.coordinates (noncePoint g z r s)).x = 0 := by
        rw [h0]
        rfl
      have hn : 0 < curve.n := by decide
      have := hr.1
      omega
    · rcases hx with hx | hx
      · rw [hx, hr.emod]
      · rw [hx, Int.add_emod_right, hr.emod]

theorem IsSignature.eq_or_eq_of_x_eq (h : IsSignature g z r s) (h' : IsSignature g z r s')
    (hx : (curve.coordinates (noncePoint g z r s')).x
      = (curve.coordinates (noncePoint g z r s)).x) : s' = s ∨ s' = curve.n - s := by
  have ho := h.opposite
  rcases eq_or_eq_neg_of_x_eq h'.2.2.1 h.2.2.1 hx with he | he
  · exact .inl (h'.2.1.eq_of_intCast_eq h.2.1 (intCast_eq_of_noncePoint_eq h.2.2.1 he))
  · rw [← noncePoint_opposite] at he
    exact .inr (h'.2.1.eq_of_intCast_eq ho.2.1 (intCast_eq_of_noncePoint_eq ho.2.2.1 he))

/-- The elements of `s` and `s'` have both `x` of the remainder `r`, one each. -/
def TakeBoth (g : curve.PointGroup) (z : ScalarField) (r s s' : Int) : Prop :=
  r + curve.n < curve.p
    ∧ ((curve.coordinates (noncePoint g z r s)).x = r
        ∧ (curve.coordinates (noncePoint g z r s')).x = r + curve.n
      ∨ (curve.coordinates (noncePoint g z r s)).x = r + curve.n
        ∧ (curve.coordinates (noncePoint g z r s')).x = r)

/-- All that is a signature beside `(r, s)`. -/
theorem IsSignature.iff_eq_or_eq_or_takeBoth (h : IsSignature g z r s) :
    IsSignature g z r s'
      ↔ s' = s ∨ s' = curve.n - s ∨ InRange s' ∧ TakeBoth g z r s s' := by
  constructor
  · intro h'
    have hp := (isSolution_coordinates h.2.2.1).1.2
    have hp' := (isSolution_coordinates h'.2.2.1).1.2
    rcases (isSignature_iff_x.1 h).2 with hx | hx <;>
      rcases (isSignature_iff_x.1 h').2 with hx' | hx'
    · exact (h.eq_or_eq_of_x_eq h' (hx'.trans hx.symm)).imp_right .inl
    · exact .inr (.inr ⟨h'.2.1, hx' ▸ hp', .inl ⟨hx, hx'⟩⟩)
    · exact .inr (.inr ⟨h'.2.1, hx ▸ hp, .inr ⟨hx, hx'⟩⟩)
    · exact (h.eq_or_eq_of_x_eq h' (hx'.trans hx.symm)).imp_right .inl
  · rintro (rfl | rfl | ⟨hs', -, hx⟩)
    · exact h
    · exact h.opposite
    · exact isSignature_iff_x.2 ⟨⟨h.1, hs'⟩, hx.symm.imp And.right And.right⟩

/-- No `x` above the order has the remainder `r`. -/
theorem IsSignature.iff_eq_or_eq (h : IsSignature g z r s) (hp : curve.p ≤ r + curve.n) :
    IsSignature g z r s' ↔ s' = s ∨ s' = curve.n - s := by
  have hboth : ¬ TakeBoth g z r s s' := fun hb => absurd hb.1 (not_lt.2 hp)
  rw [h.iff_eq_or_eq_or_takeBoth, eq_false hboth, and_false, or_false]

/-- Beside an accepted `s` its opposite is accepted, and nothing else where `r` is too large to be
the remainder of an `x` above the order. -/
theorem verify_malleable (hQ : curve.IsSolution Q)
    (h : verify (PublicKey.uncompressed Q) digest r s none = .ok true) :
    verify (PublicKey.uncompressed Q) digest r (curve.n - s) none = .ok true
    ∧ (curve.p ≤ r + curve.n → ∀ s', ∃ accepted,
      verify (PublicKey.uncompressed Q) digest r s' none = .ok accepted
        ∧ (accepted = true ↔ s' = s ∨ s' = curve.n - s)) := by
  obtain ⟨hl, hsig⟩ := (verify_eq_true_iff hQ).1 h
  refine ⟨(verify_eq_true_iff hQ).2 ⟨hl, hsig.opposite⟩, fun hp s' => ?_⟩
  obtain ⟨accepted, hv, -⟩ := verify_eq hQ digest r s' none
  have hiff : verify (PublicKey.uncompressed Q) digest r s' none = .ok true ↔ _ :=
    verify_eq_true_iff hQ
  rw [hv, Except.ok.injEq, hsig.iff_eq_or_eq hp, eq_true hl, true_and] at hiff
  exact ⟨accepted, hv, hiff⟩

/-- The nonce `1` and the key `1`, for a digest of zeros. -/
theorem verify_malleable_base :
    curve.IsSolution ⟨curve.gx, curve.gy⟩
    ∧ verify (PublicKey.uncompressed ⟨curve.gx, curve.gy⟩) (List.replicate 32 0) curve.gx curve.gx
      none = .ok true
    ∧ curve.p ≤ curve.gx + curve.n
    ∧ verify (PublicKey.uncompressed ⟨curve.gx, curve.gy⟩) (List.replicate 32 0) curve.gx
      (curve.n - curve.gx) none = .ok true
    ∧ verify (PublicKey.uncompressed ⟨curve.gx, curve.gy⟩) (List.replicate 32 0) curve.gx 1
      none = .ok false := by
  have hQ := Secp256k1.isSolution_base
  have h := verify_base
  have hp : curve.p ≤ curve.gx + curve.n := by decide
  obtain ⟨hopposite, hexact⟩ := verify_malleable hQ h
  obtain ⟨accepted, hv, hiff⟩ := hexact hp 1
  refine ⟨hQ, h, hp, hopposite, ?_⟩
  rw [hv, Bool.eq_false_iff.2 fun ha => absurd (hiff.1 ha) (by decide)]

end Opposite

/-! ## A flipped bit -/

/-- `s` with the bit at `i` flipped. -/
def flipped (s : Int) (i : ℕ) : Int := (s.toNat ^^^ 2 ^ i : ℕ)

theorem natCast_xor_two_pow (m i : ℕ) :
    ((m ^^^ 2 ^ i : ℕ) : Int) = if m / 2 ^ i % 2 = 0 then (m : Int) + 2 ^ i else m - 2 ^ i := by
  induction i generalizing m with
  | zero =>
    rw [pow_zero, pow_zero, Nat.div_one]
    split_ifs with h
    · rw [Nat.xor_one_of_even (Nat.even_iff.2 h), Nat.cast_add, Nat.cast_one]
    · rw [Nat.xor_one_of_odd (Nat.odd_iff.2 (Nat.mod_two_ne_zero.1 h))]
      omega
  | succ i ih =>
    -- The lowest bit stays, and the bits above it are those of the half.
    have hmod : (m ^^^ 2 ^ (i + 1)) % 2 = m % 2 := by
      rw [Nat.xor_mod_two_eq, pow_succ, Nat.add_mul_mod_self_right]
    have hdiv : (m ^^^ 2 ^ (i + 1)) / 2 = m / 2 ^^^ 2 ^ i := by
      rw [Nat.xor_div_two, pow_succ, Nat.mul_div_cancel _ two_pos]
    have hhalf := ih (m / 2)
    rw [← hdiv, Nat.div_div_eq_div_mul, ← pow_succ'] at hhalf
    rw [pow_succ' (2 : Int)]
    split_ifs at hhalf ⊢ <;> omega

theorem flipped_eq {s : Int} (hs : 0 ≤ s) (i : ℕ) :
    flipped s i = if s.toNat / 2 ^ i % 2 = 0 then s + 2 ^ i else s - 2 ^ i := by
  rw [flipped, natCast_xor_two_pow, Int.toNat_of_nonneg hs]

theorem flipped_ne {s : Int} (hs : 0 ≤ s) (i : ℕ) : flipped s i ≠ s := by
  have : (0 : Int) < 2 ^ i := by positivity
  rw [flipped_eq hs]
  split_ifs <;> omega

/-- The order is `1` modulo `4`, so the number just below its half is even. -/
theorem flipped_eq_opposite_iff {s : Int} (hs : 0 ≤ s) (i : ℕ) :
    flipped s i = curve.n - s ↔ i = 0 ∧ (2 * s + 1 = curve.n ∨ 2 * s = curve.n + 1) := by
  have hn : curve.n % 4 = 1 := by decide
  generalize curve.n = n at hn ⊢
  rw [flipped_eq hs]
  rcases i with _ | i
  · rw [pow_zero, pow_zero, Nat.div_one]
    split_ifs <;> omega
  · have hpow : (2 : Int) ^ (i + 1) = 2 * 2 ^ i := pow_succ' 2 i
    rw [eq_false (Nat.add_one_ne_zero i), false_and, iff_false]
    split_ifs <;> omega

variable {Q : Affine} {digest : Bytes} {g : curve.PointGroup} {z : ScalarField} {r s : Int}
  {supplied : Option Int}

theorem IsSignature.flipped_iff (h : IsSignature g z r s) (i : ℕ) :
    IsSignature g z r (flipped s i)
      ↔ i = 0 ∧ (2 * s + 1 = curve.n ∨ 2 * s = curve.n + 1)
        ∨ InRange (flipped s i) ∧ TakeBoth g z r s (flipped s i) := by
  have hs := h.2.1.1.le
  rw [h.iff_eq_or_eq_or_takeBoth, eq_false (flipped_ne hs i), false_or, flipped_eq_opposite_iff hs]

/-- Where a signature was accepted, one with a flipped bit of `s` is refused, whatever inverse is
supplied, but for the opposite and for an element of the other `x`. These are accepted, unless what
is supplied is not an inverse. -/
theorem verify_flipped (hQ : curve.IsSolution Q)
    (h : verify (PublicKey.uncompressed Q) digest r s supplied = .ok true) (i : ℕ)
    (supplied' : Option Int) :
    ∃ accepted, verify (PublicKey.uncompressed Q) digest r (flipped s i) supplied' = .ok accepted
      ∧ (accepted = true ↔ (∀ u, supplied' = some u → u * flipped s i % curve.n = 1)
        ∧ (i = 0 ∧ (2 * s + 1 = curve.n ∨ 2 * s = curve.n + 1)
          ∨ InRange (flipped s i) ∧ TakeBoth (curve.toGroup (.ofAffine Q)) (digestScalar digest)
            r s (flipped s i))) := by
  obtain ⟨first, hfirst, hiff⟩ := verify_eq hQ digest r s supplied
  rw [h, Except.ok.injEq] at hfirst
  obtain ⟨hl, -, hsig⟩ := hiff.1 hfirst.symm
  obtain ⟨accepted, hv, hiff'⟩ := verify_eq hQ digest r (flipped s i) supplied'
  refine ⟨accepted, hv, hiff'.trans ?_⟩
  rw [eq_true hl, true_and, hsig.flipped_iff i]

/-- The nonce `1` and the key `1`, for a digest of zeros. -/
theorem verify_flipped_base :
    curve.IsSolution ⟨curve.gx, curve.gy⟩
    ∧ verify (PublicKey.uncompressed ⟨curve.gx, curve.gy⟩) (List.replicate 32 0) curve.gx curve.gx
      none = .ok true
    ∧ verify (PublicKey.uncompressed ⟨curve.gx, curve.gy⟩) (List.replicate 32 0) curve.gx
      (flipped curve.gx 255) none = .ok false := by
  have hQ := Secp256k1.isSolution_base
  have h := verify_base
  refine ⟨hQ, h, ?_⟩
  obtain ⟨accepted, hv, hiff⟩ := verify_flipped hQ h 255 none
  have hrefused : accepted = false := by
    refine Bool.eq_false_iff.2 fun ha => ?_
    rcases (hiff.1 ha).2 with ⟨hi, -⟩ | ⟨-, hp, -⟩
    · exact absurd hi (by decide)
    · exact absurd hp (by decide)
  rw [hv, hrefused]

/-- For the digest of `s - r` the nonce and the key are `1`. With `s` just below half the order, the
number above it is the opposite. -/
theorem verify_flipped_half :
    curve.IsSolution ⟨curve.gx, curve.gy⟩
    ∧ (BigEndian.encode scalarLength ((curve.n - 1) / 2 - curve.gx).toNat).length = 32
    ∧ verify (PublicKey.uncompressed ⟨curve.gx, curve.gy⟩)
      (BigEndian.encode scalarLength ((curve.n - 1) / 2 - curve.gx).toNat) curve.gx
      ((curve.n - 1) / 2) none = .ok true
    ∧ verify (PublicKey.uncompressed ⟨curve.gx, curve.gy⟩)
      (BigEndian.encode scalarLength ((curve.n - 1) / 2 - curve.gx).toNat) curve.gx
      (flipped ((curve.n - 1) / 2) 0) none = .ok true := by
  have hQ := Secp256k1.isSolution_base
  have hl : (BigEndian.encode scalarLength ((curve.n - 1) / 2 - curve.gx).toNat).length = 32 :=
    BigEndian.length_encode ..
  have hsig : IsSignature base
      (digestScalar (BigEndian.encode scalarLength ((curve.n - 1) / 2 - curve.gx).toNat)) curve.gx
      ((curve.n - 1) / 2) := by
    refine isSignature_base_of_add_eq (by decide) ?_
    rw [digestScalar_encode (by decide), ← Int.cast_natCast, Int.toNat_of_nonneg (by decide),
      ← Int.cast_add, sub_add_cancel]
  have hflipped : flipped ((curve.n - 1) / 2) 0 = curve.n - (curve.n - 1) / 2 :=
    (flipped_eq_opposite_iff (by decide) 0).2 ⟨rfl, by decide⟩
  refine ⟨hQ, hl, (verify_eq_true_iff hQ).2 ⟨hl.ge, hsig⟩, ?_⟩
  rw [hflipped]
  exact (verify_eq_true_iff hQ).2 ⟨hl.ge, hsig.opposite⟩

/-- Elements of different `x` are multiples of each other, and neither equal nor opposite. -/
theorem exists_smul_eq_of_x_ne {g h : curve.PointGroup} (hg : g ≠ 0) (hh : h ≠ 0)
    (hx : (curve.coordinates h).x ≠ (curve.coordinates g).x) :
    ∃ k : ScalarField, h = k • g ∧ k ≠ 0 ∧ k ≠ 1 ∧ k ≠ -1 := by
  have hmem : h ∈ AddSubgroup.zmultiples g :=
    mem_zmultiples_of_prime_card Secp256k1.natCard_pointGroup hg
  obtain ⟨k, rfl⟩ := hmem
  refine ⟨k, (Int.cast_smul_eq_zsmul ScalarField k g).symm, ?_⟩
  simp only [← Int.cast_smul_eq_zsmul ScalarField] at hh hx
  generalize (k : ScalarField) = k at hh hx ⊢
  refine ⟨?_, ?_, ?_⟩
  · rintro rfl
    exact hh (zero_smul ScalarField g)
  · rintro rfl
    exact hx (by rw [one_smul])
  · rintro rfl
    exact hx (by rw [neg_smul, one_smul, coordinates_neg_x])

/-- Some `s` is `w` times what one of its two lowest bits adds when it is flipped. -/
theorem exists_flipped_eq {w : ScalarField} (h0 : w ≠ 0) (h1 : w ≠ -1) :
    ∃ s i, InRange s ∧ InRange (flipped s i) ∧ w * (flipped s i - s) = s := by
  obtain ⟨u, ⟨hu0, hun⟩, rfl⟩ : ∃ u : Int, InRange u ∧ (u : ScalarField) = w :=
    ⟨w.val, inRange_val h0, by rw [Int.cast_natCast, ZMod.natCast_zmod_val]⟩
  have hn : curve.n % 4 = 1 := by decide
  have hne : u ≠ curve.n - 1 := by
    rintro rfl
    rw [Int.cast_sub, Secp256k1.intCast_n, Int.cast_one, zero_sub] at h1
    exact h1 rfl
  rcases Int.emod_two_eq_zero_or_one u with heven | hodd
  · have hf : flipped u 0 = u + 1 := by
      rw [flipped_eq hu0.le, pow_zero, pow_zero, Nat.div_one, if_pos (by omega)]
    refine ⟨u, 0, ⟨hu0, hun⟩, hf ▸ ⟨by omega, by omega⟩, ?_⟩
    rw [hf]
    push_cast
    ring
  -- The bit above the lowest is clear in `2 * u - n` and set in `n - 2 * u`.
  rcases le_or_gt curve.n (2 * u) with hle | hgt
  · have hf : flipped (2 * u - curve.n) 1 = 2 * u - curve.n + 2 := by
      rw [flipped_eq (by omega), pow_one, pow_one, if_pos (by omega)]
    refine ⟨2 * u - curve.n, 1, ⟨by omega, by omega⟩, hf ▸ ⟨by omega, by omega⟩, ?_⟩
    rw [hf]
    push_cast
    rw [Secp256k1.intCast_n]
    ring
  · have hf : flipped (curve.n - 2 * u) 1 = curve.n - 2 * u - 2 := by
      rw [flipped_eq (by omega), pow_one, pow_one, if_neg (by omega)]
    refine ⟨curve.n - 2 * u, 1, ⟨by omega, by omega⟩, hf ▸ ⟨by omega, by omega⟩, ?_⟩
    rw [hf]
    push_cast
    rw [Secp256k1.intCast_n]
    ring

/-- The key that the element `W` and a digest of zeros leave. -/
theorem isSignature_zero {W : Affine} (hW : curve.IsSolution W) (hr : InRange r)
    (hs : InRange s) (hx : W.x % curve.n = r)
    (hg : g = (r : ScalarField)⁻¹ • (s : ScalarField) • curve.toGroup (.ofAffine W)) :
    IsSignature g 0 r s := by
  have hnonce : noncePoint g 0 r s = curve.toGroup (.ofAffine W) := by
    have h0 : (0 : ScalarField) • base = 0 := zero_smul ScalarField base
    rw [noncePoint_eq_iff hr hs, h0, sub_zero, hg]
  rw [IsSignature, hnonce, coordinates_toGroup hW]
  exact ⟨hr, hs, hW.toGroup_ne_zero, hx⟩

/-- Wherever two points of the curve have an `x` of one remainder `r`, there is a key for which the
element of some `s` is one of them and that of `s` with a bit flipped the other. -/
theorem exists_verify_flipped {W W' : Affine} (hW : curve.IsSolution W)
    (hW' : curve.IsSolution W') (hr : InRange W.x) (hx : W'.x = W.x + curve.n) :
    ∃ Q s i, curve.IsSolution Q
      ∧ verify (PublicKey.uncompressed Q) (List.replicate 32 0) W.x s none = .ok true
      ∧ verify (PublicKey.uncompressed Q) (List.replicate 32 0) W.x (flipped s i) none = .ok true
      ∧ flipped s i ≠ curve.n - s := by
  obtain ⟨k, hk, hk0, hk1, hkneg⟩ := exists_smul_eq_of_x_ne hW.toGroup_ne_zero hW'.toGroup_ne_zero
    (by
      have hn : 0 < curve.n := by decide
      rw [coordinates_toGroup hW', coordinates_toGroup hW, hx]
      omega)
  have hsub : k - 1 ≠ 0 := sub_ne_zero.2 hk1
  have hinv : (k - 1)⁻¹ ≠ -1 := by
    intro h
    rw [inv_eq_iff_eq_inv, inv_neg, inv_one] at h
    exact hk0 (by linear_combination h)
  obtain ⟨s, i, hs, hs', hratio⟩ := exists_flipped_eq (inv_ne_zero hsub) hinv
  have hmul : (flipped s i : ScalarField) = k * s := by
    rw [inv_mul_eq_iff_eq_mul₀ hsub] at hratio
    linear_combination hratio
  -- The key for which the element of `s` is the point above the order.
  have hg : (W.x : ScalarField)⁻¹ • (s : ScalarField) • curve.toGroup (.ofAffine W') ≠ 0 :=
    smul_ne_zero (inv_ne_zero hr.ne_zero) (smul_ne_zero hs.ne_zero hW'.toGroup_ne_zero)
  obtain ⟨Q, hQ, hkey⟩ : ∃ Q, curve.IsSolution Q ∧ curve.toGroup (.ofAffine Q)
      = (W.x : ScalarField)⁻¹ • (s : ScalarField) • curve.toGroup (.ofAffine W') :=
    ⟨_, isSolution_coordinates hg, toGroup_coordinates hg⟩
  refine ⟨Q, s, i, hQ, ?_, ?_, ?_⟩
  · rw [verify_eq_true_iff hQ, digestScalar_replicate]
    refine ⟨by simp, isSignature_zero hW' hr hs ?_ hkey⟩
    rw [hx, Int.add_emod_right, hr.emod]
  · rw [verify_eq_true_iff hQ, digestScalar_replicate]
    refine ⟨by simp, isSignature_zero hW hr hs' hr.emod ?_⟩
    rw [hkey, hk, hmul, smul_smul (s : ScalarField), mul_comm]
  · intro hopposite
    rw [hopposite, Int.cast_sub, Secp256k1.intCast_n, zero_sub] at hmul
    exact hkneg (mul_right_cancel₀ hs.ne_zero (by linear_combination -hmul))

/-- There are two such points for `r = 2`. -/
example :
    curve.IsSolution
      ⟨2, 0x990418d84d45f61f60a56728f5a10317bdb3a05bda4425e3aee079f8a847a8d1⟩
    ∧ curve.IsSolution
      ⟨2 + curve.n, 0x36b1aa62eb77c1973025cbcbea9740eed8eacdab8772268b395064453269d1d3⟩
    ∧ InRange 2 := by decide +kernel

end Ecdsa

end KeyRecovery
