import Mathlib.AlgebraicGeometry.EllipticCurve.Affine.Point
import Mathlib.FieldTheory.Finite.Basic
import Mathlib.Tactic.LinearCombination
import KeyRecovery.Proofs.Curve.Scaling

/-!
# Doubling and adding triples is adding in the group of the curve

Cleared of denominators, the tangent and the chord formula are identities over any commutative ring:
what they answer solves the equation if their operands do (`tangent_identity`, `chord_identity`).
So `double` and `add` stay on the curve (`OnCurve.double`, `OnCurve.add`) where the modulus is
composite too and a `z` may be a zero divisor, and nothing is asked of the coefficients.

For a prime modulus above `3` and coefficients with a nonzero discriminant, the curve is an elliptic
curve over the residues, and its points with the one at infinity are a group under the chord and
tangent law. `StandsFor` says which element of the group a triple stands for. It asks nothing of the
coordinates but their residues, so an answer of `double` or `add` may be put into either again:
whatever the branch they take, the answer stands for twice the element (`StandsFor.double`) or for
the sum of the two (`StandsFor.add`). For the rule on pairs, which these answers are known to
follow, is the law of the group where it is applied to solutions of the equation (`pair_add`).

`toGroup` takes a triple to the element it stands for, and `coordinates` takes an element to its
pair of reduced coordinates. On the pairs that solve the equation and the elements that are not the
identity the two are each other's inverse (`coordinates_toGroup`, `toGroup_coordinates`). `affine?`
goes both ways at once: it answers the coordinates of the element a triple stands for, and nothing
where that is the identity.
-/

namespace KeyRecovery.Curve

/-! ## The equation -/

section OnTheCurve

section Identities

variable {R : Type*} [CommRing R] {a b : R}

theorem tangent_identity {x y m s x' : R} (h : y ^ 2 = x ^ 3 + a * x + b) (hm : m = 3 * x ^ 2 + a)
    (hs : s = 4 * x * y ^ 2) (hx' : x' = m ^ 2 - 2 * s) :
    (m * (s - x') - 8 * y ^ 4) ^ 2 = x' ^ 3 + a * x' * (2 * y) ^ 4 + b * (2 * y) ^ 6 := by
  subst hx' hs hm
  linear_combination 64 * y ^ 6 * h

/-- The difference of the two equations is a multiple of what the chord through the two solutions
leaves; no step divides by `u' - u`. -/
theorem chord_identity {u u' s s' h x' : R} (h₁ : s ^ 2 = u ^ 3 + a * u + b)
    (h₂ : s' ^ 2 = u' ^ 3 + a * u' + b) (hh : h = u' - u)
    (hx' : x' = 4 * (s' - s) ^ 2 - 4 * h ^ 3 - 8 * u * h ^ 2) :
    (2 * (s' - s) * (4 * u * h ^ 2 - x') - 8 * s * h ^ 3) ^ 2
      = x' ^ 3 + a * x' * (2 * h) ^ 4 + b * (2 * h) ^ 6 := by
  subst hx' hh
  linear_combination 64 * (u' - u) ^ 6 * h₁
    - 64 * (u' - u) ^ 3 * (3 * u * (u' - u) ^ 2 + (u' - u) ^ 3 - (s' - s) ^ 2) * (h₂ - h₁)

end Identities

variable (C : Curve)

/-- At infinity, or a solution of the equation cleared of denominators. -/
def OnCurve (P : Point) : Prop :=
  P.z = 0 ∨ (P.y : C.BaseField) ^ 2 = P.x ^ 3 + C.a * P.x * P.z ^ 4 + C.b * P.z ^ 6

variable {C} [hC : C.HasModulus] {P Q : Point} {W : Affine}

theorem isSolution_iff_sq :
    C.IsSolution W ↔ ((0 ≤ W.x ∧ W.x < C.p) ∧ (0 ≤ W.y ∧ W.y < C.p))
      ∧ (W.y : C.BaseField) ^ 2 = (C.cubic W.x : C.BaseField) := by
  unfold IsSolution cubic
  rw [reduce_eq_reduce_iff, intCast_reduce, Int.cast_mul, ← sq, ← and_assoc]

theorem IsSolution.onCurve (h : C.IsSolution W) : C.OnCurve (.ofAffine W) := by
  have he := (isSolution_iff_sq.1 h).2
  rw [cubic_eq] at he
  right
  simp only [Point.ofAffine, Int.cast_one]
  linear_combination he

omit hC in
theorem onCurve_infinity : C.OnCurve Point.infinity := .inl rfl

theorem OnCurve.double (hP : C.OnCurve P) : C.OnCurve (C.double P) := by
  unfold Curve.double
  split_ifs with h0
  · exact onCurve_infinity
  · have he := hP.resolve_left fun hz => h0 (.inl hz)
    have he' : (P.y : C.BaseField) ^ 2
        = P.x ^ 3 + C.a * P.z ^ 4 * P.x + C.b * P.z ^ 6 := by linear_combination he
    right
    simp only [intCast_reduce, Int.cast_mul, Int.cast_add, Int.cast_sub, Int.cast_ofNat]
    linear_combination tangent_identity he' rfl rfl rfl

theorem OnCurve.add (hP : C.OnCurve P) (hQ : C.OnCurve Q) : C.OnCurve (C.add P Q) := by
  have hdouble := hP.double
  unfold Curve.add
  split_ifs with hz hz'
  · exact hQ
  · exact hP
  simp only []
  split_ifs with hu hs
  · exact hdouble
  · exact onCurve_infinity
  · have he := hP.resolve_left hz
    have he' := hQ.resolve_left hz'
    -- Brought to one `z`, the two solve one equation.
    have h₁ : ((P.y : C.BaseField) * Q.z ^ 3) ^ 2 = (P.x * Q.z ^ 2) ^ 3
        + C.a * (P.z * Q.z) ^ 4 * (P.x * Q.z ^ 2) + C.b * (P.z * Q.z) ^ 6 := by
      linear_combination (Q.z : C.BaseField) ^ 6 * he
    have h₂ : ((Q.y : C.BaseField) * P.z ^ 3) ^ 2 = (Q.x * P.z ^ 2) ^ 3
        + C.a * (P.z * Q.z) ^ 4 * (Q.x * P.z ^ 2) + C.b * (P.z * Q.z) ^ 6 := by
      linear_combination (P.z : C.BaseField) ^ 6 * he'
    right
    simp only [intCast_reduce, Int.cast_mul, Int.cast_sub, Int.cast_ofNat]
    linear_combination chord_identity h₁ h₂ rfl rfl

theorem OnCurve.neg (hP : C.OnCurve P) : C.OnCurve (C.neg P) := by
  refine hP.imp_right fun he => ?_
  simp only [Curve.neg, intCast_reduce, Int.cast_neg]
  linear_combination he

/-- The inverse of `z` clears the equation of `z`. -/
theorem OnCurve.isSolution (hP : C.OnCurve P) (h : C.affine? P = some W) : C.IsSolution W := by
  unfold affine? at h
  split_ifs at h with hz
  obtain ⟨i, hi, rfl⟩ := Option.map_eq_some_iff.1 h
  have hzi : (P.z : C.BaseField) * i = 1 := by
    have h1 := (inverse?_spec hC.one_lt hi).2
    rw [← Int.emod_eq_of_lt zero_le_one hC.one_lt] at h1
    exact_mod_cast modEq_iff_intCast_eq.1 h1
  have h4 : ((P.z : C.BaseField) * i) ^ 4 = 1 := by rw [hzi, one_pow]
  have h6 : ((P.z : C.BaseField) * i) ^ 6 = 1 := by rw [hzi, one_pow]
  have he := hP.resolve_left hz
  refine isSolution_iff_sq.2 ⟨⟨reduce_mem _, reduce_mem _⟩, ?_⟩
  rw [cubic_eq]
  simp only [scaled, intCast_reduce, Int.cast_mul]
  linear_combination (i : C.BaseField) ^ 6 * he + C.a * P.x * i ^ 2 * h4 + C.b * h6

end OnTheCurve

/-! ## The group -/

section Group

variable (C : Curve)

/-- The modulus is a prime above `3` and the curve has no singular point. -/
class IsElliptic : Prop where
  prime : C.p.toNat.Prime
  three_lt : 3 < C.p
  discriminant : ¬ C.p ∣ 4 * C.a ^ 3 + 27 * C.b ^ 2

instance [hC : C.IsElliptic] : C.HasOddPrime := ⟨hC.prime, by have := hC.three_lt; omega⟩

instance [C.IsElliptic] : Fact C.p.toNat.Prime := ⟨IsElliptic.prime⟩

/-- The equation over the residues. -/
def weierstrass : WeierstrassCurve.Affine C.BaseField where
  a₁ := 0
  a₂ := 0
  a₃ := 0
  a₄ := C.a
  a₆ := C.b

/-- The points that solve the equation, and the one at infinity. -/
abbrev PointGroup : Type := C.weierstrass.Point

variable {C}

section Equation

theorem equation_iff {x y : C.BaseField} :
    C.weierstrass.Equation x y ↔ y ^ 2 = x ^ 3 + C.a * x + C.b := by
  rw [WeierstrassCurve.Affine.equation_iff]
  simp [weierstrass]

theorem negY_eq (x y : C.BaseField) : C.weierstrass.negY x y = -y := by
  simp [WeierstrassCurve.Affine.negY, weierstrass]

theorem addX_eq (x₁ x₂ l : C.BaseField) : C.weierstrass.addX x₁ x₂ l = l ^ 2 - x₁ - x₂ := by
  simp [WeierstrassCurve.Affine.addX, weierstrass]

theorem addY_eq (x₁ x₂ y₁ l : C.BaseField) :
    C.weierstrass.addY x₁ x₂ y₁ l = l * (x₁ - (l ^ 2 - x₁ - x₂)) - y₁ := by
  rw [WeierstrassCurve.Affine.addY, negY_eq, WeierstrassCurve.Affine.negAddY, addX_eq]
  ring

variable [hC : C.IsElliptic]

instance : C.weierstrass.IsElliptic := by
  refine ⟨isUnit_iff_ne_zero.2 fun h => hC.discriminant ?_⟩
  have hd : (16 : C.BaseField) * (4 * C.a ^ 3 + 27 * C.b ^ 2) = 0 := by
    simp only [WeierstrassCurve.Δ, WeierstrassCurve.b₂, WeierstrassCurve.b₄, WeierstrassCurve.b₆,
      WeierstrassCurve.b₈, weierstrass] at h
    linear_combination -h
  have h2 : (16 : C.BaseField) ≠ 0 := by
    rw [show (16 : C.BaseField) = 2 ^ 4 by norm_num]
    exact pow_ne_zero 4 two_ne_zero_residue
  have h0 := (mul_eq_zero.1 hd).resolve_left h2
  rw [← intCast_eq_zero_iff_dvd]
  exact_mod_cast h0

/-- No solution of the equation is singular. -/
theorem nonsingular_iff {x y : C.BaseField} :
    C.weierstrass.Nonsingular x y ↔ y ^ 2 = x ^ 3 + C.a * x + C.b := by
  rw [← WeierstrassCurve.Affine.equation_iff_nonsingular, equation_iff]

end Equation

/-- A triple stands for the identity if its `z` is `0`, and for the affine point
`(x / z², y / z³)` if its `z` is a unit. -/
inductive StandsFor : Point → C.PointGroup → Prop
  | infinity {P : Point} (hz : P.z = 0) : StandsFor P 0
  | affine {P : Point} {x y : C.BaseField} (h : C.weierstrass.Nonsingular x y)
      (hz : (P.z : C.BaseField) ≠ 0) (hx : (P.x : C.BaseField) = x * P.z ^ 2)
      (hy : (P.y : C.BaseField) = y * P.z ^ 3) : StandsFor P (.some x y h)

section Operations

variable [hC : C.IsElliptic] {P Q : Point} {g h : C.PointGroup}

/-- The pair of an element, which the identity has none of. -/
def pair : C.PointGroup → Option (C.BaseField × C.BaseField)
  | .zero => none
  | .some x y _ => some (x, y)

omit hC in
theorem pair_injective : Function.Injective (pair (C := C)) := by
  rintro (_ | ⟨x, y, hn⟩) (_ | ⟨x', y', hn'⟩) he
  · rfl
  · simp [pair] at he
  · simp [pair] at he
  · simp only [pair, Option.some.injEq, Prod.mk.injEq] at he
    rwa [WeierstrassCurve.Affine.Point.some.injEq]

omit hC in
theorem standsFor_iff : StandsFor P g ↔ C.IsScaled P (pair g) := by
  constructor
  · intro hP
    cases hP with
    | infinity hz => exact .infinity hz
    | affine hn hz hx hy => exact .affine hz hx hy
  · intro hP
    rcases g with _ | ⟨x, y, hn⟩
    · cases hP with
      | infinity hz => exact .infinity hz
    · cases hP with
      | affine hz hx hy => exact .affine hn hz hx hy

/-- The slope of the tangent is that of the group law. -/
theorem pair_add_self (g : C.PointGroup) : pair (g + g) = C.twice (pair g) := by
  rcases g with _ | ⟨x, y, hn⟩
  · rfl
  simp only [pair, twice]
  split_ifs with hy0
  · rw [WeierstrassCurve.Affine.Point.add_self_of_Y_eq (by rw [negY_eq, hy0, neg_zero])]
  · have h2y : 2 * y ≠ 0 := mul_ne_zero two_ne_zero_residue hy0
    have hneg : y ≠ C.weierstrass.negY x y := by
      rw [negY_eq]
      exact fun h => h2y (by linear_combination h)
    have hl : C.weierstrass.slope x x y y = (3 * x ^ 2 + C.a) / (2 * y) := by
      rw [WeierstrassCurve.Affine.slope_of_Y_ne rfl hneg, negY_eq, sub_neg_eq_add, ← two_mul]
      simp [weierstrass]
    rw [WeierstrassCurve.Affine.Point.add_self_of_Y_ne hneg]
    simp only [lineSum, addX_eq, addY_eq, hl]

/-- Solutions of one `x` are equal or opposite, so the rule on pairs is the law of the group. -/
theorem pair_add (g h : C.PointGroup) : pair (g + h) = C.plus (pair g) (pair h) := by
  rcases g with _ | ⟨x, y, hn⟩
  · exact congrArg pair (zero_add h)
  rcases h with _ | ⟨x', y', hn'⟩
  · exact congrArg pair (add_zero (_ : C.PointGroup))
  simp only [pair, plus]
  split_ifs with hxx hyy
  · subst hxx hyy
    exact pair_add_self _
  · have hneg := (WeierstrassCurve.Affine.Y_eq_of_X_eq hn.1 hn'.1 hxx).resolve_left hyy
    rw [WeierstrassCurve.Affine.Point.add_of_Y_eq hxx hneg]
  · rw [WeierstrassCurve.Affine.Point.add_of_X_ne hxx]
    simp only [lineSum, addX_eq, addY_eq, WeierstrassCurve.Affine.slope_of_X_ne hxx]

theorem StandsFor.double (hP : StandsFor P g) : StandsFor (C.double P) (g + g) := by
  rw [standsFor_iff, pair_add_self]
  exact (standsFor_iff.1 hP).double

theorem StandsFor.add (hP : StandsFor P g) (hQ : StandsFor Q h) :
    StandsFor (C.add P Q) (g + h) := by
  rw [standsFor_iff, pair_add]
  exact (standsFor_iff.1 hP).add (standsFor_iff.1 hQ)

theorem StandsFor.neg (hP : StandsFor P g) : StandsFor (C.neg P) (-g) := by
  cases hP with
  | infinity hz => exact .infinity hz
  | @affine x y hn hz hx hy =>
    rw [WeierstrassCurve.Affine.Point.neg_some]
    refine .affine _ hz hx ?_
    unfold Curve.neg
    rw [intCast_reduce, Int.cast_neg, hy, negY_eq, neg_mul]

end Operations

end Group

/-! ## Affine points -/

section AffinePoints

variable (C : Curve) [hC : C.IsElliptic]

open scoped Classical in
/-- The element a triple stands for; the identity if it is at infinity or not on the curve. -/
noncomputable def toGroup (P : Point) : C.PointGroup :=
  if h : (P.z : C.BaseField) ≠ 0
      ∧ C.weierstrass.Nonsingular (P.x / (P.z : C.BaseField) ^ 2) (P.y / (P.z : C.BaseField) ^ 3)
    then .some _ _ h.2
  else 0

/-- The reduced coordinates of an element, which the identity has none of. -/
def coordinates : C.PointGroup → Affine
  | .zero => ⟨0, 0⟩
  | .some x y _ => ⟨x.val, y.val⟩

variable {C} {P : Point} {W W' : Affine} {g : C.PointGroup}

theorem StandsFor.toGroup_eq (hP : StandsFor P g) : C.toGroup P = g := by
  cases hP with
  | infinity hz =>
    unfold toGroup
    rw [dif_neg (by simp [hz])]
  | @affine x y hn hz hx hy =>
    have hx' : (P.x : C.BaseField) / P.z ^ 2 = x := by
      rw [hx, mul_div_cancel_right₀ _ (pow_ne_zero 2 hz)]
    have hy' : (P.y : C.BaseField) / P.z ^ 3 = y := by
      rw [hy, mul_div_cancel_right₀ _ (pow_ne_zero 3 hz)]
    have hn' : C.weierstrass.Nonsingular ((P.x : C.BaseField) / (P.z : C.BaseField) ^ 2)
        ((P.y : C.BaseField) / (P.z : C.BaseField) ^ 3) := by rwa [hx', hy']
    unfold toGroup
    rw [dif_pos ⟨hz, hn'⟩, WeierstrassCurve.Affine.Point.some.injEq]
    exact ⟨hx', hy'⟩

theorem isSolution_iff :
    C.IsSolution W ↔ ((0 ≤ W.x ∧ W.x < C.p) ∧ (0 ≤ W.y ∧ W.y < C.p))
      ∧ C.weierstrass.Nonsingular W.x W.y := by
  rw [isSolution_iff_sq, nonsingular_iff, cubic_eq]

theorem IsSolution.nonsingular (h : C.IsSolution W) : C.weierstrass.Nonsingular W.x W.y :=
  (isSolution_iff.1 h).2

theorem IsSolution.standsFor (h : C.IsSolution W) :
    StandsFor (Point.ofAffine W) (.some _ _ h.nonsingular : C.PointGroup) :=
  .affine _ (by simp [Point.ofAffine]) (by simp [Point.ofAffine]) (by simp [Point.ofAffine])

theorem IsSolution.toGroup_eq (h : C.IsSolution W) :
    C.toGroup (.ofAffine W) = .some _ _ h.nonsingular :=
  h.standsFor.toGroup_eq

theorem IsSolution.standsFor_toGroup (h : C.IsSolution W) :
    StandsFor (Point.ofAffine W) (C.toGroup (.ofAffine W)) :=
  h.toGroup_eq ▸ h.standsFor

theorem IsSolution.toGroup_ne_zero (h : C.IsSolution W) : C.toGroup (.ofAffine W) ≠ 0 := by
  rw [h.toGroup_eq]
  exact WeierstrassCurve.Affine.Point.some_ne_zero _

theorem coordinates_toGroup (h : C.IsSolution W) :
    C.coordinates (C.toGroup (.ofAffine W)) = W := by
  obtain ⟨x, y⟩ := W
  rw [h.toGroup_eq, coordinates, Affine.mk.injEq]
  exact ⟨val_intCast_of_mem h.1, val_intCast_of_mem h.2.1⟩

theorem isSolution_coordinates (hg : g ≠ 0) : C.IsSolution (C.coordinates g) := by
  rcases g with _ | ⟨x, y, hn⟩
  · exact absurd rfl hg
  · refine isSolution_iff.2 ⟨⟨val_mem x, val_mem y⟩, ?_⟩
    simpa [coordinates] using hn

theorem toGroup_coordinates (hg : g ≠ 0) : C.toGroup (.ofAffine (C.coordinates g)) = g := by
  rw [(isSolution_coordinates hg).toGroup_eq]
  rcases g with _ | ⟨x, y, hn⟩
  · exact absurd rfl hg
  · rw [WeierstrassCurve.Affine.Point.some.injEq]
    simp [coordinates]

theorem toGroup_injOn (h : C.IsSolution W) (h' : C.IsSolution W')
    (he : C.toGroup (.ofAffine W) = C.toGroup (.ofAffine W')) : W = W' := by
  rw [← coordinates_toGroup h, he, coordinates_toGroup h']

theorem StandsFor.affine?_eq (hP : StandsFor P g) (hg : g ≠ 0) :
    C.affine? P = some (C.coordinates g) := by
  rw [(standsFor_iff.1 hP).affine?_eq]
  rcases g with _ | ⟨x, y, hn⟩
  · exact absurd rfl hg
  · rfl

omit hC in
theorem StandsFor.affine?_of_eq_zero (hP : StandsFor P g) (hg : g = 0) : C.affine? P = none := by
  cases hP with
  | infinity hz => exact affine?_of_isInfinity C hz
  | affine hn => exact absurd hg (WeierstrassCurve.Affine.Point.some_ne_zero hn)

theorem StandsFor.affine?_eq_some_iff (hP : StandsFor P g) :
    C.affine? P = some W ↔ g ≠ 0 ∧ W = C.coordinates g := by
  by_cases hg : g = 0
  · rw [hP.affine?_of_eq_zero hg]
    exact ⟨fun h => by simp at h, fun h => absurd hg h.1⟩
  · rw [hP.affine?_eq hg, Option.some.injEq]
    exact ⟨fun h => ⟨hg, h.symm⟩, fun h => h.2.symm⟩

theorem StandsFor.z_eq_zero_iff (hP : StandsFor P g) : P.z = 0 ↔ g = 0 := by
  cases hP with
  | infinity hz => simp [hz]
  | affine hn hz =>
    refine ⟨fun h0 => absurd (by rw [h0, Int.cast_zero]) hz, fun h => ?_⟩
    exact absurd h (WeierstrassCurve.Affine.Point.some_ne_zero hn)

end AffinePoints

end KeyRecovery.Curve
