import Mathlib.Algebra.Field.ZMod
import Mathlib.Tactic.LinearCombination
import Mathlib.Tactic.Ring
import KeyRecovery.Curve
import KeyRecovery.Proofs.Arith

/-!
# Doubling and adding triples is the tangent and chord rule on pairs

Any modulus above `1` has residues to compute in, with zero divisors if it is composite; over an odd
prime they are a field in which `2` is not `0`. The formulas only look at the residues of what they
are given, and remainders are told apart by theirs (`eq_of_intCast_eq`).

Over an odd prime a triple whose `z` is `0` or a unit is scaled from at most one pair of residues,
on the curve or not (`IsScaled`). `double` and `add` test whether `y` and `z` are `0` themselves and
compare remainders elsewhere, yet what they answer is again such a triple, scaled from the pair that
the rule on pairs leads to (`IsScaled.double`, `IsScaled.add`). No equation is needed for this. The
affine point that a triple stands for is its pair, so triples are the same exactly if they are
scaled from one (`IsScaled.same_iff`).
-/

namespace KeyRecovery.Curve

/-! ## Residues -/

section Residues

variable (C : Curve)

/-- There is more than one residue. -/
class HasModulus : Prop where
  one_lt : 1 < C.p

/-- The residues are a field of odd characteristic. -/
class HasOddPrime : Prop where
  prime : C.p.toNat.Prime
  two_lt : 2 < C.p

instance [hC : C.HasOddPrime] : C.HasModulus := ⟨by have := hC.two_lt; omega⟩

instance [C.HasOddPrime] : Fact C.p.toNat.Prime := ⟨HasOddPrime.prime⟩

/-- The residues that coordinates are taken in. -/
abbrev BaseField : Type := ZMod C.p.toNat

variable {C}

theorem ne_zero_of_intCast_ne_zero {u : Int} (h : (u : C.BaseField) ≠ 0) : u ≠ 0 := by
  rintro rfl
  exact h Int.cast_zero

section Modulus

variable [hC : C.HasModulus]

theorem p_pos : 0 < C.p := by
  have := hC.one_lt
  omega

theorem HasModulus.p_ne_zero : C.p ≠ 0 := p_pos.ne'

theorem natCast_toNat_p : (C.p.toNat : Int) = C.p := Int.toNat_of_nonneg p_pos.le

instance : NeZero C.p.toNat := ⟨by have := hC.one_lt; omega⟩

theorem reduce_eq_emod (v : Int) : C.reduce v = v % C.p := Int.fmod_eq_emod_of_nonneg v p_pos.le

theorem reduce_nonneg (v : Int) : 0 ≤ C.reduce v := by
  rw [reduce_eq_emod]
  exact Int.emod_nonneg v HasModulus.p_ne_zero

theorem reduce_lt (v : Int) : C.reduce v < C.p := by
  rw [reduce_eq_emod]
  exact Int.emod_lt_of_pos v p_pos

theorem reduce_of_mem {v : Int} (h : 0 ≤ v ∧ v < C.p) : C.reduce v = v := by
  rw [reduce_eq_emod, Int.emod_eq_of_lt h.1 h.2]

theorem reduce_mem (v : Int) : 0 ≤ C.reduce v ∧ C.reduce v < C.p :=
  ⟨reduce_nonneg v, reduce_lt v⟩

/-- Congruent numbers are of one residue. -/
theorem modEq_iff_intCast_eq {u v : Int} : u ≡ v [ZMOD C.p] ↔ (u : C.BaseField) = v := by
  rw [ZMod.intCast_eq_intCast_iff, natCast_toNat_p]

/-- Equal remainders are equal residues. -/
theorem reduce_eq_reduce_iff {u v : Int} :
    C.reduce u = C.reduce v ↔ (u : C.BaseField) = v := by
  rw [reduce_eq_emod, reduce_eq_emod, ← modEq_iff_intCast_eq, Int.ModEq]

@[simp] theorem intCast_reduce (v : Int) : ((C.reduce v : Int) : C.BaseField) = v := by
  rw [← reduce_eq_reduce_iff, reduce_eq_emod, reduce_eq_emod, Int.emod_emod]

theorem reduce_eq_zero_iff {v : Int} : C.reduce v = 0 ↔ (v : C.BaseField) = 0 := by
  rw [← Int.cast_zero (R := C.BaseField), ← reduce_eq_reduce_iff, reduce_eq_emod 0,
    Int.zero_emod]

theorem intCast_eq_zero_iff_dvd {v : Int} : (v : C.BaseField) = 0 ↔ C.p ∣ v := by
  rw [ZMod.intCast_zmod_eq_zero_iff_dvd, natCast_toNat_p]

theorem intCast_p : (C.p : C.BaseField) = 0 := intCast_eq_zero_iff_dvd.2 dvd_rfl

/-- Numbers in range are told apart by their residues. -/
theorem eq_of_intCast_eq {u v : Int} (hu : 0 ≤ u ∧ u < C.p) (hv : 0 ≤ v ∧ v < C.p)
    (h : (u : C.BaseField) = v) : u = v := by
  rwa [← reduce_eq_reduce_iff, reduce_of_mem hu, reduce_of_mem hv] at h

theorem val_intCast_of_mem {v : Int} (h : 0 ≤ v ∧ v < C.p) : ((v : C.BaseField).val : Int) = v := by
  rw [ZMod.val_intCast, natCast_toNat_p, Int.emod_eq_of_lt h.1 h.2]

theorem val_mem (v : C.BaseField) : 0 ≤ (v.val : Int) ∧ (v.val : Int) < C.p :=
  ⟨Int.natCast_nonneg _, (Int.ofNat_lt.2 v.val_lt).trans_eq natCast_toNat_p⟩

theorem cubic_eq (x : Int) : (C.cubic x : C.BaseField) = (x : C.BaseField) ^ 3 + C.a * x + C.b := by
  unfold cubic
  rw [intCast_reduce]
  push_cast
  ring

end Modulus

theorem two_ne_zero_residue [hC : C.HasOddPrime] : (2 : C.BaseField) ≠ 0 := by
  intro h
  have h2 := hC.two_lt
  have h0 : (2 : Int) = 0 :=
    eq_of_intCast_eq (C := C) (by omega) (by omega) (by exact_mod_cast h)
  omega

end Residues

/-! ## The rule on pairs -/

section Scaling

variable (C : Curve)

/-- A triple with `0` for its `z` is scaled from nothing, and one with a unit from the pair
`(x / z², y / z³)`. -/
inductive IsScaled : Point → Option (C.BaseField × C.BaseField) → Prop
  | infinity {P : Point} (hz : P.z = 0) : IsScaled P none
  | affine {P : Point} {x y : C.BaseField} (hz : (P.z : C.BaseField) ≠ 0)
      (hx : (P.x : C.BaseField) = x * P.z ^ 2) (hy : (P.y : C.BaseField) = y * P.z ^ 3) :
      IsScaled P (some (x, y))

/-- Where the line of slope `l` through `(x, y)` leads that also meets the abscissa `x'`. -/
def lineSum (x y x' l : C.BaseField) : C.BaseField × C.BaseField :=
  (l ^ 2 - x - x', l * (x - (l ^ 2 - x - x')) - y)

/-- The tangent rule; at `y = 0` the tangent is vertical. -/
def twice [C.HasOddPrime] :
    Option (C.BaseField × C.BaseField) → Option (C.BaseField × C.BaseField)
  | none => none
  | some (x, y) =>
    if y = 0 then none else some (C.lineSum x y x ((3 * x ^ 2 + C.a) / (2 * y)))

/-- The chord rule, with the tangent for a pair and itself. -/
def plus [C.HasOddPrime] :
    Option (C.BaseField × C.BaseField) → Option (C.BaseField × C.BaseField) →
      Option (C.BaseField × C.BaseField)
  | none, w => w
  | some v, none => some v
  | some (x, y), some (x', y') =>
    if x = x' then if y = y' then C.twice (some (x, y)) else none
    else some (C.lineSum x y x' ((y - y') / (x - x')))

/-- The pair as numbers in range. -/
def ofResidues (v : C.BaseField × C.BaseField) : Affine := ⟨v.1.val, v.2.val⟩

variable {C} [hC : C.HasOddPrime] {P Q : Point} {v w : Option (C.BaseField × C.BaseField)}

theorem isScaled_div (hz : (P.z : C.BaseField) ≠ 0) :
    C.IsScaled P (some (P.x / (P.z : C.BaseField) ^ 2, P.y / (P.z : C.BaseField) ^ 3)) :=
  .affine hz (div_mul_cancel₀ _ (pow_ne_zero 2 hz)).symm (div_mul_cancel₀ _ (pow_ne_zero 3 hz)).symm

/-! ## The operations -/

/-- Where `y` is not `0` the tangent formula divides by nothing: with `l` the slope at `(x, y)` it
answers the pair `l` leads to, scaled. -/
theorem isScaled_double {x y l : C.BaseField} (hz : (P.z : C.BaseField) ≠ 0)
    (hx : (P.x : C.BaseField) = x * P.z ^ 2) (hy : (P.y : C.BaseField) = y * P.z ^ 3) (hy0 : y ≠ 0)
    (hl : l * (2 * y) = 3 * x ^ 2 + C.a) : C.IsScaled (C.double P) (some (C.lineSum x y x l)) := by
  have hY : (P.y : C.BaseField) ≠ 0 := hy ▸ mul_ne_zero hy0 (pow_ne_zero 3 hz)
  have hbranch : ¬ (P.z = 0 ∨ P.y = 0) :=
    not_or.2 ⟨ne_zero_of_intCast_ne_zero hz, ne_zero_of_intCast_ne_zero hY⟩
  unfold Curve.double lineSum
  rw [if_neg hbranch]
  refine .affine ?_ ?_ ?_
  all_goals simp only [intCast_reduce, Int.cast_mul, Int.cast_add, Int.cast_sub, Int.cast_ofNat]
  · exact mul_ne_zero (mul_ne_zero two_ne_zero_residue hY) hz
  · rw [hx, hy]
    linear_combination (-(P.z : C.BaseField) ^ 8 * (3 * x ^ 2 + C.a + 2 * y * l)) * hl
  · rw [hx, hy]
    linear_combination ((P.z : C.BaseField) ^ 12 * ((3 * x ^ 2 + C.a) ^ 2
      + (3 * x ^ 2 + C.a) * (2 * y * l) + (2 * y * l) ^ 2 - 12 * x * y ^ 2)) * hl

/-- Where the tangent is vertical either branch answers a triple at infinity. -/
theorem double_of_y_eq_zero (hy : (P.y : C.BaseField) = 0) : (C.double P).z = 0 := by
  unfold Curve.double
  split_ifs
  · rfl
  · refine reduce_eq_zero_iff.2 ?_
    rw [Int.cast_mul, Int.cast_mul, hy, mul_zero, zero_mul]

theorem IsScaled.double (hP : C.IsScaled P v) : C.IsScaled (C.double P) (C.twice v) := by
  cases hP with
  | infinity hz =>
    rw [double_of_isInfinity C hz]
    exact .infinity rfl
  | @affine x y hz hx hy =>
    simp only [twice]
    split_ifs with hy0
    · exact .infinity (double_of_y_eq_zero (by rw [hy, hy0, zero_mul]))
    · exact isScaled_double hz hx hy hy0 (div_mul_cancel₀ _ (mul_ne_zero two_ne_zero_residue hy0))

/-- Between pairs of different `x` the chord formula answers the pair that the slope `l` of their
chord leads to, scaled. -/
theorem isScaled_add {x y x' y' l : C.BaseField} (hz : (P.z : C.BaseField) ≠ 0)
    (hx : (P.x : C.BaseField) = x * P.z ^ 2) (hy : (P.y : C.BaseField) = y * P.z ^ 3)
    (hz' : (Q.z : C.BaseField) ≠ 0) (hx' : (Q.x : C.BaseField) = x' * Q.z ^ 2)
    (hy' : (Q.y : C.BaseField) = y' * Q.z ^ 3) (hne : x ≠ x') (hl : l * (x - x') = y - y') :
    C.IsScaled (C.add P Q) (some (C.lineSum x y x' l)) := by
  have hu : ¬ C.reduce (P.x * C.reduce (Q.z * Q.z)) = C.reduce (Q.x * C.reduce (P.z * P.z)) := by
    simp only [reduce_eq_reduce_iff, Int.cast_mul, intCast_reduce, hx, hx']
    intro h
    have h0 : (x - x') * ((P.z : C.BaseField) ^ 2 * (Q.z : C.BaseField) ^ 2) = 0 := by
      linear_combination h
    exact mul_ne_zero (sub_ne_zero.2 hne) (mul_ne_zero (pow_ne_zero 2 hz) (pow_ne_zero 2 hz')) h0
  have hk : (P.z : C.BaseField) * Q.z ≠ 0 := mul_ne_zero hz hz'
  unfold Curve.add lineSum
  rw [if_neg (ne_zero_of_intCast_ne_zero hz), if_neg (ne_zero_of_intCast_ne_zero hz')]
  simp only []
  rw [if_neg hu]
  refine .affine ?_ ?_ ?_
  all_goals simp only [intCast_reduce, Int.cast_mul, Int.cast_sub, Int.cast_ofNat, hx, hy, hx', hy']
  · intro h
    refine mul_ne_zero (mul_ne_zero two_ne_zero_residue (sub_ne_zero.2 hne)) (pow_ne_zero 3 hk) ?_
    linear_combination -h
  · linear_combination (-4 * ((P.z : C.BaseField) * Q.z) ^ 6 * (y - y' + l * (x - x'))) * hl
  · linear_combination (8 * ((P.z : C.BaseField) * Q.z) ^ 9 * (3 * x * (x - x') ^ 2
      - (y - y') ^ 2 - (y - y') * (l * (x - x')) - (l * (x - x')) ^ 2 - (x - x') ^ 3)) * hl

/-- Between pairs of one `x` the `y` decides between the tangent and infinity. -/
theorem add_of_x_eq {x y y' : C.BaseField} (hz : (P.z : C.BaseField) ≠ 0)
    (hx : (P.x : C.BaseField) = x * P.z ^ 2) (hy : (P.y : C.BaseField) = y * P.z ^ 3)
    (hz' : (Q.z : C.BaseField) ≠ 0) (hx' : (Q.x : C.BaseField) = x * Q.z ^ 2)
    (hy' : (Q.y : C.BaseField) = y' * Q.z ^ 3) :
    C.add P Q = if y = y' then C.double P else Point.infinity := by
  have hu : C.reduce (P.x * C.reduce (Q.z * Q.z)) = C.reduce (Q.x * C.reduce (P.z * P.z)) := by
    rw [reduce_eq_reduce_iff]
    simp only [Int.cast_mul, intCast_reduce, hx, hx']
    ring
  have hs : C.reduce (P.y * Q.z * C.reduce (Q.z * Q.z))
      = C.reduce (Q.y * P.z * C.reduce (P.z * P.z)) ↔ y = y' := by
    rw [reduce_eq_reduce_iff]
    simp only [Int.cast_mul, intCast_reduce, hy, hy']
    have hk : ((P.z : C.BaseField) * Q.z) ^ 3 ≠ 0 := pow_ne_zero 3 (mul_ne_zero hz hz')
    rw [← mul_left_inj' hk (a := y)]
    constructor <;> intro h <;> linear_combination h
  unfold Curve.add
  rw [if_neg (ne_zero_of_intCast_ne_zero hz), if_neg (ne_zero_of_intCast_ne_zero hz')]
  simp only []
  rw [if_pos hu]
  by_cases h : y = y'
  · rw [if_pos (hs.2 h), if_pos h]
  · rw [if_neg (mt hs.1 h), if_neg h]

theorem IsScaled.add (hP : C.IsScaled P v) (hQ : C.IsScaled Q w) :
    C.IsScaled (C.add P Q) (C.plus v w) := by
  have hdouble := hP.double
  cases hP with
  | infinity hz =>
    unfold Curve.add
    rwa [if_pos hz]
  | @affine x y hz hx hy =>
    cases hQ with
    | infinity hz' =>
      unfold Curve.add
      rw [if_neg (ne_zero_of_intCast_ne_zero hz), if_pos hz']
      exact .affine hz hx hy
    | @affine x' y' hz' hx' hy' =>
      simp only [plus]
      split_ifs with hxx hyy
      · subst hxx hyy
        rwa [add_of_x_eq hz hx hy hz' hx' hy', if_pos rfl]
      · subst hxx
        rw [add_of_x_eq hz hx hy hz' hx' hy', if_neg hyy]
        exact .infinity rfl
      · exact isScaled_add hz hx hy hz' hx' hy' hxx (div_mul_cancel₀ _ (sub_ne_zero.2 hxx))

/-! ## What a triple stands for -/

omit hC in
theorem IsScaled.z_eq_zero_iff (hP : C.IsScaled P v) : P.z = 0 ↔ v = none := by
  cases hP with
  | infinity hz => simp [hz]
  | affine hz => simp [ne_zero_of_intCast_ne_zero hz]

/-- The inverse of `z` undoes the scaling by `z`. -/
theorem IsScaled.affine?_eq (hP : C.IsScaled P v) : C.affine? P = v.map C.ofResidues := by
  cases hP with
  | infinity hz => exact affine?_of_isInfinity C hz
  | @affine x y hz hx hy =>
    have hi := mul_inv_cancel₀ hz
    unfold affine?
    rw [if_neg (ne_zero_of_intCast_ne_zero hz), inverse?_of_prime hz, Option.map_some,
      Option.map_some, Option.some.injEq, scaled, ofResidues, Affine.mk.injEq]
    set i : C.BaseField := (P.z : C.BaseField)⁻¹
    constructor
    · refine eq_of_intCast_eq (reduce_mem _) (val_mem _) ?_
      simp only [intCast_reduce, Int.cast_mul, Int.cast_natCast, ZMod.natCast_zmod_val]
      rw [hx]
      linear_combination x * (P.z * i + 1) * hi
    · refine eq_of_intCast_eq (reduce_mem _) (val_mem _) ?_
      simp only [intCast_reduce, Int.cast_mul, Int.cast_natCast, ZMod.natCast_zmod_val]
      rw [hy]
      linear_combination y * (P.z ^ 2 * i ^ 2 + P.z * i + 1) * hi

theorem ofResidues_injective : Function.Injective C.ofResidues := by
  rintro ⟨x, y⟩ ⟨x', y'⟩ h
  rw [ofResidues, ofResidues, Affine.mk.injEq, Int.ofNat_inj, Int.ofNat_inj] at h
  rw [Prod.mk.injEq]
  exact ⟨ZMod.val_injective _ h.1, ZMod.val_injective _ h.2⟩

/-- Triples are compared by what they are scaled from. -/
theorem IsScaled.same_iff (hP : C.IsScaled P v) (hQ : C.IsScaled Q w) :
    C.same P Q = true ↔ v = w := by
  unfold same
  split_ifs with h0
  · rw [hP.z_eq_zero_iff, hQ.z_eq_zero_iff] at h0
    rw [decide_eq_true_eq, hP.z_eq_zero_iff, hQ.z_eq_zero_iff]
    constructor
    · rintro ⟨rfl, rfl⟩
      rfl
    · rintro rfl
      exact ⟨h0.elim id id, h0.elim id id⟩
  · rw [decide_eq_true_eq, hP.affine?_eq, hQ.affine?_eq,
      (Option.map_injective ofResidues_injective).eq_iff]

end Scaling

end KeyRecovery.Curve
