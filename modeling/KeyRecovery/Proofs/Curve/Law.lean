import Mathlib.Tactic.FieldSimp
import Mathlib.Tactic.NormNum.Prime
import KeyRecovery.Proofs.Curve.Multiple

/-!
# The operations on reduced triples are the group law

`IsPoint` holds of the triples that the operations are meant for, and each operation answers such a
triple again, whatever the modulus. Where the curve is elliptic, each stands for an element
(`IsPoint.standsFor`), and two of them are the same exactly if they stand for one element
(`StandsFor.same_iff`). So what holds in the group holds of the triples up to `same`, and no law has
to be found in the formulas.

The joint walk goes over both runs of digits from the highest, two walks apart over one run each
from the lowest, and they meet different partial sums. All of them end at the element that the two
numbers write, so the answers are the same point (`joint_same_apart`). Likewise the walk over the
digits of a number is compared with as many additions as the number says, and its answers for sums
and products of numbers with one another.

A point is `Obtained` if some run of the operations answers it, from solutions of the equation that
were checked and from infinity. Each operation keeps `IsPoint`, over a composite modulus too and
with any coefficients, so every obtained point is reduced and on the curve; and where it stands for
an affine point, that would pass the check again.
-/

namespace KeyRecovery.Curve

section Law

variable (C : Curve)

/-- All three coordinates are remainders. -/
def IsReduced (P : Point) : Prop :=
  (0 ≤ P.x ∧ P.x < C.p) ∧ (0 ≤ P.y ∧ P.y < C.p) ∧ (0 ≤ P.z ∧ P.z < C.p)

/-- A reduced triple that solves the equation, or has `0` for its `z`. -/
structure IsPoint (P : Point) : Prop where
  isReduced : C.IsReduced P
  equation : P.z = 0 ∨ P.y ^ 2 ≡ P.x ^ 3 + C.a * P.x * P.z ^ 4 + C.b * P.z ^ 6 [ZMOD C.p]

variable {C} {P Q S T U : Point}

/-! ## Reduced triples on the curve -/

section Modulus

variable [hC : C.HasModulus]

theorem isReduced_infinity : C.IsReduced Point.infinity := by
  have := hC.one_lt
  simp only [IsReduced, Point.infinity]
  omega

theorem isReduced_double (P : Point) : C.IsReduced (C.double P) := by
  unfold Curve.double
  split_ifs
  · exact isReduced_infinity
  · exact ⟨reduce_mem _, reduce_mem _, reduce_mem _⟩

theorem IsReduced.add (hP : C.IsReduced P) (hQ : C.IsReduced Q) : C.IsReduced (C.add P Q) := by
  unfold Curve.add
  split_ifs
  · exact hQ
  · exact hP
  · simp only []
    split_ifs
    · exact isReduced_double P
    · exact isReduced_infinity
    · exact ⟨reduce_mem _, reduce_mem _, reduce_mem _⟩

theorem isPoint_iff : C.IsPoint P ↔ C.IsReduced P ∧ C.OnCurve P := by
  have he : (P.z = 0 ∨ P.y ^ 2 ≡ P.x ^ 3 + C.a * P.x * P.z ^ 4 + C.b * P.z ^ 6 [ZMOD C.p])
      ↔ C.OnCurve P := by
    rw [modEq_iff_intCast_eq, OnCurve]
    push_cast
    rfl
  rw [← he]
  exact ⟨fun h => ⟨h.isReduced, h.equation⟩, fun h => ⟨h.1, h.2⟩⟩

theorem IsPoint.onCurve (hP : C.IsPoint P) : C.OnCurve P := (isPoint_iff.1 hP).2

theorem isPoint_infinity : C.IsPoint Point.infinity := ⟨isReduced_infinity, .inl rfl⟩

theorem IsPoint.double (hP : C.IsPoint P) : C.IsPoint (C.double P) :=
  isPoint_iff.2 ⟨isReduced_double P, hP.onCurve.double⟩

theorem IsPoint.add (hP : C.IsPoint P) (hQ : C.IsPoint Q) : C.IsPoint (C.add P Q) :=
  isPoint_iff.2 ⟨hP.isReduced.add hQ.isReduced, hP.onCurve.add hQ.onCurve⟩

theorem IsPoint.neg (hP : C.IsPoint P) : C.IsPoint (C.neg P) :=
  isPoint_iff.2 ⟨⟨hP.isReduced.1, reduce_mem _, hP.isReduced.2.2⟩, hP.onCurve.neg⟩

theorem IsPoint.z_ne_zero (hP : C.IsPoint P) (hz : P.z ≠ 0) : (P.z : C.BaseField) ≠ 0 := by
  intro h
  refine hz (eq_of_intCast_eq hP.isReduced.2.2 ⟨le_rfl, p_pos⟩ ?_)
  rw [h, Int.cast_zero]

end Modulus

/-! ## What they stand for -/

variable [hC : C.IsElliptic] {g h : C.PointGroup}

/-- The equation of a triple is that of the affine point it is scaled to. -/
theorem IsPoint.nonsingular (hP : C.IsPoint P) (hz : P.z ≠ 0) :
    C.weierstrass.Nonsingular (P.x / (P.z : C.BaseField) ^ 2) (P.y / (P.z : C.BaseField) ^ 3) := by
  have hz' := hP.z_ne_zero hz
  have he := hP.onCurve.resolve_left hz
  rw [nonsingular_iff]
  field_simp
  linear_combination he

theorem IsPoint.standsFor_some (hP : C.IsPoint P) (hz : P.z ≠ 0) :
    StandsFor P (.some _ _ (hP.nonsingular hz) : C.PointGroup) :=
  standsFor_iff.2 (isScaled_div (hP.z_ne_zero hz))

theorem IsPoint.standsFor (hP : C.IsPoint P) : StandsFor P (C.toGroup P) := by
  by_cases hz : P.z = 0
  · have h0 : StandsFor P (0 : C.PointGroup) := .infinity hz
    rwa [h0.toGroup_eq]
  · have h1 := hP.standsFor_some hz
    rwa [h1.toGroup_eq]

/-- Triples are compared by what they stand for. -/
theorem StandsFor.same_iff (hP : StandsFor P g) (hQ : StandsFor Q h) :
    C.same P Q = true ↔ g = h := by
  rw [(standsFor_iff.1 hP).same_iff (standsFor_iff.1 hQ), pair_injective.eq_iff]

theorem toGroup_infinity : C.toGroup Point.infinity = 0 :=
  (StandsFor.infinity rfl).toGroup_eq

theorem IsPoint.toGroup_add (hS : C.IsPoint S) (hT : C.IsPoint T) :
    C.toGroup (C.add S T) = C.toGroup S + C.toGroup T :=
  (hS.standsFor.add hT.standsFor).toGroup_eq

theorem IsPoint.toGroup_neg (hS : C.IsPoint S) : C.toGroup (C.neg S) = -C.toGroup S :=
  hS.standsFor.neg.toGroup_eq

theorem IsPoint.same_iff (hS : C.IsPoint S) (hT : C.IsPoint T) :
    C.same S T = true ↔ C.toGroup S = C.toGroup T :=
  hS.standsFor.same_iff hT.standsFor

/-- `toGroup` takes a triple to the point it is scaled to, or to the identity, and it takes the
operations to those of the group and `same` to equality. Hence the triples are an abelian group up
to `same`. -/
theorem operations_group_law (hS : C.IsPoint S) (hT : C.IsPoint T) (hU : C.IsPoint U) :
    (S.z = 0 → C.toGroup S = 0)
    ∧ (S.z ≠ 0 → ∃ h, C.toGroup S
        = .some ((S.x : C.BaseField) / S.z ^ 2) ((S.y : C.BaseField) / S.z ^ 3) h)
    ∧ (C.IsPoint (C.add S T) ∧ C.toGroup (C.add S T) = C.toGroup S + C.toGroup T)
    ∧ (C.IsPoint (C.double S) ∧ C.toGroup (C.double S) = 2 • C.toGroup S)
    ∧ (C.same S T = true ↔ C.toGroup S = C.toGroup T)
    ∧ C.same (C.add S T) (C.add T S) = true
    ∧ C.same (C.add (C.add S T) U) (C.add S (C.add T U)) = true
    ∧ (C.same (C.add S Point.infinity) S = true ∧ C.same (C.add Point.infinity S) S = true)
    ∧ (C.same (C.add S (C.neg S)) Point.infinity = true
      ∧ C.same (C.add (C.neg S) S) Point.infinity = true) := by
  have h0 := isPoint_infinity (C := C)
  have hST := hS.add hT
  have hTU := hT.add hU
  refine ⟨fun hz => ?_, fun hz => ⟨_, (hS.standsFor_some hz).toGroup_eq⟩,
    ⟨hST, hS.toGroup_add hT⟩, ⟨hS.double, ?_⟩, hS.same_iff hT, ?_, ?_, ⟨?_, ?_⟩, ?_, ?_⟩
  · exact (StandsFor.infinity hz).toGroup_eq
  · rw [two_nsmul]
    exact hS.standsFor.double.toGroup_eq
  · rw [hST.same_iff (hT.add hS), hS.toGroup_add hT, hT.toGroup_add hS, add_comm]
  · rw [(hST.add hU).same_iff (hS.add hTU), hST.toGroup_add hU, hS.toGroup_add hT,
      hS.toGroup_add hTU, hT.toGroup_add hU, add_assoc]
  · rw [(hS.add h0).same_iff hS, hS.toGroup_add h0, toGroup_infinity, add_zero]
  · rw [(h0.add hS).same_iff hS, h0.toGroup_add hS, toGroup_infinity, zero_add]
  · rw [(hS.add hS.neg).same_iff h0, hS.toGroup_add hS.neg, hS.toGroup_neg, toGroup_infinity,
      add_neg_cancel]
  · rw [(hS.neg.add hS).same_iff h0, hS.neg.toGroup_add hS, hS.toGroup_neg, toGroup_infinity,
      neg_add_cancel]

/-- The curve `y² = x³ + 1` modulo `7`, which has all three points of order two. -/
def modSeven : Curve := ⟨7, 3, 0, 1, 0, 1, 1⟩

instance : modSeven.IsElliptic where
  prime := by
    show Nat.Prime 7
    norm_num
  three_lt := by decide
  discriminant := by decide

/-- A point of order two in two representations, and one of order three. -/
theorem operations_group_law_modSeven :
    (modSeven.IsPoint ⟨6, 0, 1⟩ ∧ modSeven.IsPoint ⟨3, 0, 2⟩ ∧ modSeven.IsPoint ⟨0, 1, 2⟩)
    ∧ modSeven.toGroup (modSeven.add ⟨6, 0, 1⟩ ⟨3, 0, 2⟩)
      = modSeven.toGroup ⟨6, 0, 1⟩ + modSeven.toGroup ⟨3, 0, 2⟩
    ∧ modSeven.same (modSeven.add (modSeven.add ⟨6, 0, 1⟩ ⟨3, 0, 2⟩) ⟨0, 1, 2⟩)
      (modSeven.add ⟨6, 0, 1⟩ (modSeven.add ⟨3, 0, 2⟩ ⟨0, 1, 2⟩)) = true := by
  have hS : modSeven.IsPoint ⟨6, 0, 1⟩ := ⟨by simp [IsReduced, modSeven], .inr (by decide)⟩
  have hT : modSeven.IsPoint ⟨3, 0, 2⟩ := ⟨by simp [IsReduced, modSeven], .inr (by decide)⟩
  have hU : modSeven.IsPoint ⟨0, 1, 2⟩ := ⟨by simp [IsReduced, modSeven], .inr (by decide)⟩
  obtain ⟨-, -, hadd, -, -, -, hassoc, -, -⟩ := operations_group_law hS hT hU
  exact ⟨⟨hS, hT, hU⟩, hadd.2, hassoc⟩

end Law

/-! ## Two multiples jointly and apart -/

section Joint

variable {C : Curve} {P Q : Point} {g h : C.PointGroup}

/-- The sum of two multiples that are each computed by itself. -/
def trySumOfMuls (C : Curve) (k : Int) (P : Point) (l : Int) (Q : Point) :
    Except Failure Point := do
  C.tryAdd (← C.tryMul k P) (← C.tryMul l Q)

/-- What an answer stands for that is absent for the identity. -/
inductive Denotes : Option Point → C.PointGroup → Prop
  | absent : Denotes none 0
  | present {P : Point} {g : C.PointGroup} (hz : P.z ≠ 0) (hP : StandsFor P g) :
      Denotes (some P) g

variable [hC : C.IsElliptic]

theorem StandsFor.trySame_eq (hP : StandsFor P g) (hQ : StandsFor Q g) :
    C.trySame P Q = .ok true := by
  rw [trySame_of_ne_zero HasModulus.p_ne_zero, (hP.same_iff hQ).2 rfl]

theorem Denotes.eq_none_iff {answer : Option Point} (ha : Denotes answer g) :
    answer = none ↔ g = 0 := by
  cases ha with
  | absent => simp
  | present hz hP => simp [← hP.z_eq_zero_iff, hz]

omit hC in
/-- An absent answer stands for infinity. -/
theorem Denotes.standsFor_getD {answer : Option Point} (ha : Denotes answer g) :
    StandsFor (answer.getD Point.infinity) g := by
  cases ha with
  | absent => exact .infinity rfl
  | present hz hP => exact hP

theorem Denotes.trySame_eq {answer : Option Point} (ha : Denotes answer g) (hQ : StandsFor Q g)
    {P : Point} (h : answer = some P) : C.trySame P Q = .ok true := by
  subst h
  exact ha.standsFor_getD.trySame_eq hQ

/-- The joint walk is never at a loss, and it answers what both runs of digits write. -/
theorem StandsFor.tryMulAdd (hP : StandsFor P g) (hQ : StandsFor Q h) {as bs : List Bool}
    (hl : as.length = bs.length) :
    ∃ answer, C.tryMulAdd as P bs Q = .ok answer
      ∧ Denotes answer (ofBitsLE as • g + ofBitsLE bs • h) := by
  have hV := hP.mulAdd hQ as bs hl
  refine ⟨_, tryMulAdd_of_ne_zero HasModulus.p_ne_zero hl P Q, ?_⟩
  split_ifs with hz
  · rw [hV.z_eq_zero_iff.1 hz]
    exact .absent
  · exact .present hz hV

theorem StandsFor.trySumOfMuls (hP : StandsFor P g) (hQ : StandsFor Q h) {k l : Int} (hk : 0 ≤ k)
    (hl : 0 ≤ l) :
    ∃ sum, C.trySumOfMuls k P l Q = .ok sum ∧ StandsFor sum (k • g + l • h) := by
  have hsum := (hP.mul k).add (hQ.mul l)
  rw [← natCast_zsmul, ← natCast_zsmul, Int.toNat_of_nonneg hk, Int.toNat_of_nonneg hl] at hsum
  refine ⟨_, ?_, hsum⟩
  unfold Curve.trySumOfMuls
  rw [tryMul_of_ne_zero HasModulus.p_ne_zero, tryMul_of_ne_zero HasModulus.p_ne_zero]
  exact tryAdd_of_ne_zero HasModulus.p_ne_zero _ _

/-- The digits that are taken of a number write its remainder by the power of two. -/
theorem ofBitsLE_bitsLE_nsmul (k : Int) (length : ℕ) (g : C.PointGroup) :
    ofBitsLE (bitsLE k length) • g = (k % 2 ^ length) • g := by
  rw [← natCast_ofBitsLE_bitsLE, natCast_zsmul]

variable {S T : Point}

/-- Of both numbers the lowest digits are taken. The joint walk then answers nothing exactly if the
sum of the two multiples is at infinity, and else a point that is the same; either stands for the
sum of the multiples in the group. -/
theorem joint_same_apart (hS : C.IsPoint S) (hT : C.IsPoint T) (length : ℕ) (a b : Int) :
    ∃ joint apart, C.tryMulAdd (bitsLE a length) S (bitsLE b length) T = .ok joint
      ∧ C.trySumOfMuls (a % 2 ^ length) S (b % 2 ^ length) T = .ok apart
      ∧ (joint = none ↔ apart.isInfinity = true)
      ∧ (∀ V, joint = some V → C.trySame V apart = .ok true)
      ∧ Denotes joint ((a % 2 ^ length) • C.toGroup S + (b % 2 ^ length) • C.toGroup T)
      ∧ StandsFor apart ((a % 2 ^ length) • C.toGroup S + (b % 2 ^ length) • C.toGroup T) := by
  have hpow : (2 ^ length : Int) ≠ 0 := pow_ne_zero length two_ne_zero
  have hl : (bitsLE a length).length = (bitsLE b length).length := by
    rw [length_bitsLE, length_bitsLE]
  obtain ⟨joint, hjoint, hdenotes⟩ := hS.standsFor.tryMulAdd hT.standsFor hl
  obtain ⟨apart, hapart, hstands⟩ := hS.standsFor.trySumOfMuls hT.standsFor
    (Int.emod_nonneg a hpow) (Int.emod_nonneg b hpow)
  rw [ofBitsLE_bitsLE_nsmul, ofBitsLE_bitsLE_nsmul] at hdenotes
  refine ⟨joint, apart, hjoint, hapart, ?_, fun V hV => hdenotes.trySame_eq hstands hV, hdenotes,
    hstands⟩
  rw [hdenotes.eq_none_iff, Point.isInfinity_iff, hstands.z_eq_zero_iff]

/-- A point and its opposite, once each: the sum of the two that is added in one step is at
infinity. -/
theorem joint_same_apart_modSeven :
    (modSeven.IsPoint ⟨0, 1, 2⟩ ∧ modSeven.IsPoint ⟨0, 6, 1⟩)
    ∧ modSeven.tryMulAdd (bitsLE 5 2) ⟨0, 1, 2⟩ (bitsLE (-3) 2) ⟨0, 6, 1⟩ = .ok none
    ∧ ∃ apart, modSeven.trySumOfMuls 1 ⟨0, 1, 2⟩ 1 ⟨0, 6, 1⟩ = .ok apart
      ∧ apart.isInfinity = true := by
  have hS : modSeven.IsPoint ⟨0, 1, 2⟩ := ⟨by simp [IsReduced, modSeven], .inr (by decide)⟩
  have hT : modSeven.IsPoint ⟨0, 6, 1⟩ := ⟨by simp [IsReduced, modSeven], .inr (by decide)⟩
  have hnone : modSeven.tryMulAdd (bitsLE 5 2) ⟨0, 1, 2⟩ (bitsLE (-3) 2) ⟨0, 6, 1⟩ = .ok none := rfl
  obtain ⟨joint, apart, hjoint, hapart, hiff, -⟩ := joint_same_apart hS hT 2 5 (-3)
  obtain rfl := Except.ok.inj (hnone.symm.trans hjoint)
  exact ⟨⟨hS, hT⟩, hnone, apart, hapart, hiff.1 rfl⟩

end Joint

/-! ## Multiplying is adding again and again -/

section Homomorphism

variable {C : Curve} [hC : C.IsElliptic] {P Q S : Point} {g h : C.PointGroup}

theorem StandsFor.tryAdd (hP : StandsFor P g) (hQ : StandsFor Q h) :
    ∃ V, C.tryAdd P Q = .ok V ∧ StandsFor V (g + h) :=
  ⟨_, tryAdd_of_ne_zero HasModulus.p_ne_zero P Q, hP.add hQ⟩

theorem StandsFor.tryMul (hP : StandsFor P g) (k : ℕ) :
    ∃ V, C.tryMul k P = .ok V ∧ StandsFor V (k • g) :=
  ⟨_, tryMul_of_ne_zero HasModulus.p_ne_zero k P, hP.mul k⟩

/-- One more addition adds the element once more. -/
theorem StandsFor.foldlM_tryAdd (hQ : StandsFor Q h) : ∀ (k : ℕ) {P : Point} {g : C.PointGroup},
    StandsFor P g →
      ∃ V, (List.replicate k Q).foldlM C.tryAdd P = .ok V ∧ StandsFor V (g + k • h)
  | 0, P, g, hP => ⟨P, rfl, by rwa [zero_nsmul, add_zero]⟩
  | k + 1, P, g, hP => by
    obtain ⟨T, hT, hstands⟩ := hP.tryAdd hQ
    obtain ⟨V, hV, hsum⟩ := StandsFor.foldlM_tryAdd hQ k hstands
    refine ⟨V, ?_, ?_⟩
    · rw [List.replicate_succ, List.foldlM_cons, hT]
      exact hV
    · rwa [succ_nsmul', ← add_assoc]

/-- A multiple is the point added so many times to infinity, and taking multiples is additive and
multiplicative in the number. -/
theorem mul_homomorphism (hS : C.IsPoint S) (k l : ℕ) :
    (do C.trySame (← C.tryMul k S) (← (List.replicate k S).foldlM C.tryAdd Point.infinity))
      = .ok true
    ∧ (do C.trySame (← C.tryMul (k + l) S) (← C.tryAdd (← C.tryMul k S) (← C.tryMul l S)))
      = .ok true
    ∧ (do C.trySame (← C.tryMul (k * l) S) (← C.tryMul l (← C.tryMul k S))) = .ok true := by
  have h0 : StandsFor Point.infinity (0 : C.PointGroup) := .infinity rfl
  obtain ⟨A, hA, hAk⟩ := hS.standsFor.tryMul k
  obtain ⟨B, hB, hBl⟩ := hS.standsFor.tryMul l
  refine ⟨?_, ?_, ?_⟩
  · obtain ⟨V, hV, hVk⟩ := hS.standsFor.foldlM_tryAdd k h0
    rw [hA, hV]
    rw [zero_add] at hVk
    exact hAk.trySame_eq hVk
  · obtain ⟨V, hV, hVkl⟩ := hS.standsFor.tryMul (k + l)
    obtain ⟨T, hT, hsum⟩ := hAk.tryAdd hBl
    rw [Nat.cast_add] at hV
    simp only [hA, hB, hV, hT, ok_bind]
    rw [add_nsmul] at hVkl
    exact hVkl.trySame_eq hsum
  · obtain ⟨V, hV, hVkl⟩ := hS.standsFor.tryMul (k * l)
    obtain ⟨T, hT, hprod⟩ := hAk.tryMul l
    rw [Nat.cast_mul] at hV
    simp only [hA, hV, hT, ok_bind]
    rw [mul_nsmul] at hVkl
    exact hVkl.trySame_eq hprod

/-- A point of order two, where partial sums meet the point and infinity. -/
theorem mul_homomorphism_modSeven :
    modSeven.IsPoint ⟨3, 0, 2⟩
    ∧ (do modSeven.trySame (← modSeven.tryMul 5 ⟨3, 0, 2⟩)
            (← (List.replicate 5 (⟨3, 0, 2⟩ : Point)).foldlM modSeven.tryAdd Point.infinity))
      = .ok true
    ∧ (do modSeven.trySame (← modSeven.tryMul (5 * 2) ⟨3, 0, 2⟩)
            (← modSeven.tryMul 2 (← modSeven.tryMul 5 ⟨3, 0, 2⟩))) = .ok true := by
  have hS : modSeven.IsPoint ⟨3, 0, 2⟩ := ⟨by simp [IsReduced, modSeven], .inr (by decide)⟩
  obtain ⟨htimes, -, hprod⟩ := mul_homomorphism hS 5 2
  exact ⟨hS, htimes, hprod⟩

end Homomorphism

/-! ## Points obtained from others -/

section Run

/-- The points that finitely many operations lead to. -/
inductive Obtained (C : Curve) : Point → Prop
  | ofAffine {W : Affine} {P : Point} (h : C.ofAffine? W = some P) : Obtained C P
  | infinity : Obtained C Point.infinity
  | double {P V : Point} (hP : Obtained C P) (h : C.tryDouble P = .ok V) : Obtained C V
  | add {P Q V : Point} (hP : Obtained C P) (hQ : Obtained C Q) (h : C.tryAdd P Q = .ok V) :
      Obtained C V
  | mul {P V : Point} (hP : Obtained C P) (k : Int) (h : C.tryMul k P = .ok V) : Obtained C V
  | mulAdd {P Q V : Point} (hP : Obtained C P) (hQ : Obtained C Q) (as bs : List Bool)
      (hl : as.length = bs.length) (h : C.tryMulAdd as P bs Q = .ok (some V)) : Obtained C V

variable {C : Curve} [hC : C.HasModulus] {P Q : Point} {W : Affine}

theorem isKept_isPoint : C.IsKept fun P P' => C.IsPoint P ∧ C.IsPoint P' where
  infinity := ⟨isPoint_infinity, isPoint_infinity⟩
  double := fun h => ⟨h.1.double, h.2.double⟩
  add := fun hP hQ => ⟨hP.1.add hQ.1, hP.2.add hQ.2⟩

theorem IsPoint.mul (hP : C.IsPoint P) (k : Int) : C.IsPoint (C.mul k P) :=
  (isKept_isPoint.mul ⟨hP, hP⟩ k).1

theorem IsPoint.mulAdd (hP : C.IsPoint P) (hQ : C.IsPoint Q) (as bs : List Bool) :
    C.IsPoint (C.mulAdd as P bs Q) :=
  (isKept_isPoint.mulAdd ⟨hP, hP⟩ ⟨hQ, hQ⟩ as bs).1

theorem isPoint_of_ofAffine? (h : C.ofAffine? W = some P) : C.IsPoint P := by
  unfold ofAffine? at h
  split_ifs at h with hW
  obtain rfl := Option.some.inj h
  exact isPoint_iff.2 ⟨⟨hW.1, hW.2.1, by simp [Point.ofAffine, hC.one_lt]⟩, hW.onCurve⟩

theorem Obtained.isPoint (h : C.Obtained P) : C.IsPoint P := by
  have hp : C.p ≠ 0 := HasModulus.p_ne_zero
  -- By induction on the run: no step is at a loss, and what it answers is a point of the curve.
  induction h with
  | ofAffine h => exact isPoint_of_ofAffine? h
  | infinity => exact isPoint_infinity
  | double hP h ih =>
    rw [tryDouble_of_ne_zero hp] at h
    exact Except.ok.inj h ▸ ih.double
  | add hP hQ h ihP ihQ =>
    rw [tryAdd_of_ne_zero hp] at h
    exact Except.ok.inj h ▸ ihP.add ihQ
  | mul hP k h ih =>
    rw [tryMul_of_ne_zero hp] at h
    exact Except.ok.inj h ▸ ih.mul k
  | mulAdd hP hQ as bs hl h ihP ihQ =>
    rw [tryMulAdd_of_ne_zero hp hl, Except.ok.injEq] at h
    split_ifs at h
    exact Option.some.inj h ▸ ihP.mulAdd ihQ as bs

/-- With `1` for its `z` a point stands for its own coordinates. -/
theorem affine?_ofAffine (hW : C.IsSolution W) : C.affine? (.ofAffine W) = some W := by
  have hp := hC.one_lt
  have hi : inverse? 1 C.p = some 1 :=
    (inverse?_eq_some_iff hp).2 ⟨⟨zero_le_one, hp⟩, Int.emod_eq_of_lt zero_le_one hp⟩
  have h1 : C.reduce 1 = 1 := reduce_of_mem ⟨zero_le_one, hp⟩
  unfold affine? Point.ofAffine
  rw [if_neg one_ne_zero, hi]
  simp only [scaled, Int.mul_one, h1, Option.map_some, reduce_of_mem hW.1, reduce_of_mem hW.2.1]

theorem IsPoint.same_ofAffine (hP : C.IsPoint P) (h : C.affine? P = some W) :
    C.same (.ofAffine W) P = true := by
  have hz : P.z ≠ 0 := fun hz => by simp [affine?_of_isInfinity C hz] at h
  unfold same
  rw [if_neg (by simp [Point.ofAffine, hz]), h, affine?_ofAffine (hP.onCurve.isSolution h),
    decide_eq_true rfl]

/-- Over any modulus above `1`, an obtained point is reduced and solves the equation or is at
infinity, and the affine point it stands for, if any, is accepted as a point that is the same. -/
theorem obtained_on_curve (h : C.Obtained P) :
    C.IsPoint P ∧ ∀ W, C.tryAffine P = .ok (some W) →
      ∃ P', C.ofAffine? W = some P' ∧ C.trySame P' P = .ok true := by
  have hP := h.isPoint
  refine ⟨hP, fun W hW => ⟨.ofAffine W, ?_, ?_⟩⟩
  all_goals rw [tryAffine_of_ne_zero HasModulus.p_ne_zero, Except.ok.injEq] at hW
  · unfold ofAffine?
    rw [if_pos (hP.onCurve.isSolution hW)]
  · rw [trySame_of_ne_zero HasModulus.p_ne_zero, hP.same_ofAffine hW]

/-- The curve `y² = x³ + 1` modulo `35`. -/
def modThirtyFive : Curve := ⟨35, 3, 0, 1, 0, 1, 1⟩

instance : modThirtyFive.HasModulus := ⟨by decide⟩

/-- Between points of one `x` modulo `5` but not modulo `7` the chord leads to a zero divisor. The
tangent at the first leads to an affine point. -/
theorem obtained_on_curve_modThirtyFive :
    (modThirtyFive.Obtained ⟨15, 10, 10⟩ ∧ modThirtyFive.Obtained ⟨0, 27, 2⟩)
    ∧ (modThirtyFive.tryAffine ⟨15, 10, 10⟩ = .ok none ∧ modThirtyFive.IsPoint ⟨15, 10, 10⟩)
    ∧ modThirtyFive.tryAffine ⟨0, 27, 2⟩ = .ok (some ⟨0, 34⟩)
    ∧ ∃ P', modThirtyFive.ofAffine? ⟨0, 34⟩ = some P'
      ∧ modThirtyFive.trySame P' ⟨0, 27, 2⟩ = .ok true := by
  have hS : modThirtyFive.Obtained ⟨0, 1, 1⟩ := .ofAffine (W := ⟨0, 1⟩) (by decide +kernel)
  have hT : modThirtyFive.Obtained ⟨5, 21, 1⟩ := .ofAffine (W := ⟨5, 21⟩) (by decide +kernel)
  have hsum : modThirtyFive.Obtained ⟨15, 10, 10⟩ := .add hS hT (by decide +kernel)
  have htwice : modThirtyFive.Obtained ⟨0, 27, 2⟩ := .double hS (by decide +kernel)
  have hnone : modThirtyFive.tryAffine ⟨15, 10, 10⟩ = .ok none := by decide +kernel
  have hsome : modThirtyFive.tryAffine ⟨0, 27, 2⟩ = .ok (some ⟨0, 34⟩) := by decide +kernel
  exact ⟨⟨hsum, htwice⟩, ⟨hnone, (obtained_on_curve hsum).1⟩, hsome,
    (obtained_on_curve htwice).2 _ hsome⟩

end Run

end KeyRecovery.Curve
