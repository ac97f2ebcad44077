import Mathlib.Tactic.Module
import Mathlib.Tactic.NormNum.Prime
import KeyRecovery.Proofs.Curve.Group

/-!
# Multiples of triples, on the curve and off it

`mul` and `mulAdd` are built from `double` and `add` alone, so they keep every relation that the two
keep (`IsKept`). On the curve what they answer stands for the multiple or the sum of multiples that
the digits write. Neither asks whether a partial sum meets an operand, its negative or infinity:
`StandsFor.double` and `StandsFor.add` hold there too.

Many triples are the same point, reduced or not. One of them may meet a test of `y` against `0` that
another passes by, and without the equation no law of a group is there to say that both lead to the
same. But the rule on pairs is followed whatever the branch, so triples that are scaled from one
pair lead to triples that are (`isKept_alike`), over runs of any length.
-/

namespace KeyRecovery.Curve

/-! ## Multiples in the group -/

section Multiples

variable {C : Curve}

section Kept

variable {r : Point → Point → Prop} {P P' Q Q' : Point}

/-- Doubling and adding keep the relation, and infinity is related to itself. -/
structure IsKept (C : Curve) (r : Point → Point → Prop) : Prop where
  infinity : r Point.infinity Point.infinity
  double : ∀ {P P'}, r P P' → r (C.double P) (C.double P')
  add : ∀ {P P' Q Q'}, r P P' → r Q Q' → r (C.add P Q) (C.add P' Q')

theorem IsKept.addMultiple (hr : C.IsKept r) :
    ∀ (bits : List Bool) {sum sum' addend addend' : Point}, r sum sum' → r addend addend' →
      r (C.addMultiple bits sum addend) (C.addMultiple bits sum' addend')
  | [], _, _, _, _, hsum, _ => hsum
  | b :: bits, _, _, _, _, hsum, haddend => by
    refine IsKept.addMultiple hr bits ?_ (hr.double haddend)
    cases b
    · exact hsum
    · exact hr.add hsum haddend

theorem IsKept.mul (hr : C.IsKept r) (hP : r P P') (k : Int) : r (C.mul k P) (C.mul k P') := by
  unfold Curve.mul
  split_ifs
  · exact hr.infinity
  · exact hP
  · exact hr.addMultiple _ hr.infinity hP

theorem IsKept.mulAddStep {both both' sum sum' : Point} (hr : C.IsKept r) (hP : r P P')
    (hQ : r Q Q') (hboth : r both both') (hsum : r sum sum') (digits : Bool × Bool) :
    r (C.mulAddStep P Q both sum digits) (C.mulAddStep P' Q' both' sum' digits) := by
  have hd := hr.double hsum
  rcases digits with ⟨_ | _, _ | _⟩
  · exact hd
  · exact hr.add hd hQ
  · exact hr.add hd hP
  · exact hr.add hd hboth

/-- Runs of unequal length are walked as far as both go. -/
theorem IsKept.mulAdd (hr : C.IsKept r) (hP : r P P') (hQ : r Q Q') :
    ∀ as bs : List Bool, r (C.mulAdd as P bs Q) (C.mulAdd as P' bs Q')
  | [], _ => hr.infinity
  | _ :: _, [] => hr.infinity
  | a :: as, b :: bs => by
    rw [mulAdd_cons, mulAdd_cons]
    exact hr.mulAddStep hP hQ (hr.add hP hQ) (IsKept.mulAdd hr hP hQ as bs) (a, b)

end Kept

variable [hC : C.IsElliptic] {P Q : Point} {g h : C.PointGroup}

theorem StandsFor.addMultiple : ∀ (bits : List Bool) {sum addend : Point} {g h : C.PointGroup},
    StandsFor sum g → StandsFor addend h →
      StandsFor (C.addMultiple bits sum addend) (g + ofBitsLE bits • h)
  | [], sum, addend, g, h, hsum, _ => by
    rw [Curve.addMultiple, ofBitsLE, zero_nsmul, add_zero]
    exact hsum
  | b :: bits, sum, addend, g, h, hsum, haddend => by
    have hb : StandsFor (if b then C.add sum addend else sum) (g + (if b then 1 else 0) • h) := by
      cases b
      · simpa using hsum
      · simpa using hsum.add haddend
    have ih := StandsFor.addMultiple bits hb haddend.double
    rw [Curve.addMultiple, ofBitsLE]
    rwa [show g + ((if b then 1 else 0) + 2 * ofBitsLE bits) • h
      = g + (if b then 1 else 0) • h + ofBitsLE bits • (h + h) by module]

theorem StandsFor.mul (hP : StandsFor P g) (k : Int) : StandsFor (C.mul k P) (k.toNat • g) := by
  unfold Curve.mul
  split_ifs with h0 h1
  · rw [Int.toNat_of_nonpos h0, zero_nsmul]
    exact .infinity rfl
  · rw [h1, Int.toNat_one, one_nsmul]
    exact hP
  · have h0 : StandsFor Point.infinity (0 : C.PointGroup) := .infinity rfl
    have hm := StandsFor.addMultiple (binary k.toNat) h0 hP
    rwa [ofBitsLE_binary, zero_add] at hm

/-- A step of the joint walk doubles the sum and adds what its two digits choose. -/
theorem StandsFor.mulAddStep {both sum : Point} {k : C.PointGroup} (hP : StandsFor P g)
    (hQ : StandsFor Q h) (hboth : StandsFor both (g + h)) (hsum : StandsFor sum k) (a b : Bool) :
    StandsFor (C.mulAddStep P Q both sum (a, b))
      (k + k + ((if a then 1 else 0) • g + (if b then 1 else 0) • h)) := by
  have hk := hsum.double
  unfold Curve.mulAddStep
  cases a <;> cases b <;> simp only [chosen]
  · simpa using hk
  · simpa using hk.add hQ
  · simpa using hk.add hP
  · simpa using hk.add hboth

theorem StandsFor.mulAdd (hP : StandsFor P g) (hQ : StandsFor Q h) :
    ∀ (as bs : List Bool), as.length = bs.length →
      StandsFor (C.mulAdd as P bs Q) (ofBitsLE as • g + ofBitsLE bs • h)
  | [], [], _ => by
    rw [ofBitsLE, zero_nsmul, zero_nsmul, add_zero]
    exact .infinity rfl
  | a :: as, b :: bs, hl => by
    have ih := StandsFor.mulAdd hP hQ as bs (Nat.succ.inj hl)
    have hstep := StandsFor.mulAddStep hP hQ (hP.add hQ) ih a b
    rw [mulAdd_cons, ofBitsLE, ofBitsLE]
    rwa [show ((if a then 1 else 0) + 2 * ofBitsLE as) • g
        + ((if b then 1 else 0) + 2 * ofBitsLE bs) • h
      = ofBitsLE as • g + ofBitsLE bs • h + (ofBitsLE as • g + ofBitsLE bs • h)
        + ((if a then 1 else 0) • g + (if b then 1 else 0) • h) by module]

end Multiples

/-! ## Triples that are the same point -/

section Alike

variable (C : Curve)

/-- Infinity is recognised by its `z`, which is not another multiple of the modulus. -/
def IsProper (P : Point) : Prop := P.z = 0 ∨ ¬ C.p ∣ P.z

/-- Both are scaled from one pair, or both from none. -/
def Alike (P Q : Point) : Prop := ∃ v, C.IsScaled P v ∧ C.IsScaled Q v

variable {C} [hC : C.HasOddPrime] {P Q S S' T T' : Point}
  {v w : Option (C.BaseField × C.BaseField)}

theorem isProper_iff : C.IsProper P ↔ ∃ v, C.IsScaled P v := by
  unfold IsProper
  rw [← intCast_eq_zero_iff_dvd]
  constructor
  · rintro (hz | hz)
    · exact ⟨none, .infinity hz⟩
    · exact ⟨_, isScaled_div hz⟩
  · rintro ⟨v, hz | hz⟩
    · exact .inl hz
    · exact .inr hz

theorem Alike.same (h : C.Alike P Q) : C.same P Q = true := by
  obtain ⟨v, hP, hQ⟩ := h
  exact (hP.same_iff hQ).2 rfl

theorem IsProper.alike_iff (hP : C.IsProper P) (hQ : C.IsProper Q) :
    C.Alike P Q ↔ C.same P Q = true := by
  refine ⟨Alike.same, fun h => ?_⟩
  obtain ⟨v, hP⟩ := isProper_iff.1 hP
  obtain ⟨w, hQ⟩ := isProper_iff.1 hQ
  obtain rfl := (hP.same_iff hQ).1 h
  exact ⟨v, hP, hQ⟩

theorem isKept_alike : C.IsKept C.Alike where
  infinity := ⟨none, .infinity rfl, .infinity rfl⟩
  double := fun ⟨v, hP, hP'⟩ => ⟨C.twice v, hP.double, hP'.double⟩
  add := fun ⟨v, hP, hP'⟩ ⟨w, hQ, hQ'⟩ => ⟨C.plus v w, hP.add hQ, hP'.add hQ'⟩

/-- A chord is the same from either end. -/
theorem plus_comm (v w : Option (C.BaseField × C.BaseField)) : C.plus v w = C.plus w v := by
  rcases v with _ | ⟨x, y⟩ <;> rcases w with _ | ⟨x', y'⟩
  · rfl
  · rfl
  · rfl
  simp only [plus]
  by_cases hx : x = x'
  · subst hx
    rw [if_pos rfl, if_pos rfl]
    by_cases hy : y = y'
    · rw [hy]
    · rw [if_neg hy, if_neg (Ne.symm hy)]
  · have hl : (y - y') / (x - x') * (x - x') = y - y' := div_mul_cancel₀ _ (sub_ne_zero.2 hx)
    rw [if_neg hx, if_neg (Ne.symm hx), ← neg_sub y y', ← neg_sub x x', neg_div_neg_eq,
      Option.some.injEq, lineSum, lineSum, Prod.mk.injEq]
    constructor
    · ring
    · linear_combination hl

theorem IsProper.alike_add_comm (hP : C.IsProper P) (hQ : C.IsProper Q) :
    C.Alike (C.add P Q) (C.add Q P) := by
  obtain ⟨v, hP⟩ := isProper_iff.1 hP
  obtain ⟨w, hQ⟩ := isProper_iff.1 hQ
  refine ⟨C.plus v w, hP.add hQ, ?_⟩
  rw [plus_comm]
  exact hQ.add hP

/-- Cleared of denominators, the pairs of two triples are compared crosswise. -/
theorem IsProper.same_iff_cross (hP : C.IsProper P) (hQ : C.IsProper Q) (hz : P.z ≠ 0)
    (hz' : Q.z ≠ 0) :
    C.same P Q = true ↔ P.x * Q.z ^ 2 ≡ Q.x * P.z ^ 2 [ZMOD C.p]
      ∧ P.y * Q.z ^ 3 ≡ Q.y * P.z ^ 3 [ZMOD C.p] := by
  obtain ⟨v, hP⟩ := isProper_iff.1 hP
  obtain ⟨w, hQ⟩ := isProper_iff.1 hQ
  rw [hP.same_iff hQ, modEq_iff_intCast_eq, modEq_iff_intCast_eq]
  push_cast
  cases hP with
  | infinity h => exact absurd h hz
  | @affine x y h hx hy =>
    cases hQ with
    | infinity h' => exact absurd h' hz'
    | @affine x' y' h' hx' hy' =>
      have hk := mul_ne_zero h h'
      rw [Option.some.injEq, Prod.mk.injEq, hx, hy, hx', hy']
      refine and_congr ?_ ?_
      · rw [← mul_left_inj' (pow_ne_zero 2 hk)]
        constructor <;> intro h <;> linear_combination h
      · rw [← mul_left_inj' (pow_ne_zero 3 hk)]
        constructor <;> intro h <;> linear_combination h

theorem Alike.trySame_eq (h : C.Alike P Q) : C.trySame P Q = .ok true := by
  rw [trySame_of_ne_zero HasModulus.p_ne_zero, h.same]

omit hC in
theorem Alike.z_eq_zero_iff (h : C.Alike P Q) : P.z = 0 ↔ Q.z = 0 := by
  obtain ⟨v, hP, hQ⟩ := h
  rw [hP.z_eq_zero_iff, hQ.z_eq_zero_iff]

/-- The joint walk leads to nothing for both, or to the same point. -/
theorem Alike.tryMulAdd (hS : C.Alike S S') (hT : C.Alike T T') {as bs : List Bool}
    (hl : as.length = bs.length) :
    ∃ V V', C.tryMulAdd as S bs T = .ok V ∧ C.tryMulAdd as S' bs T' = .ok V'
      ∧ Option.Rel (fun V V' => C.trySame V V' = .ok true) V V' := by
  have hV := isKept_alike.mulAdd hS hT as bs
  have hz := hV.z_eq_zero_iff
  refine ⟨_, _, tryMulAdd_of_ne_zero HasModulus.p_ne_zero hl S T,
    tryMulAdd_of_ne_zero HasModulus.p_ne_zero hl S' T', ?_⟩
  split_ifs with h h' h'
  · exact .none
  · exact absurd (hz.1 h) h'
  · exact absurd (hz.2 h') h
  · exact .some hV.trySame_eq

/-- Over an odd prime, and for all triples but those whose `z` is a multiple of the modulus without
being `0`: each operation answers the same for the same operands, the order of a sum is of no
account, and triples are the same where their coordinates agree crosswise. -/
theorem operations_respect_same (hS : C.IsProper S) (hS' : C.IsProper S') (hT : C.IsProper T)
    (hT' : C.IsProper T') (hSS' : C.trySame S S' = .ok true) (hTT' : C.trySame T T' = .ok true) :
    (do C.trySame (← C.tryDouble S) (← C.tryDouble S')) = .ok true
    ∧ (do C.trySame (← C.tryAdd S T) (← C.tryAdd S' T')) = .ok true
    ∧ (∀ k, (do C.trySame (← C.tryMul k S) (← C.tryMul k S')) = .ok true)
    ∧ (∀ as bs : List Bool, as.length = bs.length →
      ∃ V V', C.tryMulAdd as S bs T = .ok V ∧ C.tryMulAdd as S' bs T' = .ok V'
        ∧ Option.Rel (fun V V' => C.trySame V V' = .ok true) V V')
    ∧ (do C.trySame (← C.tryAdd S T) (← C.tryAdd T S)) = .ok true
    ∧ (S.z ≠ 0 → T.z ≠ 0 → (C.trySame S T = .ok true ↔
      S.x * T.z ^ 2 ≡ T.x * S.z ^ 2 [ZMOD C.p] ∧ S.y * T.z ^ 3 ≡ T.y * S.z ^ 3 [ZMOD C.p])) := by
  have hp : C.p ≠ 0 := HasModulus.p_ne_zero
  simp only [trySame_of_ne_zero hp, Except.ok.injEq] at hSS' hTT'
  have hS2 := (hS.alike_iff hS').2 hSS'
  have hT2 := (hT.alike_iff hT').2 hTT'
  refine ⟨?_, ?_, fun k => ?_, fun as bs hl => hS2.tryMulAdd hT2 hl, ?_, fun hz hz' => ?_⟩
  · simp only [tryDouble_of_ne_zero hp, ok_bind]
    exact (isKept_alike.double hS2).trySame_eq
  · simp only [tryAdd_of_ne_zero hp, ok_bind]
    exact (isKept_alike.add hS2 hT2).trySame_eq
  · simp only [tryMul_of_ne_zero hp, ok_bind]
    exact (isKept_alike.mul hS2 k).trySame_eq
  · simp only [tryAdd_of_ne_zero hp, ok_bind]
    exact (hS.alike_add_comm hT).trySame_eq
  · rw [trySame_of_ne_zero hp, Except.ok.injEq, hS.same_iff_cross hT hz hz']

/-- A cubic with a singular point. -/
def modThree : Curve := ⟨3, 2, 0, 0, 1, 1, 1⟩

instance : modThree.HasOddPrime where
  prime := by
    show Nat.Prime 3
    norm_num
  two_lt := by decide

/-- One operand is doubled by the test of `y` and by the formula, and lies off the curve. -/
theorem operations_respect_same_modThree :
    (modThree.IsProper ⟨1, 0, 1⟩ ∧ modThree.IsProper ⟨4, 3, 2⟩)
    ∧ (modThree.IsProper ⟨2, 1, 1⟩ ∧ modThree.IsProper ⟨2, -2, 4⟩)
    ∧ (modThree.trySame ⟨1, 0, 1⟩ ⟨4, 3, 2⟩ = .ok true
      ∧ modThree.trySame ⟨2, 1, 1⟩ ⟨2, -2, 4⟩ = .ok true)
    ∧ (do modThree.trySame (← modThree.tryDouble ⟨1, 0, 1⟩) (← modThree.tryDouble ⟨4, 3, 2⟩))
      = .ok true
    ∧ (do modThree.trySame (← modThree.tryAdd ⟨1, 0, 1⟩ ⟨2, 1, 1⟩)
            (← modThree.tryAdd ⟨4, 3, 2⟩ ⟨2, -2, 4⟩))
      = .ok true := by
  have hS : modThree.IsProper ⟨1, 0, 1⟩ := .inr (by decide)
  have hS' : modThree.IsProper ⟨4, 3, 2⟩ := .inr (by decide)
  have hT : modThree.IsProper ⟨2, 1, 1⟩ := .inr (by decide)
  have hT' : modThree.IsProper ⟨2, -2, 4⟩ := .inr (by decide)
  have hSS' : modThree.trySame ⟨1, 0, 1⟩ ⟨4, 3, 2⟩ = .ok true := by decide +kernel
  have hTT' : modThree.trySame ⟨2, 1, 1⟩ ⟨2, -2, 4⟩ = .ok true := by decide +kernel
  obtain ⟨hdouble, hadd, -⟩ := operations_respect_same hS hS' hT hT' hSS' hTT'
  exact ⟨⟨hS, hS'⟩, ⟨hT, hT'⟩, ⟨hSS', hTT'⟩, hdouble, hadd⟩

end Alike

end KeyRecovery.Curve
