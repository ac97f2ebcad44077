import KeyRecovery.Proofs.Encoding.Reader
import KeyRecovery.Proofs.Secp256k1.Order

/-!
# The keys that can be read are the points that can be written

Where the right-hand side at `x` has a square root at all, its power with exponent `(p + 1) / 4` is
one (`root_sq`). Of a root and its negative exactly one has the parity asked for, so `lift?`
answers the solution with this `x` and this parity whenever there is one, and nothing else.

A compressed key expands exactly if it is the compressed form of a point of the curve, and then to
that point (`ofCompressed_eq_ok_iff`). An uncompressed key is read back to the coordinates it was
written from (`point?_uncompressed`).

What the equation asks of a compressed key is stated of its bytes. A `y` is an ordinate of the key
if it is reduced, solves the equation at the `x` that the key writes and has the parity that the
first byte names (`IsOrdinate`). A key is expanded exactly if its form is right, its `x` is reduced
and it has an ordinate, of which there is then one (`exists_expand_iff`, `IsOrdinate.unique`). The
keys that are expanded correspond one to one to the points of the curve in uncompressed form
(`expand_bijOn`).
-/

namespace KeyRecovery

open Secp256k1 (curve)

/-! ## The point of a given `x` -/

namespace Secp256k1

open Curve

theorem root_nonneg (x : Int) : 0 ≤ root x := Int.natCast_nonneg _

theorem powMod_lt (base exponent : ℕ) {m : ℕ} (h : 0 < m) : powMod base exponent m < m := by
  rw [powMod_eq base exponent h]
  exact Nat.mod_lt _ h

theorem root_lt (x : Int) : root x < curve.p := by
  have h : powMod (curve.cubic x).toNat ((curve.p.toNat + 1) / 4) curve.p.toNat < curve.p.toNat :=
    powMod_lt _ _ (by decide)
  rw [← natCast_toNat_p (C := curve)]
  exact Int.ofNat_lt.2 h

theorem intCast_root (x : Int) :
    (root x : curve.BaseField) = (curve.cubic x : curve.BaseField) ^ ((curve.p.toNat + 1) / 4) := by
  have hc : (((curve.cubic x).toNat : ℕ) : curve.BaseField) = (curve.cubic x : Int) := by
    rw [← Int.cast_natCast, Int.toNat_of_nonneg (by unfold cubic; exact reduce_nonneg _)]
  unfold root
  rw [powMod_eq _ _ (by decide), Int.cast_natCast, ZMod.natCast_mod, Nat.cast_pow, hc]

theorem root_sq {x : Int} {y : curve.BaseField} (h : y ^ 2 = (curve.cubic x : curve.BaseField)) :
    (root x : curve.BaseField) ^ 2 = y ^ 2 := by
  rw [intCast_root, ← h, ← pow_mul, ← pow_mul,
    show 2 * ((curve.p.toNat + 1) / 4 * 2) = curve.p.toNat + 1 by decide, pow_succ, ZMod.pow_card,
    sq]

theorem ordinate_emod_two (x : Int) (isOdd : Bool) :
    decide (ordinate x isOdd % 2 = 1) = isOdd := by
  have hp : curve.p % 2 = 1 := odd_p
  unfold ordinate
  by_cases h : decide (root x % 2 = 1) = isOdd
  · rw [if_pos h, h]
  · rw [if_neg h]
    cases isOdd
    · simp only [decide_eq_false_iff_not] at h ⊢
      omega
    · simp only [decide_eq_true_eq] at h ⊢
      omega

/-- Either choice squares to what the root squares to. -/
theorem ordinate_sq (x : Int) (isOdd : Bool) :
    (ordinate x isOdd : curve.BaseField) ^ 2 = (root x : curve.BaseField) ^ 2 := by
  unfold ordinate
  split_ifs
  · rfl
  · rw [Int.cast_sub, intCast_p, zero_sub, neg_sq]

/-- The choice stays in range, since `0` is a root only where `y` is `0` and so even. -/
theorem ordinate_mem {x : Int} {isOdd : Bool} (h : root x = 0 → isOdd = false) :
    0 ≤ ordinate x isOdd ∧ ordinate x isOdd < curve.p := by
  have h0 := root_nonneg x
  have hp := root_lt x
  unfold ordinate
  split_ifs with hr
  · exact ⟨h0, hp⟩
  · have hne : root x ≠ 0 := by
      intro hz
      rw [hz, h hz] at hr
      exact hr rfl
    omega

theorem lift?_eq_some_iff {x : Int} {isOdd : Bool} {W : Affine} :
    lift? x isOdd = some W ↔ W.x = x ∧ curve.IsSolution W ∧ decide (W.y % 2 = 1) = isOdd := by
  constructor
  · intro h
    obtain ⟨hx, hW⟩ := isSolution_of_lift? h
    have hy : W.y = ordinate x isOdd := by
      unfold lift? at h
      simp only [] at h
      split_ifs at h
      rw [← Option.some.inj h]
    rw [hy]
    exact ⟨hx, hW, ordinate_emod_two x isOdd⟩
  · rintro ⟨rfl, hW, hodd⟩
    have hsq := (isSolution_iff_sq.1 hW).2
    have hroot := root_sq hsq
    have hmem : 0 ≤ ordinate W.x isOdd ∧ ordinate W.x isOdd < curve.p := by
      refine ordinate_mem fun hz => ?_
      rw [hz, Int.cast_zero, zero_pow two_ne_zero] at hroot
      have hy : W.y = 0 := by
        refine eq_of_intCast_eq hW.2.1 (by decide) ?_
        rw [Int.cast_zero]
        exact pow_eq_zero_iff two_ne_zero |>.1 hroot.symm
      rw [← hodd, hy]
      rfl
    have hpar := ordinate_emod_two W.x isOdd
    have hosq := (ordinate_sq W.x isOdd).trans (hroot.trans hsq)
    unfold lift?
    simp only []
    generalize ordinate W.x isOdd = y at hmem hpar hosq ⊢
    have hV : curve.IsSolution ⟨W.x, y⟩ := isSolution_iff_sq.2 ⟨⟨hW.1, hmem⟩, hosq⟩
    have hWV : (⟨W.x, y⟩ : Affine) = W := by
      refine eq_of_x_of_parity hV hW rfl ?_
      rw [← hodd, decide_eq_decide] at hpar
      show y % 2 = W.y % 2
      omega
    rw [if_pos hV, hWV]

/-- The solutions of one `x` come in both parities. -/
theorem exists_parity {W : Affine} (hW : curve.IsSolution W) (isOdd : Bool) :
    ∃ V, curve.IsSolution V ∧ V.x = W.x ∧ decide (V.y % 2 = 1) = isOdd := by
  by_cases hodd : decide (W.y % 2 = 1) = isOdd
  · exact ⟨W, hW, rfl, hodd⟩
  have hne := hW.toGroup_ne_zero
  have hpar := coordinates_neg_y hne
  rw [coordinates_toGroup hW] at hpar
  refine ⟨curve.coordinates (-curve.toGroup (.ofAffine W)),
    isSolution_coordinates (neg_ne_zero.2 hne), ?_, ?_⟩
  · rw [coordinates_neg_x, coordinates_toGroup hW]
  · cases isOdd
    · simp only [decide_eq_false_iff_not] at hodd ⊢
      omega
    · simp only [decide_eq_true_eq] at hodd ⊢
      omega

end Secp256k1

namespace BigEndian

/-- Every number below the modulus of the curve fits on the bytes of a coordinate. -/
theorem value_encode_of_lt_p {v : Int} (h0 : 0 ≤ v) (hp : v < Secp256k1.curve.p) :
    (value (encode scalarLength v.toNat) : Int) = v := by
  have hlt : v.toNat < 256 ^ scalarLength := by
    have : Secp256k1.curve.p < (256 ^ scalarLength : ℕ) := by decide
    omega
  rw [value_encode_of_lt hlt, Int.toNat_of_nonneg h0]

end BigEndian

namespace PublicKey

/-! ## Keys of points -/

section Points

variable {W : Affine} {key data : Bytes}

@[simp] theorem length_coordinates (W : Affine) : W.coordinates.length = 64 := by
  simp [Affine.coordinates]

theorem length_compress (W : Affine) : (compress W).length = compressedLength := by
  simp [compress]

theorem length_uncompressed (W : Affine) : (uncompressed W).length = uncompressedLength := by
  simp [uncompressed]

theorem ofCoordinate_eq_ok_iff {isOdd : Bool} :
    ofCoordinate data isOdd = .ok W ↔ data.length = scalarLength ∧ W.x = BigEndian.value data
      ∧ curve.IsSolution W ∧ decide (W.y % 2 = 1) = isOdd := by
  unfold ofCoordinate
  split_ifs with hl hp
  · exact ⟨fun h => by simp at h, fun h => absurd h.1 hl⟩
  · refine ⟨fun h => by simp at h, fun ⟨_, hx, hW, _⟩ => ?_⟩
    have := hW.1.2
    omega
  · have hl' : data.length = scalarLength := Decidable.not_not.1 hl
    rw [← Secp256k1.lift?_eq_some_iff, eq_true hl', true_and]
    cases Secp256k1.lift? (BigEndian.value data) isOdd <;> simp

/-- The parity byte of a compressed key. -/
theorem head_compress (W : Affine) :
    ∃ parity, compress W = parity :: BigEndian.encode scalarLength W.x.toNat
      ∧ (parity = 2 ∨ parity = 3) ∧ decide (parity = 3) = decide (W.y % 2 = 1) := by
  refine ⟨_, rfl, ?_⟩
  split_ifs with h
  · exact ⟨.inl rfl, (decide_eq_false (by omega)).symm⟩
  · exact ⟨.inr rfl, (decide_eq_true (by omega)).symm⟩

theorem head?_compress (W : Affine) :
    (compress W).head? = some 2 ∨ (compress W).head? = some 3 := by
  obtain ⟨parity, hc, hp, -⟩ := head_compress W
  rw [hc, List.head?_cons]
  exact hp.imp (congrArg some) (congrArg some)

theorem ofCompressed_compress (hW : curve.IsSolution W) : ofCompressed (compress W) = .ok W := by
  obtain ⟨parity, hc, hp, hodd⟩ := head_compress W
  have hl := BigEndian.length_encode scalarLength W.x.toNat
  have hx := BigEndian.value_encode_of_lt_p hW.1.1 hW.1.2
  have hok : ofCoordinate (BigEndian.encode scalarLength W.x.toNat) (decide (parity = 3)) = .ok W :=
    ofCoordinate_eq_ok_iff.2 ⟨hl, hx.symm, hW, hodd.symm⟩
  rw [hc, ofCompressed, if_neg (by simp), if_neg fun h => hp.elim h.1 h.2, hok]
  rfl

theorem ofCompressed_eq_ok_iff :
    ofCompressed key = .ok W ↔ curve.IsSolution W ∧ key = compress W := by
  refine ⟨fun h => ?_, fun ⟨hW, hk⟩ => hk ▸ ofCompressed_compress hW⟩
  rcases key with _ | ⟨parity, data⟩
  · simp [ofCompressed] at h
  rw [ofCompressed] at h
  split_ifs at h with hl hp
  rcases hc : ofCoordinate data (decide (parity = 3)) with e | V <;> rw [hc] at h
  · simp [Except.mapError] at h
  obtain rfl : V = W := by simpa [Except.mapError] using h
  obtain ⟨hlen, hx, hV, hodd⟩ := ofCoordinate_eq_ok_iff.1 hc
  refine ⟨hV, ?_⟩
  obtain ⟨parity', hc', hp', hodd'⟩ := head_compress V
  rw [hc', hx, Int.toNat_natCast, ← hlen, BigEndian.encode_value, List.cons.injEq]
  refine ⟨?_, rfl⟩
  rw [hodd, decide_eq_decide] at hodd'
  have h3 : parity = 2 ∨ parity = 3 := by
    by_contra h
    exact hp (not_or.1 h)
  rcases h3 with rfl | rfl <;> rcases hp' with rfl | rfl
  · rfl
  · exact absurd (hodd'.1 rfl) (by decide)
  · exact absurd (hodd'.2 rfl) (by decide)
  · rfl

theorem expand_eq_ok_iff {expanded : Bytes} :
    expand key = .ok expanded
      ↔ ∃ W, curve.IsSolution W ∧ key = compress W ∧ expanded = uncompressed W := by
  unfold expand
  constructor
  · intro h
    rcases hc : ofCompressed key with e | W <;> rw [hc] at h
    · simp [Except.map] at h
    · obtain ⟨hW, hk⟩ := ofCompressed_eq_ok_iff.1 hc
      exact ⟨W, hW, hk, (Except.ok.inj h).symm⟩
  · rintro ⟨W, hW, rfl, rfl⟩
    rw [ofCompressed_compress hW]
    rfl

/-- The byte in front is `2` or `3`. -/
def HasParity (key : Bytes) : Prop := key.head? = some 2 ∨ key.head? = some 3

instance (key : Bytes) : Decidable (HasParity key) := inferInstanceAs (Decidable (_ ∨ _))

/-- The bytes behind the first write the `x` of a point of the curve. -/
def HasCoordinate (key : Bytes) : Prop := ∃ W, curve.IsSolution W ∧ W.x = BigEndian.value key.tail

theorem ofCompressed_cons {parity : UInt8} (hl : (parity :: data).length = compressedLength) :
    ofCompressed (parity :: data)
      = if parity ≠ 2 ∧ parity ≠ 3 then .error (.parity parity)
        else (ofCoordinate data (parity = 3)).mapError .coordinate := by
  rw [ofCompressed]
  exact if_neg (not_not_intro hl)

theorem hasParity_cons {parity : UInt8} :
    HasParity (parity :: data) ↔ ¬ (parity ≠ 2 ∧ parity ≠ 3) := by
  simp [HasParity, imp_iff_not_or]

theorem expand_of_length_ne (hl : key.length ≠ compressedLength) :
    expand key = .error .length := by
  unfold expand
  rcases key with _ | ⟨parity, data⟩
  · rfl
  · rw [ofCompressed, if_pos (by simpa using hl)]
    rfl

theorem expand_of_not_hasParity (hl : key.length = compressedLength) (hp : ¬ HasParity key) :
    ∃ b, expand key = .error (.parity b) := by
  rcases key with _ | ⟨parity, data⟩
  · simp at hl
  refine ⟨parity, ?_⟩
  unfold expand
  rw [ofCompressed_cons hl, if_pos (not_not.1 (mt hasParity_cons.2 hp))]
  rfl

theorem expand_of_not_hasCoordinate (hl : key.length = compressedLength) (hp : HasParity key)
    (hx : ¬ HasCoordinate key) : ∃ e, expand key = .error (.coordinate e) := by
  rcases key with _ | ⟨parity, data⟩
  · simp at hl
  unfold expand
  rw [ofCompressed_cons hl, if_neg (hasParity_cons.1 hp)]
  rcases hc : ofCoordinate data (decide (parity = 3)) with e | W
  · exact ⟨e, rfl⟩
  · obtain ⟨-, hWx, hW, -⟩ := ofCoordinate_eq_ok_iff.1 hc
    exact absurd ⟨W, hW, hWx⟩ hx

/-- Either parity leads to a point. -/
theorem exists_eq_compress (hl : key.length = compressedLength) (hp : HasParity key)
    (hx : HasCoordinate key) : ∃ W, curve.IsSolution W ∧ key = compress W := by
  rcases key with _ | ⟨parity, data⟩
  · simp at hl
  obtain ⟨V, hV, hVx⟩ := hx
  obtain ⟨W, hW, hWx, hodd⟩ := Secp256k1.exists_parity hV (decide (parity = 3))
  have hc : ofCoordinate data (decide (parity = 3)) = .ok W :=
    ofCoordinate_eq_ok_iff.2 ⟨Nat.succ.inj hl, hWx.trans hVx, hW, hodd⟩
  refine ⟨W, ofCompressed_eq_ok_iff.1 ?_⟩
  rw [ofCompressed_cons hl, if_neg (hasParity_cons.1 hp), hc]
  rfl

theorem point?_uncompressed (hW : curve.IsSolution W) : point? (uncompressed W) = some W := by
  have hx := BigEndian.value_encode_of_lt_p hW.1.1 hW.1.2
  have hy := BigEndian.value_encode_of_lt_p hW.2.1.1 hW.2.1.2
  have hl := BigEndian.length_encode scalarLength W.x.toNat
  unfold uncompressed point? Affine.coordinates
  simp only [List.take_left' hl, List.drop_left' hl, hx, hy]
  rw [if_pos ⟨⟨trivial, by simp⟩, hW.1.2, hW.2.1.2⟩]

theorem eq_uncompressed_of_point? (h : point? data = some W) : data = uncompressed W := by
  rcases data with _ | ⟨mark, data⟩
  · simp [point?] at h
  rw [point?] at h
  split_ifs at h with hc
  obtain ⟨⟨rfl, hlen⟩, -⟩ := hc
  obtain rfl := Option.some.inj h
  have hl : data.length = scalarLength + scalarLength := Nat.succ.inj hlen
  obtain ⟨x, y, hlx, hly, rfl⟩ := Bytes.exists_eq_append hl
  have hx := BigEndian.encode_value x
  have hy := BigEndian.encode_value y
  rw [hlx] at hx
  rw [hly] at hy
  unfold uncompressed Affine.coordinates
  simp only [List.take_left' hlx, List.drop_left' hlx, Int.toNat_natCast, hx, hy]

theorem uncompressed_injOn {W' : Affine} (hW : curve.IsSolution W) (hW' : curve.IsSolution W')
    (h : uncompressed W = uncompressed W') : W = W' := by
  rw [← Option.some.injEq, ← point?_uncompressed hW, h, point?_uncompressed hW']

theorem compress_injOn {W' : Affine} (hW : curve.IsSolution W) (hW' : curve.IsSolution W')
    (h : compress W = compress W') : W = W' := by
  have hc := ofCompressed_compress hW
  rw [h, ofCompressed_compress hW'] at hc
  exact (Except.ok.inj hc).symm

end Points

/-! ## Expanding undoes compressing -/

variable {W : Affine} {key : Bytes} {y : Int}

/-- The `x` that a compressed key writes. -/
def abscissa (key : Bytes) : ℕ := BigEndian.value key.tail

/-- `y` is a reduced root of the right-hand side at the `x` of the key, and its remainder modulo `2`
is the first byte less `2`. -/
structure IsOrdinate (key : Bytes) (y : Int) : Prop where
  reduced : 0 ≤ y ∧ y < curve.p
  equation : y ^ 2 ≡ (abscissa key : Int) ^ 3 + 7 [ZMOD curve.p]
  parity : ∃ b ∈ key.head?, y % 2 = (b.toNat : Int) - 2

/-- The uncompressed keys whose coordinates are those of a point of the curve. -/
def onCurve : Set Bytes := {data | ∃ W, point? data = some W ∧ curve.IsSolution W}

theorem isSolution_iff_modEq :
    curve.IsSolution W ↔ (0 ≤ W.x ∧ W.x < curve.p) ∧ (0 ≤ W.y ∧ W.y < curve.p)
      ∧ W.y ^ 2 ≡ W.x ^ 3 + 7 [ZMOD curve.p] := by
  have hl : W.y * W.y = W.y ^ 2 := (sq _).symm
  have hr : W.x * W.x * W.x + curve.a * W.x + curve.b = W.x ^ 3 + 7 := by
    show W.x * W.x * W.x + 0 * W.x + 7 = W.x ^ 3 + 7
    ring
  unfold Curve.IsSolution Curve.cubic
  rw [hl, hr, Curve.reduce_eq_emod, Curve.reduce_eq_emod, Int.ModEq]

@[simp] theorem tail_compress (W : Affine) :
    (compress W).tail = BigEndian.encode scalarLength W.x.toNat := rfl

theorem abscissa_compress (hW : curve.IsSolution W) : (abscissa (compress W) : Int) = W.x :=
  BigEndian.value_encode_of_lt_p hW.1.1 hW.1.2

theorem isOrdinate_compress (hW : curve.IsSolution W) : IsOrdinate (compress W) W.y where
  reduced := hW.2.1
  equation := by
    rw [abscissa_compress hW]
    exact (isSolution_iff_modEq.1 hW).2.2
  parity := by
    refine ⟨_, rfl, ?_⟩
    split_ifs with h
    · exact h
    · exact Int.emod_two_ne_zero.1 h

/-- A key with an ordinate is the compressed form of the point that has this `y`. -/
theorem eq_compress_of_isOrdinate (hl : key.length = compressedLength) (h : IsOrdinate key y) :
    key = compress ⟨abscissa key, y⟩ := by
  obtain ⟨b, hb, hpar⟩ := h.parity
  rcases key with _ | ⟨b', data⟩
  · simp at hl
  obtain rfl : b' = b := by simpa using hb
  have hdata := BigEndian.encode_value data
  rw [show data.length = scalarLength from Nat.succ.inj hl] at hdata
  unfold compress abscissa
  rw [List.tail_cons, Int.toNat_natCast, hdata, List.cons.injEq]
  refine ⟨UInt8.toNat_inj.1 ?_, rfl⟩
  split_ifs with h0
  · rw [h0] at hpar
    exact_mod_cast (sub_eq_zero.1 hpar.symm)
  · rw [Int.emod_two_ne_zero.1 h0] at hpar
    exact_mod_cast (eq_add_of_sub_eq hpar.symm)

theorem isSolution_of_isOrdinate (hx : abscissa key < curve.p) (h : IsOrdinate key y) :
    curve.IsSolution ⟨abscissa key, y⟩ :=
  isSolution_iff_modEq.2 ⟨⟨Int.natCast_nonneg _, hx⟩, h.reduced, h.equation⟩

theorem IsOrdinate.unique {y' : Int} (hl : key.length = compressedLength)
    (hx : abscissa key < curve.p) (h : IsOrdinate key y) (h' : IsOrdinate key y') : y' = y := by
  have hc : compress ⟨abscissa key, y'⟩ = compress ⟨abscissa key, y⟩ := by
    rw [← eq_compress_of_isOrdinate hl h', ← eq_compress_of_isOrdinate hl h]
  have hW := compress_injOn (isSolution_of_isOrdinate hx h') (isSolution_of_isOrdinate hx h) hc
  exact congrArg Affine.y hW

theorem expand_of_isOrdinate (hl : key.length = compressedLength) (hx : abscissa key < curve.p)
    (h : IsOrdinate key y) :
    expand key = .ok (4 :: (key.tail ++ BigEndian.encode scalarLength y.toNat)) := by
  have hk := eq_compress_of_isOrdinate hl h
  have ht := congrArg List.tail hk
  rw [tail_compress] at ht
  rw [expand_eq_ok_iff]
  refine ⟨_, isSolution_of_isOrdinate hx h, hk, ?_⟩
  unfold uncompressed Affine.coordinates
  rw [ht]

theorem exists_expand_iff :
    (∃ expanded, expand key = .ok expanded)
      ↔ key.length = compressedLength ∧ HasParity key ∧ abscissa key < curve.p
        ∧ ∃ y, IsOrdinate key y := by
  constructor
  · rintro ⟨expanded, h⟩
    obtain ⟨W, hW, rfl, -⟩ := expand_eq_ok_iff.1 h
    refine ⟨length_compress W, head?_compress W, ?_, W.y, isOrdinate_compress hW⟩
    rw [abscissa_compress hW]
    exact hW.1.2
  · rintro ⟨hl, -, hx, y, hy⟩
    exact ⟨_, expand_of_isOrdinate hl hx hy⟩

/-- The length and the first byte decide the kind that a key is rejected under. -/
theorem kind_of_expand_error {e : KeyError} (h : expand key = .error e) :
    e.kind = if key.length = compressedLength ∧ HasParity key then .decompressionFailed
      else .invalidEncoding := by
  by_cases hl : key.length = compressedLength
  · by_cases hp : HasParity key
    · have hx : ¬ HasCoordinate key := fun hx => by
        obtain ⟨W, hW, hk⟩ := exists_eq_compress hl hp hx
        rw [expand_eq_ok_iff.2 ⟨W, hW, hk, rfl⟩] at h
        simp at h
      obtain ⟨e', he⟩ := expand_of_not_hasCoordinate hl hp hx
      rw [if_pos ⟨hl, hp⟩, ← Except.error.inj (he.symm.trans h)]
      rfl
    · obtain ⟨b, he⟩ := expand_of_not_hasParity hl hp
      rw [if_neg fun hc => hp hc.2, ← Except.error.inj (he.symm.trans h)]
      rfl
  · rw [if_neg fun hc => hl hc.1, ← Except.error.inj ((expand_of_length_ne hl).symm.trans h)]
    rfl

theorem expand_bijOn :
    Set.BijOn expand {key | ∃ expanded, expand key = .ok expanded} (Except.ok '' onCurve) := by
  refine ⟨?mapsTo, ?injOn, ?surjOn⟩
  case mapsTo =>
    rintro key ⟨expanded, h⟩
    obtain ⟨W, hW, -, rfl⟩ := expand_eq_ok_iff.1 h
    exact ⟨uncompressed W, ⟨W, point?_uncompressed hW, hW⟩, h.symm⟩
  case injOn =>
    rintro key ⟨expanded, h⟩ key' ⟨expanded', h'⟩ heq
    rw [h, h', Except.ok.injEq] at heq
    obtain ⟨W, hW, rfl, rfl⟩ := expand_eq_ok_iff.1 h
    obtain ⟨W', hW', rfl, rfl⟩ := expand_eq_ok_iff.1 h'
    rw [uncompressed_injOn hW hW' heq]
  case surjOn =>
    rintro _ ⟨data, ⟨W, hd, hW⟩, rfl⟩
    obtain rfl := eq_uncompressed_of_point? hd
    have h := expand_eq_ok_iff.2 ⟨W, hW, rfl, rfl⟩
    exact ⟨compress W, ⟨_, h⟩, h⟩

/-- A key is expanded exactly if its form is right, its `x` is reduced and it has an ordinate. The
ordinate is then the only one and is written behind the `x`. Every point of the curve comes back
from its compressed form, and what is rejected is ill-encoded if its form is wrong and has no point
otherwise. -/
theorem expand_inverts_compress :
    (∀ key, (∃ expanded, expand key = .ok expanded)
        ↔ key.length = compressedLength ∧ HasParity key ∧ abscissa key < curve.p
          ∧ ∃ y, IsOrdinate key y)
      ∧ (∀ key expanded, expand key = .ok expanded → ∃ y, IsOrdinate key y
        ∧ (∀ y', IsOrdinate key y' → y' = y)
        ∧ expanded = 4 :: (key.tail ++ BigEndian.encode scalarLength y.toNat))
      ∧ (∀ W, curve.IsSolution W → expand (compress W) = .ok (uncompressed W))
      ∧ Set.BijOn expand {key | ∃ expanded, expand key = .ok expanded} (Except.ok '' onCurve)
      ∧ ∀ key e, expand key = .error e →
        (RecoveryError.key e).kind
          = if key.length = compressedLength ∧ HasParity key then .decompressionFailed
            else .invalidEncoding := by
  refine ⟨fun key => exists_expand_iff, fun key expanded h => ?_,
    fun W hW => expand_eq_ok_iff.2 ⟨W, hW, rfl, rfl⟩, expand_bijOn,
    fun key e h => kind_of_expand_error h⟩
  obtain ⟨hl, -, hx, y, hy⟩ := exists_expand_iff.1 ⟨expanded, h⟩
  refine ⟨y, hy, fun y' hy' => hy.unique hl hx hy', ?_⟩
  exact Except.ok.inj (h.symm.trans (expand_of_isOrdinate hl hx hy))

theorem expand_inverts_compress_base :
    curve.IsSolution ⟨curve.gx, curve.gy⟩
      ∧ expand (compress ⟨curve.gx, curve.gy⟩) = .ok (uncompressed ⟨curve.gx, curve.gy⟩)
      ∧ expand [] = .error .length
      ∧ (RecoveryError.key .length).kind = .invalidEncoding := by
  obtain ⟨-, -, hback, -, hkind⟩ := expand_inverts_compress
  exact ⟨Secp256k1.isSolution_base, hback _ Secp256k1.isSolution_base, rfl, hkind [] _ rfl⟩

end PublicKey

end KeyRecovery
