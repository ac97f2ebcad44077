import KeyRecovery.Proofs.Ecdsa.Recovery
import KeyRecovery.Proofs.Encoding.Signature
import KeyRecovery.Provider.Service

/-!
# The answer to a request

What is not a signature and a digest in format is refused for its format (`answer_of_not_isInput`),
and so is an indicator above three. Any other request is put to the library, and its answer follows
from what the library finds (`answer_of_recover`, `answer_of_recover_error`). Nothing but a refusal
escapes a library that is reliable (`exists_answer`). With one that does standard recovery a request
is answered with a hint exactly if its signature recovers a key, and then with that key and the
inverse of `s` below the order (`answer_cases`). Solving for the key and testing a key then come to
the same: over all indicators the provider answers the keys that a signature verifies under, and no
others (`verify_iff_answer`).
-/

namespace KeyRecovery

open Curve
open Ecdsa (InRange IsRecovered digestScalar)
open Secp256k1 (curve ScalarField)

namespace CurveLibrary

/-- What the library is given: a digest, and the bytes of a signature in range with one of the four
indicators. -/
structure IsQuery (sig : Signature) (data digest : Bytes) : Prop where
  r_inRange : InRange sig.r
  s_inRange : InRange sig.s
  indicator_mem : 0 ≤ sig.v ∧ sig.v ≤ 3
  encode_eq : sig.encode = .ok data
  digest_length : digest.length = digestLength

/-- The library fails in one way only, which is not to take an argument, and it writes every key
that it finds on 33 bytes. -/
structure IsReliable [CurveLibrary] : Prop where
  eq_argument {sig : Signature} {data digest : Bytes} {e : Failure} (h : IsQuery sig data digest)
    (he : recover data digest = .error e) : ∃ reason, e = .argument reason
  exists_compressed {sig : Signature} {data digest : Bytes} {key : Key}
    (h : IsQuery sig data digest) (hk : recover data digest = .ok key) :
    ∃ written, compressed key = .ok written ∧ written.length = compressedLength

/-- The keys that the library finds are those of standard recovery. -/
structure IsStandard [CurveLibrary] : Prop extends IsReliable where
  compressed_iff {sig : Signature} {data digest written : Bytes} (h : IsQuery sig data digest) :
    (∃ key, recover data digest = .ok key ∧ compressed key = .ok written)
      ↔ ∃ Q, IsRecovered sig.r sig.s sig.v (digestScalar digest) Q ∧ written = PublicKey.compress Q

variable {sig : Signature} {data digest : Bytes} {Q : Affine}

theorem standardKey?_eq_some_iff (h : IsQuery sig data digest) :
    standardKey? data digest = some Q ↔ IsRecovered sig.r sig.s sig.v (digestScalar digest) Q := by
  obtain ⟨hr, hs, hv, he, hd⟩ := h
  obtain ⟨data', he', hl, hf⟩ := Signature.fields_encode hr hs ⟨hv.1, by omega⟩
  obtain rfl := Except.ok.inj (he.symm.trans he')
  have hparse : Signature.parse data = .ok sig :=
    Signature.parse_eq_ok_iff.2 ⟨.inr hl, by rwa [hf], by rwa [hf], hf.symm⟩
  obtain ⟨z, hz, hz0, hzd⟩ := Ecdsa.scalar?_digest hd.ge
  unfold standardKey?
  rw [hparse, hz]
  simp only [Except.toOption, Option.bind_eq_bind, Option.bind_some, he]
  rw [if_pos ⟨trivial, hv.2, hd⟩, Ecdsa.recoverKey?_eq_some_iff hr hs hz0 hv, hzd]

theorem recover_standard (data digest : Bytes) :
    recover data digest = match standardKey? data digest with
      | some key => Except.ok (key : Key)
      | none => .error (.argument .unrecoverable) :=
  rfl

theorem isStandard_standard : IsStandard := by
  refine ⟨⟨fun _ he => ?_, fun _ _ => ⟨_, rfl, PublicKey.length_compress _⟩⟩, fun h => ?_⟩
  · rw [recover_standard] at he
    split at he
    · simp at he
    · exact ⟨_, (Except.error.inj he).symm⟩
  constructor
  · rintro ⟨key, hk, hw⟩
    rw [recover_standard] at hk
    split at hk
    · rename_i Q hQ
      obtain rfl := Except.ok.inj hk
      exact ⟨Q, (standardKey?_eq_some_iff h).1 hQ, (Except.ok.inj hw).symm⟩
    · simp at hk
  · rintro ⟨Q, hQ, rfl⟩
    refine ⟨Q, ?_, rfl⟩
    rw [recover_standard, (standardKey?_eq_some_iff h).2 hQ]

end CurveLibrary

namespace Provider

open CurveLibrary (IsQuery IsReliable IsStandard)

variable {data signature digest : Bytes} {Q : Affine}

/-! ## Requests -/

/-- With both lengths right only the signature and its indicator are left to test. -/
theorem Request.parse_append (hl : signature.length = signatureLength)
    (hd : digest.length = digestLength) :
    Request.parse (signature ++ digest) = Signature.parse signature >>= fun sig =>
      if 3 < sig.v then .error (.codec (.indicatorRange sig.v)) else .ok ⟨sig, digest⟩ := by
  have hl' : signature.length = 65 := hl
  have hd' : digest.length = 32 := hd
  have hs : readBytes (signature ++ digest) 0 signatureLength
      = .ok (signature, (signatureLength : Int)) := by
    refine (@readBytes_of_le _ 0 _ (by simp [hl'])).trans ?_
    rw [List.drop_zero, List.take_left' hl, Nat.zero_add]
  have hd : readBytes (signature ++ digest) (signatureLength : Int) digestLength
      = .ok (digest, ((signatureLength + digestLength : ℕ) : Int)) := by
    rw [readBytes_of_le (by simp [hl', hd']), List.drop_left' hl, List.take_of_length_le hd.le]
  unfold Request.parse
  rw [hs]
  simp only [ok_bind]
  rw [hd]
  simp only [ok_bind]
  rw [if_neg (by simp [hl', hd'])]
  rcases Signature.parse signature with e | sig
  · rfl
  · simp only [ok_bind]
    split_ifs <;> rfl

/-- The tests of the lengths stand before those of the signature, and all of them are of the
format. -/
theorem Request.parse_eq_error
    (h : ∀ signature digest, IsInput signature digest → data ≠ signature ++ digest) :
    ∃ e, Request.parse data = .error (.codec e) := by
  by_cases hl : data.length = signatureLength + digestLength
  · obtain ⟨signature, digest, hs, hd, rfl⟩ := Bytes.exists_eq_append hl
    obtain ⟨e, he⟩ := Signature.parse_eq_error fun hsig =>
      h _ _ ⟨hs, hd, hsig.2.1, hsig.2.2⟩ rfl
    refine ⟨e, ?_⟩
    rw [Request.parse_append hs hd, he]
    rfl
  unfold Request.parse
  by_cases hs : data.length < signatureLength
  · rw [readBytes_of_lt (by omega)]
    exact ⟨_, rfl⟩
  have hread : readBytes data 0 signatureLength = _ := @readBytes_of_le data 0 _ (by omega)
  rw [hread]
  simp only [ok_bind, Nat.zero_add]
  by_cases hd : data.length < signatureLength + digestLength
  · rw [readBytes_of_lt (by omega)]
    exact ⟨_, rfl⟩
  · rw [readBytes_of_le (by omega)]
    simp only [ok_bind]
    rw [if_pos (by omega)]
    exact ⟨_, rfl⟩

theorem Request.parse_of_isInput (hin : IsInput signature digest) :
    Request.parse (signature ++ digest)
      = if 3 < (Signature.fields signature).v
        then .error (.codec (.indicatorRange (Signature.fields signature).v))
        else .ok ⟨Signature.fields signature, digest⟩ := by
  obtain ⟨hl, hd, hr, hs⟩ := hin
  rw [Request.parse_append hl hd, Signature.parse_eq_ok_iff.2 ⟨.inr hl, hr, hs, rfl⟩, ok_bind]

/-- What the library is given for a request with one of the four indicators. -/
theorem exists_isQuery (hin : IsInput signature digest) (hv : (Signature.fields signature).v ≤ 3) :
    ∃ data, IsQuery (Signature.fields signature) data digest := by
  have h0 := Signature.indicator_nonneg (signature.getD (scalarLength + scalarLength) 0)
  obtain ⟨data, he, -⟩ := Signature.fields_encode hin.r_inRange hin.s_inRange
    ⟨h0, lt_of_le_of_lt hv (by decide)⟩
  exact ⟨data, hin.r_inRange, hin.s_inRange, ⟨h0, hv⟩, he, hin.digest_length⟩

/-! ## Answers -/

section Answers

variable [CurveLibrary]

theorem answer_of_not_isInput
    (h : ∀ signature digest, IsInput signature digest → data ≠ signature ++ digest) :
    ∃ e, answer data = .ok (.refused (.codec e)) := by
  obtain ⟨e, he⟩ := Request.parse_eq_error h
  refine ⟨e, ?_⟩
  unfold answer
  rw [he]
  rfl

theorem answer_of_three_lt (hin : IsInput signature digest)
    (hv : 3 < (Signature.fields signature).v) :
    ∃ e, answer (signature ++ digest) = .ok (.refused (.codec e)) := by
  unfold answer
  rw [Request.parse_of_isInput hin, if_pos hv]
  exact ⟨_, rfl⟩

theorem keyFor_of_isQuery {sig : Signature} (hq : IsQuery sig data digest) :
    keyFor ⟨sig, digest⟩ = CurveLibrary.recover data digest := by
  unfold keyFor
  rw [hq.encode_eq, ok_bind]

theorem hint_eq_ok {s : Int} {key : CurveLibrary.Key} {written : Bytes} (hs : InRange s)
    (hw : CurveLibrary.compressed key = .ok written) :
    ∃ inverse, hint key s = .ok (.hint written inverse)
      ∧ inverse.length = scalarLength
      ∧ (BigEndian.value inverse : Int) = ((s : ScalarField)⁻¹.val : ℕ) := by
  obtain ⟨inverse, he, hi⟩ := encodeScalar_eq_ok (Ecdsa.inRange_val (inv_ne_zero hs.ne_zero)).fits
  refine ⟨inverse, ?_, hi⟩
  unfold hint
  simp only [tryInverse_of_ne_zero Secp256k1.n_ne_zero, inverse?_of_prime hs.ne_zero, ok_bind, he,
    hw]
  rfl

/-- The hint for a key that the library finds and writes. -/
theorem answer_of_recover {key : CurveLibrary.Key} {written : Bytes}
    (hin : IsInput signature digest) (hq : IsQuery (Signature.fields signature) data digest)
    (hk : CurveLibrary.recover data digest = .ok key)
    (hw : CurveLibrary.compressed key = .ok written) :
    ∃ inverse, answer (signature ++ digest) = .ok (.hint written inverse)
      ∧ inverse.length = scalarLength
      ∧ (BigEndian.value inverse : Int)
        = (((Signature.fields signature).s : ScalarField)⁻¹.val : ℕ) := by
  obtain ⟨inverse, hh, hi⟩ := hint_eq_ok hin.s_inRange hw
  refine ⟨inverse, ?_, hi⟩
  unfold answer
  rw [Request.parse_of_isInput hin, if_neg (not_lt.2 hq.indicator_mem.2)]
  simp only [ok_bind, keyFor_of_isQuery hq, hk, pure_eq_ok]
  exact hh

theorem answer_of_recover_error {reason : ArgumentError} (hin : IsInput signature digest)
    (hq : IsQuery (Signature.fields signature) data digest)
    (he : CurveLibrary.recover data digest = .error (.argument reason)) :
    answer (signature ++ digest) = .ok (.refused (.argument reason)) := by
  unfold answer
  rw [Request.parse_of_isInput hin, if_neg (not_lt.2 hq.indicator_mem.2)]
  simp only [ok_bind, keyFor_of_isQuery hq, he, error_bind]
  rfl

/-- With a reliable library everything is answered, and the two values of a hint have their
lengths. -/
theorem exists_answer (hlib : IsReliable) (data : Bytes) :
    ∃ reply, answer data = .ok reply ∧ ∀ key inverse, reply = .hint key inverse →
      key.length = compressedLength ∧ inverse.length = scalarLength := by
  by_cases h : ∃ signature digest, IsInput signature digest ∧ data = signature ++ digest
  · obtain ⟨signature, digest, hin, rfl⟩ := h
    by_cases hv : 3 < (Signature.fields signature).v
    · obtain ⟨e, hans⟩ := answer_of_three_lt hin hv
      exact ⟨_, hans, by simp⟩
    obtain ⟨query, hq⟩ := exists_isQuery hin (not_lt.1 hv)
    rcases hk : CurveLibrary.recover query digest with e | key
    · obtain ⟨reason, rfl⟩ := hlib.eq_argument hq hk
      exact ⟨_, answer_of_recover_error hin hq hk, by simp⟩
    · obtain ⟨written, hw, hl⟩ := hlib.exists_compressed hq hk
      obtain ⟨inverse, hans, hi, -⟩ := answer_of_recover hin hq hk hw
      refine ⟨_, hans, fun key inverse h => ?_⟩
      obtain ⟨rfl, rfl⟩ := Reply.hint.inj h
      exact ⟨hl, hi⟩
  · obtain ⟨e, hans⟩ := answer_of_not_isInput fun signature digest hin heq =>
      h ⟨signature, digest, hin, heq⟩
    exact ⟨_, hans, by simp⟩

end Answers

/-! ## Standard recovery -/

/-- The key that standard recovery finds, with the indicator of the signature. -/
def IsKeyOf (signature digest : Bytes) (Q : Affine) : Prop :=
  IsRecovered (Signature.fields signature).r (Signature.fields signature).s
    (Signature.fields signature).v (digestScalar digest) Q

section Standard

variable [CurveLibrary] (hlib : IsStandard)
include hlib

/-- The hint for a key that the signature's own indicator recovers. -/
theorem answer_eq_ok (hin : IsInput signature digest) (h : IsKeyOf signature digest Q) :
    ∃ inverse, answer (signature ++ digest) = .ok (.hint (PublicKey.compress Q) inverse)
      ∧ inverse.length = scalarLength
      ∧ (BigEndian.value inverse : Int)
        = (((Signature.fields signature).s : ScalarField)⁻¹.val : ℕ) := by
  obtain ⟨data, hq⟩ := exists_isQuery hin h.1.2
  obtain ⟨key, hk, hw⟩ := (hlib.compressed_iff hq).2 ⟨Q, h, rfl⟩
  exact answer_of_recover hin hq hk hw

/-- An indicator out of range and one that recovers nothing are refused alike. -/
theorem answer_eq_refused (hin : IsInput signature digest)
    (h : ∀ Q, ¬ IsKeyOf signature digest Q) :
    ∃ reason, answer (signature ++ digest) = .ok (.refused reason) := by
  by_cases hv : 3 < (Signature.fields signature).v
  · obtain ⟨e, hans⟩ := answer_of_three_lt hin hv
    exact ⟨_, hans⟩
  obtain ⟨data, hq⟩ := exists_isQuery hin (not_lt.1 hv)
  rcases hk : CurveLibrary.recover data digest with e | key
  · obtain ⟨reason, rfl⟩ := hlib.eq_argument hq hk
    exact ⟨_, answer_of_recover_error hin hq hk⟩
  · obtain ⟨written, hw, -⟩ := hlib.exists_compressed hq hk
    obtain ⟨Q, hQ, -⟩ := (hlib.compressed_iff hq).1 ⟨key, hk, hw⟩
    exact absurd hQ (h Q)

theorem answer_cases (hin : IsInput signature digest) :
    (∃ Q inverse, IsKeyOf signature digest Q
      ∧ answer (signature ++ digest) = .ok (.hint (PublicKey.compress Q) inverse))
    ∨ (∀ Q, ¬ IsKeyOf signature digest Q)
      ∧ ∃ reason, answer (signature ++ digest) = .ok (.refused reason) := by
  by_cases h : ∃ Q, IsKeyOf signature digest Q
  · obtain ⟨Q, hQ⟩ := h
    obtain ⟨inverse, hans, -⟩ := answer_eq_ok hlib hin hQ
    exact .inl ⟨Q, inverse, hQ, hans⟩
  · exact .inr ⟨not_exists.1 h, answer_eq_refused hlib hin (not_exists.1 h)⟩

theorem isKeyOf_of_answer {inverse : Bytes} (hin : IsInput signature digest)
    (hQ : curve.IsSolution Q)
    (h : answer (signature ++ digest) = .ok (.hint (PublicKey.compress Q) inverse)) :
    IsKeyOf signature digest Q := by
  rcases answer_cases hlib hin with ⟨Q', inverse', hQ', hans⟩ | ⟨-, reason, hans⟩ <;> rw [hans] at h
  · have hkey := (Reply.hint.inj (Except.ok.inj h)).1
    rwa [← PublicKey.compress_injOn hQ'.2.1 hQ hkey]
  · exact absurd (Except.ok.inj h) (by simp)

/-- The keys that a signature verifies under are those that the provider answers to its four
indicators. -/
theorem verify_iff_answer {r s : Int} (hr : InRange r) (hs : InRange s)
    (hd : digest.length = digestLength) (hQ : curve.IsSolution Q) :
    Ecdsa.verify (PublicKey.uncompressed Q) digest r s none = .ok true
      ↔ ∃ v, (0 ≤ v ∧ v ≤ 3) ∧ ∃ data inverse, Signature.encode ⟨r, s, v⟩ = .ok data
        ∧ answer (data ++ digest) = .ok (.hint (PublicKey.compress Q) inverse) := by
  obtain ⟨accepted, hv, hiff⟩ := Ecdsa.verify_eq hQ digest r s none
  have hfields : ∀ v : Int, 0 ≤ v ∧ v ≤ 3 → ∃ data, Signature.encode ⟨r, s, v⟩ = .ok data
      ∧ Signature.fields data = ⟨r, s, v⟩ ∧ IsInput data digest := by
    intro v hv
    obtain ⟨data, he, hl, hf⟩ := @Signature.fields_encode ⟨r, s, v⟩ hr hs ⟨hv.1, by simp; omega⟩
    exact ⟨data, he, hf, hl, hd, by rwa [hf], by rwa [hf]⟩
  rw [hv, Except.ok.injEq, hiff]
  constructor
  · rintro ⟨-, -, hsig⟩
    -- The indicator to ask with is that of the point in the equation.
    have hrec := (Ecdsa.isRecovered_iff hr hs).2 ⟨hQ, hsig, rfl⟩
    obtain ⟨data, he, hf, hin⟩ := hfields _ hrec.1
    obtain ⟨inverse, hans, -⟩ := @answer_eq_ok data digest Q _ hlib hin (by rwa [IsKeyOf, hf])
    exact ⟨_, hrec.1, data, inverse, he, hans⟩
  · rintro ⟨v, hv, data, inverse, he, hans⟩
    obtain ⟨data', he', hf, hin⟩ := hfields v hv
    obtain rfl : data' = data := Except.ok.inj (he'.symm.trans he)
    have hrec := isKeyOf_of_answer hlib hin hQ hans
    rw [IsKeyOf, hf] at hrec
    exact ⟨hd.ge, by simp, ((Ecdsa.isRecovered_iff hr hs).1 hrec).2.1⟩

end Standard

/-- The nonce `1` and the key `1`, for a digest of zeros and the standard library. -/
theorem verify_iff_answer_base : IsStandard ∧ InRange curve.gx
    ∧ curve.IsSolution ⟨curve.gx, curve.gy⟩
    ∧ ∃ v, (0 ≤ v ∧ v ≤ 3) ∧ ∃ data inverse,
      Signature.encode ⟨curve.gx, curve.gx, v⟩ = .ok data
        ∧ answer (data ++ List.replicate 32 0)
          = .ok (.hint (PublicKey.compress ⟨curve.gx, curve.gy⟩) inverse) := by
  have hr : InRange curve.gx := by decide
  have hQ := Secp256k1.isSolution_base
  have hlib := CurveLibrary.isStandard_standard
  exact ⟨hlib, hr, hQ, (verify_iff_answer hlib hr hr (by simp) hQ).1 Ecdsa.verify_base⟩

end Provider

end KeyRecovery
