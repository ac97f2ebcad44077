import KeyRecovery.Proofs.Hinted.Decision

/-!
# Recovery with the provider in the same program

With a library that does standard recovery the provider's key is accepted where there is one
(`recoverLocally_of_isKeyOf`), and where there is none the refusal leaves the channel empty
(`recoverLocally_of_not_isKeyOf`). So what a signer wrote gives back the key of the signer, in
either form and with either way to write the indicator, and no key of an honest provider fails a
later test.

For one `r` and one indicator there is one nonce point `R`, and the key `r⁻¹ (s R - z G)` is known
from `s R - z G`. Neither `R` nor `G` is the identity, so each of the two multiples tells its scalar
modulo the order, and a changed scalar or digest leads to another key. The scalar `s` is below the
order, so its residue is all of it; a digest need not be, and two digests of one residue lead to the
same key.
-/

namespace KeyRecovery

open Curve
open CurveLibrary (IsStandard)
open Provider (IsKeyOf)
open Secp256k1 (curve ScalarField base)

/-! ## Honest providers -/

namespace Hinted

open Ecdsa (InRange IsRecovered digestScalar sign opposite)

variable {signature digest : Bytes} {sig : Signature} {Q : Affine} {d k : ℕ} {v : Int}

/-- The key `1` and the nonce `1`, for a digest of zeros. -/
theorem isKeyOf_base :
    IsKeyOf (baseSignature curve.gx.toNat 0) (List.replicate 32 0) ⟨curve.gx, curve.gy⟩ := by
  have hr : InRange curve.gx := by decide
  have hf : Signature.fields (baseSignature curve.gx.toNat 0) = ⟨curve.gx, curve.gx, 0⟩ :=
    fields_baseSignature (by decide) 0
  rw [IsKeyOf, hf, Ecdsa.digestScalar_replicate]
  refine ⟨by decide, Secp256k1.isSolution_base, ⟨curve.gx, curve.gy⟩,
    ⟨Secp256k1.isSolution_base, by decide, by decide⟩, ?_⟩
  rw [eq_inv_smul_iff₀ hr.ne_zero]
  module

section Answer

variable [CurveLibrary] (hlib : IsStandard)
include hlib

theorem recoverLocally_of_isKeyOf (hin : IsInput signature digest)
    (h : IsKeyOf signature digest Q) :
    recoverLocally signature digest = .ok (PublicKey.uncompressed Q) := by
  obtain ⟨inverse, hans, hil, hi⟩ := Provider.answer_eq_ok hlib hin h
  have hacc := isAccepted_of_isRecovered hin.signature_length hin.digest_length hin.r_inRange
    hin.s_inRange h hil hi
  exact hacc.recover_eq_ok (LocalChannel.replies_fresh hans)

theorem recoverLocally_of_not_isKeyOf (hin : IsInput signature digest)
    (h : ∀ Q, ¬ IsKeyOf signature digest Q) :
    recoverLocally signature digest = .error (.recovery .noValue) := by
  obtain ⟨reason, hans⟩ := Provider.answer_eq_refused hlib hin h
  exact recover_of_lacks (validate_eq_ok_iff.2 ⟨hin, rfl⟩) (LocalChannel.lacks_fresh hans)

/-- The keys that come back are those that standard recovery finds. -/
theorem recoverLocally_eq_ok_iff {key : Bytes} :
    recoverLocally signature digest = .ok key
      ↔ IsInput signature digest
        ∧ ∃ Q, IsKeyOf signature digest Q ∧ key = PublicKey.uncompressed Q := by
  constructor
  · intro h
    obtain ⟨sig, hint, hv, -⟩ := recover_eq_ok h
    obtain ⟨hin, -⟩ := validate_eq_ok_iff.1 hv
    rcases Provider.answer_cases hlib hin with ⟨Q, -, hQ, -⟩ | ⟨hno, -⟩
    · rw [recoverLocally_of_isKeyOf hlib hin hQ] at h
      exact ⟨hin, Q, hQ, (Except.ok.inj h).symm⟩
    · rw [recoverLocally_of_not_isKeyOf hlib hin hno] at h
      simp at h
  · rintro ⟨hin, Q, hQ, rfl⟩
    exact recoverLocally_of_isKeyOf hlib hin hQ

/-- Of the bytes of the signature only the fields matter. -/
theorem recoverLocally_congr {signature' : Bytes} (hin : IsInput signature digest)
    (hl : signature'.length = signatureLength)
    (hf : Signature.fields signature' = Signature.fields signature) :
    recoverLocally signature' digest = recoverLocally signature digest := by
  have hin' : IsInput signature' digest :=
    ⟨hl, hin.digest_length, hf ▸ hin.r_inRange, hf ▸ hin.s_inRange⟩
  have hkey : ∀ Q, IsKeyOf signature' digest Q ↔ IsKeyOf signature digest Q := fun Q => by
    rw [IsKeyOf, IsKeyOf, hf]
  rcases Provider.answer_cases hlib hin with ⟨Q, -, hQ, -⟩ | ⟨hno, -⟩
  · rw [recoverLocally_of_isKeyOf hlib hin hQ, recoverLocally_of_isKeyOf hlib hin' ((hkey Q).2 hQ)]
  · rw [recoverLocally_of_not_isKeyOf hlib hin hno,
      recoverLocally_of_not_isKeyOf hlib hin' fun Q => mt (hkey Q).1 (hno Q)]

theorem kind_of_recoverLocally {kind : RecoveryError.Kind}
    (h : FailsWith kind (recoverLocally signature digest)) :
    kind = .invalidSignature ∨ kind = .malformedHint := by
  by_cases hin : IsInput signature digest
  · rcases Provider.answer_cases hlib hin with ⟨Q, -, hQ, -⟩ | ⟨hno, -⟩
    · rw [recoverLocally_of_isKeyOf hlib hin hQ] at h
      exact absurd h not_failsWith_ok
    · rw [recoverLocally_of_not_isKeyOf hlib hin hno, failsWith_error] at h
      exact .inr h.symm
  · obtain ⟨r, hr, hk⟩ := validate_eq_error hin
    have hrec : recoverLocally signature digest = .error (.recovery r) :=
      congrArg Prod.fst (recover_of_validate_error hr)
    rw [hrec, failsWith_error, hk] at h
    exact .inl h.symm

/-- On inputs in format the local result is the provider's key expanded, which is that of standard
recovery, or an error for want of one; the two errors of a hint that does not hold never arise. -/
theorem recoverLocally_of_answer (signature digest : Bytes) :
    (IsInput signature digest → ∃ reply, Provider.answer (signature ++ digest) = .ok reply
      ∧ ((∃ expanded, recoverLocally signature digest = .ok expanded) ↔ reply.values ≠ [])
      ∧ (∀ expanded, recoverLocally signature digest = .ok expanded ↔ ∃ Q inverse,
        IsKeyOf signature digest Q ∧ reply.values = [PublicKey.compress Q, inverse]
          ∧ expanded = PublicKey.uncompressed Q)
      ∧ (reply.values = [] → FailsWith .malformedHint (recoverLocally signature digest))
      ∧ ∀ signature', signature'.length = signatureLength →
        Signature.fields signature' = Signature.fields signature →
          recoverLocally signature' digest = recoverLocally signature digest)
    ∧ ¬ FailsWith .verificationFailed (recoverLocally signature digest)
    ∧ ¬ FailsWith .recoveryFailed (recoverLocally signature digest) := by
  refine ⟨fun hin => ?_, fun h => ?_, fun h => ?_⟩
  · have hcongr := fun signature' => @recoverLocally_congr signature digest _ hlib signature' hin
    rcases Provider.answer_cases hlib hin with ⟨Q, inverse, hQ, hans⟩ | ⟨hno, reason, hans⟩
    · have hrec := recoverLocally_of_isKeyOf hlib hin hQ
      refine ⟨_, hans, by simp [hrec, Provider.Reply.values], fun expanded => ?_,
        by simp [Provider.Reply.values], hcongr⟩
      rw [hrec, Except.ok.injEq]
      constructor
      · rintro rfl
        exact ⟨Q, inverse, hQ, rfl, rfl⟩
      · rintro ⟨Q', inverse', hQ', hvalues, rfl⟩
        rw [PublicKey.compress_injOn hQ.2.1 hQ'.2.1 (List.cons.inj hvalues).1]
    · have hrec := recoverLocally_of_not_isKeyOf hlib hin hno
      refine ⟨_, hans, by simp [hrec, Provider.Reply.values], fun expanded => ?_,
        fun _ => hrec ▸ failsWith_error.2 rfl, hcongr⟩
      simp [hrec, Provider.Reply.values]
  · simpa using kind_of_recoverLocally hlib h
  · simpa using kind_of_recoverLocally hlib h

end Answer

/-- The hint for the key `1` and the nonce `1`, with the indicator written in both ways, and a
request that is refused since its indicator is out of range. -/
theorem recoverLocally_of_answer_baseSignature : IsStandard
    ∧ (IsInput (baseSignature curve.gx.toNat 0) (List.replicate 32 0)
      ∧ (∃ reply inverse,
        Provider.answer (baseSignature curve.gx.toNat 0 ++ List.replicate 32 0) = .ok reply
          ∧ reply.values = [PublicKey.compress ⟨curve.gx, curve.gy⟩, inverse])
      ∧ recoverLocally (baseSignature curve.gx.toNat 0) (List.replicate 32 0)
        = .ok (PublicKey.uncompressed ⟨curve.gx, curve.gy⟩)
      ∧ recoverLocally (baseSignature curve.gx.toNat 27) (List.replicate 32 0)
        = .ok (PublicKey.uncompressed ⟨curve.gx, curve.gy⟩))
    ∧ IsInput (baseSignature curve.gx.toNat 4) (List.replicate 32 0)
    ∧ FailsWith .malformedHint
      (recoverLocally (baseSignature curve.gx.toNat 4) (List.replicate 32 0)) := by
  have hlib := CurveLibrary.isStandard_standard
  refine ⟨hlib, ?_, ?_⟩
  · have hin := (isAccepted_base 0).isInput
    obtain ⟨reply, hans, -, hok, -, hcongr⟩ := (recoverLocally_of_answer hlib _ _).1 hin
    obtain ⟨inverse, hhint, -⟩ := Provider.answer_eq_ok hlib hin isKeyOf_base
    obtain rfl := Except.ok.inj (hans.symm.trans hhint)
    have hrec := (hok _).2 ⟨_, inverse, isKeyOf_base, rfl, rfl⟩
    have hfields : Signature.fields (baseSignature curve.gx.toNat 27)
        = Signature.fields (baseSignature curve.gx.toNat 0) :=
      (fields_baseSignature (by decide) 27).trans (fields_baseSignature (by decide) 0).symm
    exact ⟨hin, ⟨_, inverse, hans, rfl⟩, hrec,
      (hcongr _ (isAccepted_base 27).signature_length hfields).trans hrec⟩
  · have hin := (isAccepted_base 4).isInput
    obtain ⟨reply, -, hne, hok, hempty, -⟩ := (recoverLocally_of_answer hlib _ _).1 hin
    refine ⟨hin, hempty ?_⟩
    by_contra hvalues
    obtain ⟨expanded, he⟩ := hne.2 hvalues
    obtain ⟨Q, inverse, hQ, -⟩ := (hok expanded).1 he
    have hv := hQ.1.2
    rw [fields_baseSignature (by decide)] at hv
    exact absurd hv (by decide)

section Signed

variable [CurveLibrary] (hlib : IsStandard)
include hlib

/-- An indicator may be written with `27` added to it. -/
theorem recoverLocally_encode (hd : digest.length = digestLength) (hr : InRange sig.r)
    (hs : InRange sig.s) (h : IsRecovered sig.r sig.s sig.v (digestScalar digest) Q)
    (hv : v = sig.v ∨ v = sig.v + 27) :
    ∃ data, Signature.encode { sig with v := v } = .ok data
      ∧ recoverLocally data digest = .ok (PublicKey.uncompressed Q) := by
  obtain ⟨h0, h3⟩ := h.1
  have hb : 0 ≤ v ∧ v < 256 := by omega
  obtain ⟨data, he, hl, hf⟩ := @Signature.encode_eq_ok { sig with v := v } hr hs hb
  have hf : Signature.fields data = sig := by
    rw [hf]
    show Signature.mk sig.r sig.s (if 27 ≤ v then v - 27 else v) = sig
    have : (if 27 ≤ v then v - 27 else v) = sig.v := by split_ifs <;> omega
    rw [this]
  refine ⟨data, he, recoverLocally_of_isKeyOf hlib ⟨hl, hd, ?_, ?_⟩ ?_⟩
  · rwa [hf]
  · rwa [hf]
  · rwa [IsKeyOf, hf]

theorem recoverLocally_sign (hd : InRange d) (hk : InRange k) (hl : digest.length = digestLength)
    (hr : (sign d k (digestScalar digest)).r ≠ 0) (hs : (sign d k (digestScalar digest)).s ≠ 0)
    (hsig : sig = sign d k (digestScalar digest) ∨ sig = opposite (sign d k (digestScalar digest)))
    (hv : v = sig.v ∨ v = sig.v + 27) :
    ∃ data, Signature.encode { sig with v := v } = .ok data
      ∧ recoverLocally data digest
        = .ok (PublicKey.uncompressed (curve.coordinates (d • base))) := by
  have hrr := Ecdsa.inRange_sign_r hr
  have hss := Ecdsa.inRange_sign_s hs
  have hrec := Ecdsa.isRecovered_sign hd hk hr
  rcases hsig with rfl | rfl
  · exact recoverLocally_encode hlib hl hrr hss hrec hv
  · refine recoverLocally_encode hlib hl hrr ?_ hrec.opposite hv
    obtain ⟨h0, hn⟩ := hss
    show 0 < curve.n - _ ∧ curve.n - _ < curve.n
    omega

end Signed

theorem sign_one : sign 1 1 0 = ⟨curve.gx, curve.gx, 0⟩ := by
  have hr : curve.gx % curve.n = curve.gx := by decide
  have hs : (((curve.gx : ScalarField).val : ℕ) : Int) = curve.gx := by
    rw [ZMod.val_intCast, Secp256k1.natCast_toNat_n, hr]
  have hv : Ecdsa.indicatorOf ⟨curve.gx, curve.gy⟩ = 0 := by decide
  unfold sign
  rw [one_nsmul, Secp256k1.coordinates_base]
  simp [hr, hs, hv]

/-- The key `1` and the nonce `1`, for a digest of zeros. -/
theorem recoverLocally_sign_one : IsStandard
    ∧ ∃ data, Signature.encode ⟨curve.gx, curve.gx, 0⟩ = .ok data
      ∧ recoverLocally data (List.replicate 32 0)
        = .ok (PublicKey.uncompressed ⟨curve.gx, curve.gy⟩) := by
  have hsign : sign 1 1 (digestScalar (List.replicate 32 0)) = ⟨curve.gx, curve.gx, 0⟩ := by
    rw [Ecdsa.digestScalar_replicate, sign_one]
  have hne : curve.gx ≠ 0 := by decide
  have hlib := CurveLibrary.isStandard_standard
  obtain ⟨data, he, hrec⟩ := @recoverLocally_sign (List.replicate 32 0) ⟨curve.gx, curve.gx, 0⟩
    1 1 0 _ hlib (by decide) (by decide) (by simp) (by rwa [hsign]) (by rwa [hsign])
    (.inl hsign.symm) (.inl rfl)
  rw [one_nsmul, Secp256k1.coordinates_base] at hrec
  exact ⟨hlib, data, he, hrec⟩

end Hinted

/-! ## Changed scalars and digests -/

namespace Ecdsa

variable {Q Q' R : Affine} {r s s' v : Int} {z z' : ScalarField} {digest digest' : Bytes}

theorem IsRecovered.eq_iff (hr : InRange r) (h : IsRecovered r s v z Q)
    (h' : IsRecovered r s' v z' Q') (hR : IsNamed r v R) :
    Q = Q' ↔ (s : ScalarField) • curve.toGroup (.ofAffine R) - z • base
      = (s' : ScalarField) • curve.toGroup (.ofAffine R) - z' • base := by
  obtain ⟨-, hQ, S, hS, hg⟩ := h
  obtain ⟨-, hQ', S', hS', hg'⟩ := h'
  rw [← hR.unique hS] at hg
  rw [← hR.unique hS'] at hg'
  have hinv := smul_right_injective curve.PointGroup (inv_ne_zero hr.ne_zero)
  constructor
  · rintro rfl
    exact hinv (hg.symm.trans hg')
  · intro heq
    refine toGroup_injOn hQ hQ' ?_
    rw [hg, hg', heq]

/-- With one digest the scalar `s` is told from the key. -/
theorem IsRecovered.eq_iff_of_digest_eq (hr : InRange r) (h : IsRecovered r s v z Q)
    (h' : IsRecovered r s' v z Q') : Q = Q' ↔ (s : ScalarField) = s' := by
  obtain ⟨-, -, R, hR, -⟩ := id h
  rw [h.eq_iff hr h' hR, sub_left_inj]
  exact (smul_left_injective ScalarField hR.1.toGroup_ne_zero).eq_iff

/-- With one `s` the scalar of the digest is. -/
theorem IsRecovered.eq_iff_of_s_eq (hr : InRange r) (h : IsRecovered r s v z Q)
    (h' : IsRecovered r s v z' Q') : Q = Q' ↔ z = z' := by
  obtain ⟨-, -, R, hR, -⟩ := id h
  rw [h.eq_iff hr h' hR, sub_right_inj]
  exact (smul_left_injective ScalarField Secp256k1.base_ne_zero).eq_iff

theorem digestScalar_eq_iff (hd : digest.length = digestLength)
    (hd' : digest'.length = digestLength) :
    digestScalar digest = digestScalar digest'
      ↔ (BigEndian.value digest : Int) ≡ BigEndian.value digest' [ZMOD curve.n] := by
  have hl : digest.length ≤ scalarLength := hd.le
  have hl' : digest'.length ≤ scalarLength := hd'.le
  unfold digestScalar
  rw [List.take_of_length_le hl, List.take_of_length_le hl', ← Int.cast_natCast,
    ← Int.cast_natCast (BigEndian.value digest'), Secp256k1.intCast_eq_iff, Int.ModEq]

end Ecdsa

namespace Hinted

open Ecdsa (InRange IsRecovered digestScalar)

variable {signature signature' digest digest' key key' : Bytes} {r s s' v : Int}

/-- Two signatures that differ in `s` alone never recover the same key from one digest, and one
signature does so from two digests exactly if their numbers are congruent modulo the order. -/
theorem tampering_changes_key [CurveLibrary] (hlib : IsStandard)
    (hsig : Signature.parse signature = .ok ⟨r, s, v⟩)
    (hsig' : Signature.parse signature' = .ok ⟨r, s', v⟩)
    (h : recoverLocally signature digest = .ok key)
    (h' : recoverLocally signature' digest' = .ok key') :
    (digest = digest' → (key = key' ↔ s = s'))
    ∧ (s = s' → (key = key'
      ↔ (BigEndian.value digest : Int) ≡ BigEndian.value digest' [ZMOD curve.n])) := by
  obtain ⟨hin, Q, hQ, rfl⟩ := (recoverLocally_eq_ok_iff hlib).1 h
  obtain ⟨hin', Q', hQ', rfl⟩ := (recoverLocally_eq_ok_iff hlib).1 h'
  obtain ⟨-, hr, hs, hf⟩ := Signature.parse_eq_ok_iff.1 hsig
  obtain ⟨-, -, hs', hf'⟩ := Signature.parse_eq_ok_iff.1 hsig'
  rw [IsKeyOf, ← hf] at hQ
  rw [IsKeyOf, ← hf'] at hQ'
  rw [← hf] at hr hs
  rw [← hf'] at hs'
  have hkey : PublicKey.uncompressed Q = PublicKey.uncompressed Q' ↔ Q = Q' :=
    ⟨PublicKey.uncompressed_injOn hQ.2.1 hQ'.2.1, congrArg _⟩
  rw [hkey]
  constructor
  · rintro rfl
    rw [hQ.eq_iff_of_digest_eq hr hQ']
    exact ⟨hs.eq_of_intCast_eq hs', fun heq => by rw [heq]⟩
  · rintro rfl
    rw [hQ.eq_iff_of_s_eq hr hQ', Ecdsa.digestScalar_eq_iff hin.digest_length hin'.digest_length]

/-- The key `1` and the nonce `1`, with another `s`, and with the order for a digest of zeros. -/
theorem tampering_changes_key_base : IsStandard
    ∧ Signature.parse (baseSignature curve.gx.toNat 0) = .ok ⟨curve.gx, curve.gx, 0⟩
    ∧ Signature.parse (baseSignature 1 0) = .ok ⟨curve.gx, 1, 0⟩
    ∧ ∃ key other again,
      recoverLocally (baseSignature curve.gx.toNat 0) (List.replicate 32 0) = .ok key
      ∧ recoverLocally (baseSignature 1 0) (List.replicate 32 0) = .ok other ∧ key ≠ other
      ∧ recoverLocally (baseSignature curve.gx.toNat 0)
        (BigEndian.encode scalarLength curve.n.toNat) = .ok again ∧ key = again := by
  have hlib := CurveLibrary.isStandard_standard
  have hr : InRange curve.gx := by decide
  have hsig : Signature.parse (baseSignature curve.gx.toNat 0) = .ok ⟨curve.gx, curve.gx, 0⟩ :=
    parse_baseSignature (by decide) 0
  have hsig' : Signature.parse (baseSignature 1 0) = .ok ⟨curve.gx, 1, 0⟩ :=
    parse_baseSignature (by decide) 0
  have hkey := recoverLocally_of_isKeyOf hlib (isAccepted_base 0).isInput isKeyOf_base
  have hne := smul_ne_zero (inv_ne_zero hr.ne_zero) Secp256k1.base_ne_zero
  have hother : IsKeyOf (baseSignature 1 0) (List.replicate 32 0)
      (curve.coordinates ((curve.gx : ScalarField)⁻¹ • base)) := by
    rw [IsKeyOf, fields_baseSignature (by decide), Ecdsa.digestScalar_replicate]
    refine ⟨by decide, isSolution_coordinates hne, ⟨curve.gx, curve.gy⟩,
      ⟨Secp256k1.isSolution_base, by decide, by decide⟩, ?_⟩
    have hbase : curve.toGroup (.ofAffine ⟨curve.gx, curve.gy⟩) = base := rfl
    rw [toGroup_coordinates hne, hbase]
    simp only []
    push_cast
    module
  have hother := recoverLocally_of_isKeyOf hlib
    (isInput_baseSignature (by decide) 0 List.length_replicate) hother
  have hn : (BigEndian.value (List.replicate 32 0) : Int)
      ≡ BigEndian.value (BigEndian.encode scalarLength curve.n.toNat) [ZMOD curve.n] := by decide
  have hagain : IsKeyOf (baseSignature curve.gx.toNat 0)
      (BigEndian.encode scalarLength curve.n.toNat) ⟨curve.gx, curve.gy⟩ := by
    rw [IsKeyOf, ← (Ecdsa.digestScalar_eq_iff List.length_replicate (by simp)).2 hn]
    exact isKeyOf_base
  have hagain :=
    recoverLocally_of_isKeyOf hlib (isInput_baseSignature (by decide) 0 (by simp)) hagain
  refine ⟨hlib, hsig, hsig', _, _, _, hkey, hother, ?_, hagain, ?_⟩
  · rw [Ne, (tampering_changes_key hlib hsig hsig' hkey hother).1 rfl]
    decide
  · exact ((tampering_changes_key hlib hsig hsig hkey hagain).2 rfl).2 hn

end Hinted

end KeyRecovery
