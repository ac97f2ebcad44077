import KeyRecovery.Hinted.Recover
import KeyRecovery.Proofs.Channel
import KeyRecovery.Proofs.Ecdsa.Recovery
import KeyRecovery.Proofs.Encoding.Signature

/-!
# Which hints are accepted, and whose choice the indicator is

Each of the three parts of a recovery succeeds under exactly the conditions that its lemma lists:
`validate_eq_ok_iff` for what is asked before the channel, `Hint.ofValues_eq_ok_iff` for the format
of the reply and `judge_eq_ok_iff` for the rest. Of the channel a recovery sees one exchange
(`outcome_recover`). Together the conditions are what `IsAccepted` says of a signature, a digest and
a reply.

The indicator of the signature is read, and then nothing looks at it. A provider can have the key of
any indicator accepted (`IsRecoveredBy.isReturnable`) and no other key (`exists_isRecoveredBy`), so
the result is that of the signature's own indicator, whatever the channel, exactly if no other
indicator recovers a key.
-/

namespace KeyRecovery

open Channel (exchange)
open Curve
open Ecdsa (InRange IsSignature IsRecovered digestScalar)
open Secp256k1 (curve ScalarField base)

/-- The lengths are tested in turn, and then the range of the inverse. -/
theorem Hint.ofValues_eq (key inverse : Bytes) :
    Hint.ofValues key inverse
      = if key.length ≠ compressedLength then .error (.recovery (.keyLength key.length))
        else if inverse.length ≠ scalarLength then
          .error (.recovery (.inverseLength inverse.length))
        else if curve.n ≤ BigEndian.value inverse then .error (.recovery (.inverse .scalarRange))
        else .ok ⟨key, BigEndian.value inverse⟩ := by
  unfold Hint.ofValues
  by_cases hk : key.length ≠ compressedLength
  · rw [if_pos hk, if_pos hk]
    rfl
  rw [if_neg hk, if_neg hk]
  by_cases hi : inverse.length ≠ scalarLength
  · rw [if_pos hi, if_pos hi]
    rfl
  rw [if_neg hi, if_neg hi, readScalar_of_length (not_not.1 hi)]
  split_ifs <;> rfl

theorem Hint.ofValues_eq_ok_iff {key inverse : Bytes} {hint : Hint} :
    Hint.ofValues key inverse = .ok hint
      ↔ key.length = compressedLength ∧ inverse.length = scalarLength
        ∧ (BigEndian.value inverse : Int) < curve.n ∧ hint = ⟨key, BigEndian.value inverse⟩ := by
  rw [Hint.ofValues_eq]
  split_ifs with hk hi hn
  · exact ⟨fun h => by simp at h, fun h => absurd h.1 hk⟩
  · exact ⟨fun h => by simp at h, fun h => absurd h.2.1 hi⟩
  · exact ⟨fun h => by simp at h, fun h => absurd h.2.2.1 (not_lt.2 hn)⟩
  · rw [Except.ok.injEq, eq_comm]
    exact ⟨fun h => ⟨not_not.1 hk, not_not.1 hi, not_le.1 hn, h⟩, fun h => h.2.2.2⟩

theorem Hint.kind_of_ofValues {key inverse : Bytes} {e : Failure}
    (h : Hint.ofValues key inverse = .error e) :
    ∃ r, e = .recovery r ∧ r.kind = .malformedHint := by
  rw [Hint.ofValues_eq] at h
  split_ifs at h
  all_goals exact ⟨_, (Except.error.inj h).symm, rfl⟩

namespace Hinted

/-! ## Accepted hints -/

section Accepted

variable {signature digest key inverse expanded : Bytes} {sig : Signature} {hint : Hint}

/-- The lengths are tested in turn, and then both scalars for their range before either for `0`. -/
theorem validate_eq (signature digest : Bytes) :
    validate signature digest
      = if signature.length ≠ signatureLength then
          .error (.recovery (.signatureLength signature.length))
        else if digest.length ≠ digestLength then .error (.recovery (.digestLength digest.length))
        else if curve.n ≤ (Signature.fields signature).r
            ∨ curve.n ≤ (Signature.fields signature).s then
          .error (.recovery (.signature .scalarRange))
        else if (Signature.fields signature).r = 0 ∨ (Signature.fields signature).s = 0 then
          .error (.recovery (.signature .scalarZero))
        else .ok (Signature.fields signature) := by
  unfold validate
  by_cases hs : signature.length ≠ signatureLength
  · rw [if_pos hs, if_pos hs]
    rfl
  rw [if_neg hs, if_neg hs]
  by_cases hd : digest.length ≠ digestLength
  · rw [if_pos hd, if_pos hd]
    rfl
  rw [if_neg hd, if_neg hd, Signature.parse_of_isLength (.inr (not_not.1 hs))]
  split_ifs <;> rfl

theorem validate_eq_ok_iff :
    validate signature digest = .ok sig
      ↔ IsInput signature digest ∧ sig = Signature.fields signature := by
  have hr : 0 ≤ (Signature.fields signature).r := Int.natCast_nonneg _
  have hs : 0 ≤ (Signature.fields signature).s := Int.natCast_nonneg _
  rw [validate_eq]
  split_ifs with hl hd hn h0
  · exact ⟨fun h => by simp at h, fun h => absurd h.1.signature_length hl⟩
  · exact ⟨fun h => by simp at h, fun h => absurd h.1.digest_length hd⟩
  · exact ⟨fun h => by simp at h, fun h => absurd hn
      (not_or.2 ⟨not_le.2 h.1.r_inRange.2, not_le.2 h.1.s_inRange.2⟩)⟩
  · exact ⟨fun h => by simp at h, fun h => absurd h0
      (not_or.2 ⟨h.1.r_inRange.1.ne', h.1.s_inRange.1.ne'⟩)⟩
  · rw [not_or] at hn h0
    rw [Except.ok.injEq, eq_comm]
    refine ⟨fun h => ⟨⟨not_not.1 hl, not_not.1 hd, ?_, ?_⟩, h⟩, fun h => h.2⟩
    · exact ⟨lt_of_le_of_ne hr (Ne.symm h0.1), not_le.1 hn.1⟩
    · exact ⟨lt_of_le_of_ne hs (Ne.symm h0.2), not_le.1 hn.2⟩

theorem validate_eq_error (h : ¬ IsInput signature digest) :
    ∃ r, validate signature digest = .error (.recovery r) ∧ r.kind = .invalidSignature := by
  rcases hv : validate signature digest with e | sig
  · rw [validate_eq] at hv
    split_ifs at hv
    all_goals exact ⟨_, hv.symm, rfl⟩
  · exact absurd (validate_eq_ok_iff.1 hv).1 h

theorem judge_eq_ok_iff :
    judge sig digest hint = .ok expanded
      ↔ ∃ Q, curve.IsSolution Q ∧ hint.key = PublicKey.compress Q
        ∧ expanded = PublicKey.uncompressed Q ∧ scalarLength ≤ digest.length
        ∧ hint.inverse * sig.s % curve.n = 1
        ∧ IsSignature (curve.toGroup (.ofAffine Q)) (digestScalar digest) sig.r sig.s := by
  unfold judge
  rcases hk : PublicKey.expand hint.key with e | key
  · refine ⟨fun h => by simp at h, fun ⟨Q, hQ, hkey, _⟩ => ?_⟩
    rw [PublicKey.expand_eq_ok_iff.2 ⟨Q, hQ, hkey, rfl⟩] at hk
    simp at hk
  · obtain ⟨Q, hQ, hkey, rfl⟩ := PublicKey.expand_eq_ok_iff.1 hk
    obtain ⟨accepted, hv, hiff⟩ := Ecdsa.verify_eq hQ digest sig.r sig.s (some hint.inverse)
    simp only [hv, ok_bind]
    constructor
    · intro h
      cases accepted
      · simp at h
      · obtain ⟨hl, hsup, hsig⟩ := hiff.1 rfl
        exact ⟨Q, hQ, hkey, (Except.ok.inj h).symm, hl, hsup _ rfl, hsig⟩
    · rintro ⟨Q', hQ', hkey', rfl, hl, hinv, hsig⟩
      have hdec := PublicKey.ofCompressed_eq_ok_iff.2 ⟨hQ, hkey⟩
      rw [PublicKey.ofCompressed_eq_ok_iff.2 ⟨hQ', hkey'⟩] at hdec
      obtain rfl := Except.ok.inj hdec
      rw [hiff.2 ⟨hl, fun u hu => Option.some.inj hu ▸ hinv, hsig⟩]
      rfl

section Channels

variable {σ : Type} [Channel σ] {c : σ}

/-- However the channel behaves, a result is one of `judge`, of a signature in format. -/
theorem recover_eq_ok (h : ((recover signature digest).outcome c).1 = .ok expanded) :
    ∃ sig hint, validate signature digest = .ok sig ∧ judge sig digest hint = .ok expanded := by
  have hrun : (recover signature digest).outcome c = (.ok expanded, _) := Prod.ext h rfl
  obtain ⟨sig, c₁, hsig, hrun⟩ := Session.outcome_bind_eq_ok_iff.1 hrun
  obtain ⟨hint, c₂, -, hrun⟩ := Session.outcome_bind_eq_ok_iff.1 hrun
  exact ⟨sig, hint, congrArg Prod.fst hsig, congrArg Prod.fst hrun⟩

theorem recover_of_validate_error {e : Failure} (h : validate signature digest = .error e) :
    (recover signature digest).outcome c = (.error e, c) := by
  unfold recover
  rw [h]
  exact Session.outcome_bind_of_error rfl

/-- The hint is put together from the two values of one exchange. -/
theorem outcome_fetch (hs : signature.length = signatureLength)
    (hd : digest.length = digestLength) (c : σ) :
    (Hint.fetch signature digest).outcome c
      = (((exchange (signature ++ digest)).outcome c).1 >>= fun v => Hint.ofValues v.1 v.2,
        ((exchange (signature ++ digest)).outcome c).2) := by
  have hfetch : Hint.fetch signature digest
      = (exchange (signature ++ digest) : Session σ _) >>= fun v =>
        Session.ofResult (Hint.ofValues v.1 v.2) := by
    unfold Hint.fetch exchange
    rw [if_neg (by omega)]
    simp only [bind_assoc, pure_bind]
  rw [hfetch, Session.outcome_bind_ofResult]

theorem outcome_recover (hin : IsInput signature digest) (c : σ) :
    (recover signature digest).outcome c
      = (((exchange (signature ++ digest)).outcome c).1 >>= fun v =>
          Hint.ofValues v.1 v.2 >>= judge (Signature.fields signature) digest,
        ((exchange (signature ++ digest)).outcome c).2) := by
  unfold recover
  rw [validate_eq_ok_iff.2 ⟨hin, rfl⟩,
    Session.outcome_bind_of_ok (Session.outcome_ofResult _ c), Session.outcome_bind_ofResult,
    outcome_fetch hin.signature_length hin.digest_length, bind_assoc]

/-- An error of the channel ends the recovery. -/
theorem recover_of_lacks {e : RecoveryError} (hv : validate signature digest = .ok sig)
    (hc : Channel.Lacks c (signature ++ digest) e) :
    ((recover signature digest).outcome c).1 = .error (.recovery e) := by
  rw [outcome_recover (validate_eq_ok_iff.1 hv).1, Channel.exchange_of_lacks hc]
  rfl

/-- The values of the channel are put together, and the hint is judged. -/
theorem recover_eq_of_replies (hv : validate signature digest = .ok sig)
    (hc : Channel.Replies c (signature ++ digest) key inverse) :
    ((recover signature digest).outcome c).1 = Hint.ofValues key inverse >>= judge sig digest := by
  obtain ⟨hin, rfl⟩ := validate_eq_ok_iff.1 hv
  rw [outcome_recover hin, Channel.exchange_of_replies hc]
  rfl

theorem recover_of_replies (hc : Channel.Replies c (signature ++ digest) key inverse) :
    ((recover signature digest).outcome c).1 = .ok expanded
      ↔ ∃ sig hint, validate signature digest = .ok sig ∧ Hint.ofValues key inverse = .ok hint
        ∧ judge sig digest hint = .ok expanded := by
  rcases hv : validate signature digest with e | sig
  · rw [recover_of_validate_error hv]
    simp
  · rw [recover_eq_of_replies hv hc]
    rcases Hint.ofValues key inverse with e | hint <;> simp

/-- What is asked of a signature, a digest and the two values of a reply for `Q` to be the key. -/
structure IsAccepted (signature digest key inverse : Bytes) (Q : Affine) : Prop where
  signature_length : signature.length = signatureLength
  r_inRange : InRange (Signature.fields signature).r
  s_inRange : InRange (Signature.fields signature).s
  digest_length : digest.length = digestLength
  key_length : key.length = compressedLength
  key_parity : key.head? = some 2 ∨ key.head? = some 3
  key_eq : key = PublicKey.compress Q
  isSolution : curve.IsSolution Q
  inverse_length : inverse.length = scalarLength
  inverse_inRange : InRange (BigEndian.value inverse)
  inverse_mul : BigEndian.value inverse * (Signature.fields signature).s % curve.n = 1
  sum_ne_zero : ((Signature.fields signature).s : ScalarField)⁻¹ • (digestScalar digest • base
    + ((Signature.fields signature).r : ScalarField) • curve.toGroup (.ofAffine Q)) ≠ 0
  sum_x : (curve.coordinates (((Signature.fields signature).s : ScalarField)⁻¹
    • (digestScalar digest • base + ((Signature.fields signature).r : ScalarField)
      • curve.toGroup (.ofAffine Q)))).x % curve.n = (Signature.fields signature).r

theorem IsAccepted.isInput {Q : Affine} (h : IsAccepted signature digest key inverse Q) :
    IsInput signature digest :=
  ⟨h.signature_length, h.digest_length, h.r_inRange, h.s_inRange⟩

/-- A number with an inverse modulo the order is not `0`. -/
theorem inRange_of_mul_emod {t s : Int} (h0 : 0 ≤ t) (hn : t < curve.n) (h : t * s % curve.n = 1) :
    InRange t := by
  refine ⟨lt_of_le_of_ne h0 ?_, hn⟩
  rintro rfl
  rw [Int.zero_mul, Int.zero_emod] at h
  omega

/-- A key that any indicator recovers is accepted, with the right inverse, whatever indicator the
signature has. -/
theorem isAccepted_of_isRecovered {Q : Affine} {v : Int} (hl : signature.length = signatureLength)
    (hd : digest.length = digestLength) (hr : InRange (Signature.fields signature).r)
    (hs : InRange (Signature.fields signature).s)
    (h : IsRecovered (Signature.fields signature).r (Signature.fields signature).s v
      (digestScalar digest) Q)
    (hil : inverse.length = scalarLength)
    (hi : (BigEndian.value inverse : Int)
      = (((Signature.fields signature).s : ScalarField)⁻¹.val : ℕ)) :
    IsAccepted signature digest (PublicKey.compress Q) inverse Q := by
  obtain ⟨hQ, hsig, -⟩ := (Ecdsa.isRecovered_iff hr hs).1 h
  rw [IsSignature, Ecdsa.noncePoint_eq] at hsig
  have hinv : InRange (BigEndian.value inverse) :=
    hi ▸ Ecdsa.inRange_val (inv_ne_zero hs.ne_zero)
  exact ⟨hl, hr, hs, hd, PublicKey.length_compress Q, PublicKey.head?_compress Q, rfl, hQ, hil,
    hinv, (Ecdsa.mul_emod_eq_one_iff_eq hinv hs).2 hi, hsig.2.2.1, hsig.2.2.2⟩

theorem IsAccepted.recover_eq_ok {Q : Affine} (h : IsAccepted signature digest key inverse Q)
    (hc : Channel.Replies c (signature ++ digest) key inverse) :
    ((recover signature digest).outcome c).1 = .ok (PublicKey.uncompressed Q) := by
  have hsig : IsSignature (curve.toGroup (.ofAffine Q)) (digestScalar digest)
      (Signature.fields signature).r (Signature.fields signature).s := by
    rw [IsSignature, Ecdsa.noncePoint_eq]
    exact ⟨h.r_inRange, h.s_inRange, h.sum_ne_zero, h.sum_x⟩
  have hv := validate_eq_ok_iff.2 ⟨h.isInput, rfl⟩
  have hh := Hint.ofValues_eq_ok_iff.2
    ⟨h.key_length, h.inverse_length, h.inverse_inRange.2, rfl⟩
  refine (recover_of_replies hc).2 ⟨_, _, hv, hh, judge_eq_ok_iff.2 ?_⟩
  exact ⟨Q, h.isSolution, h.key_eq, rfl, h.digest_length.ge, h.inverse_mul, hsig⟩

theorem isAccepted_of_recover {expanded : Bytes}
    (hc : Channel.Replies c (signature ++ digest) key inverse)
    (h : ((recover signature digest).outcome c).1 = .ok expanded) :
    ∃ Q, IsAccepted signature digest key inverse Q ∧ expanded = PublicKey.uncompressed Q := by
  obtain ⟨sig, hint, hv, hh, hj⟩ := (recover_of_replies hc).1 h
  obtain ⟨⟨hl, hd, hr, hs⟩, rfl⟩ := validate_eq_ok_iff.1 hv
  obtain ⟨hkl, hil, hin, rfl⟩ := Hint.ofValues_eq_ok_iff.1 hh
  obtain ⟨Q, hQ, rfl, rfl, -, hinv, hsig⟩ := judge_eq_ok_iff.1 hj
  rw [IsSignature, Ecdsa.noncePoint_eq] at hsig
  exact ⟨Q, ⟨hl, hr, hs, hd, hkl, PublicKey.head?_compress Q, rfl, hQ, hil,
    inRange_of_mul_emod (Int.natCast_nonneg _) hin hinv, hinv, hsig.2.2.1, hsig.2.2.2⟩, rfl⟩

/-- Over a channel that replies, recovery is exactly the acceptance of the reply. -/
theorem recover_eq_ok_iff (hc : Channel.Replies c (signature ++ digest) key inverse) :
    ((recover signature digest).outcome c).1 = .ok expanded
      ↔ ∃ Q, IsAccepted signature digest key inverse Q ∧ expanded = PublicKey.uncompressed Q := by
  constructor
  · exact isAccepted_of_recover hc
  · rintro ⟨Q, h, rfl⟩
    exact h.recover_eq_ok hc

end Channels

/-- A signature with the `r` of the nonce `1`. -/
def baseSignature (s : Nat) (v : UInt8) : Bytes :=
  BigEndian.encode scalarLength curve.gx.toNat ++ BigEndian.encode scalarLength s ++ [v]

/-- The inverse of that `r` modulo the order. -/
def baseInverse : Nat := 0x1dd887b3eaf153260a95e8b9fd31f60ac115d26ccbe1f572c0b8d7a6dec520fe

theorem fields_baseSignature {s : Nat} (hs : s < 256 ^ scalarLength) (v : UInt8) :
    Signature.fields (baseSignature s v) = ⟨curve.gx, s, Signature.indicator v⟩ := by
  have hl := BigEndian.length_encode scalarLength curve.gx.toNat
  have hx := BigEndian.value_encode_of_lt_p (v := curve.gx) (by decide) (by decide)
  rw [baseSignature, Signature.fields_append hl (BigEndian.length_encode _ _), hx,
    BigEndian.value_encode_of_lt hs]

theorem isInput_baseSignature {s : Nat} (hs : InRange s) (v : UInt8)
    (hd : digest.length = digestLength) : IsInput (baseSignature s v) digest := by
  have hf := fields_baseSignature (by exact_mod_cast hs.fits.2) v
  refine ⟨by simp [baseSignature], hd, ?_, ?_⟩
  · rw [hf]
    exact (by decide : InRange curve.gx)
  · rwa [hf]

theorem parse_baseSignature {s : Nat} (hs : InRange s) (v : UInt8) :
    Signature.parse (baseSignature s v) = .ok ⟨curve.gx, s, Signature.indicator v⟩ := by
  have hin := isInput_baseSignature hs v (BigEndian.length_encode digestLength 0)
  refine Signature.parse_eq_ok_iff.2
    ⟨.inr hin.signature_length, hin.r_inRange, hin.s_inRange, ?_⟩
  exact (fields_baseSignature (by exact_mod_cast hs.fits.2) v).symm

theorem isAccepted_base (v : UInt8) :
    IsAccepted (baseSignature curve.gx.toNat v) (List.replicate 32 0)
      (PublicKey.compress ⟨curve.gx, curve.gy⟩) (BigEndian.encode scalarLength baseInverse)
      ⟨curve.gx, curve.gy⟩ := by
  have hf : Signature.fields (baseSignature curve.gx.toNat v)
      = ⟨curve.gx, curve.gx, Signature.indicator v⟩ := fields_baseSignature (by decide) v
  have hi : BigEndian.value (BigEndian.encode scalarLength baseInverse) = baseInverse :=
    BigEndian.value_encode_of_lt (by decide)
  obtain ⟨hr, hs, hne, hx⟩ := Ecdsa.isSignature_base
  rw [Ecdsa.noncePoint_eq] at hne hx
  refine ⟨by simp [baseSignature], ?_, ?_, by simp, PublicKey.length_compress _,
    PublicKey.head?_compress _, rfl,
    Secp256k1.isSolution_base, BigEndian.length_encode _ _, ?_, ?_, ?_, ?_⟩
  · rw [hf]
    exact hr
  · rw [hf]
    exact hs
  · rw [hi]
    decide
  · rw [hi, hf]
    show (baseInverse : Int) * curve.gx % curve.n = 1
    decide
  · rw [hf, Ecdsa.digestScalar_replicate]
    exact hne
  · rw [hf, Ecdsa.digestScalar_replicate]
    exact hx

theorem recover_baseSignature :
    ((recover (baseSignature curve.gx.toNat 0) (List.replicate 32 0)).outcome
      (ScriptedChannel.ofReplies [PublicKey.compress ⟨curve.gx, curve.gy⟩,
        BigEndian.encode scalarLength baseInverse])).1
      = .ok (PublicKey.uncompressed ⟨curve.gx, curve.gy⟩) :=
  (recover_eq_ok_iff (ScriptedChannel.replies_ofReplies _ _ _)).2 ⟨_, isAccepted_base 0, rfl⟩

end Accepted

/-! ## A provider chooses the indicator -/

variable {signature digest expanded : Bytes} {v : Int} {Q : Affine}

/-- Over some channel this is the result. -/
def IsReturnable (signature digest expanded : Bytes) : Prop :=
  ∃ (σ : Type) (_ : Channel σ) (c : σ), ((recover signature digest).outcome c).1 = .ok expanded

/-- `Q` is what standard recovery finds with this indicator in place of the signature's own. -/
def IsRecoveredBy (v : Int) (signature digest : Bytes) (Q : Affine) : Prop :=
  IsRecovered (Signature.fields signature).r (Signature.fields signature).s v (digestScalar digest)
    Q

theorem exists_isRecoveredBy (h : IsReturnable signature digest expanded) :
    InRange (Signature.fields signature).r ∧ InRange (Signature.fields signature).s
      ∧ ∃ v Q, IsRecoveredBy v signature digest Q ∧ expanded = PublicKey.uncompressed Q := by
  obtain ⟨σ, _, c, h⟩ := h
  obtain ⟨sig, hint, hv, hj⟩ := recover_eq_ok h
  obtain ⟨⟨-, -, hr, hs⟩, rfl⟩ := validate_eq_ok_iff.1 hv
  obtain ⟨Q, hQ, -, hkey, -, -, hsig⟩ := judge_eq_ok_iff.1 hj
  exact ⟨hr, hs, _, Q, (Ecdsa.isRecovered_iff hr hs).2 ⟨hQ, hsig, rfl⟩, hkey⟩

/-- A script with the key and the inverse of `s` is enough. -/
theorem IsRecoveredBy.isReturnable (hl : signature.length = signatureLength)
    (hd : digest.length = digestLength) (hr : InRange (Signature.fields signature).r)
    (hs : InRange (Signature.fields signature).s) (h : IsRecoveredBy v signature digest Q) :
    IsReturnable signature digest (PublicKey.uncompressed Q) := by
  obtain ⟨inverse, -, hil, hi⟩ := encodeScalar_eq_ok
    (Ecdsa.inRange_val (inv_ne_zero hs.ne_zero)).fits
  have hacc := isAccepted_of_isRecovered hl hd hr hs h hil hi
  exact ⟨_, _, _, hacc.recover_eq_ok (ScriptedChannel.replies_ofReplies _ _ _)⟩

/-- No key is that of two indicators. -/
theorem IsRecoveredBy.indicator_eq {v' : Int} {Q' : Affine}
    (hr : InRange (Signature.fields signature).r) (hs : InRange (Signature.fields signature).s)
    (h : IsRecoveredBy v signature digest Q) (h' : IsRecoveredBy v' signature digest Q')
    (hk : PublicKey.uncompressed Q = PublicKey.uncompressed Q') : v = v' := by
  obtain rfl := PublicKey.uncompressed_injOn h.2.1 h'.2.1 hk
  rw [((Ecdsa.isRecovered_iff hr hs).1 h).2.2, ((Ecdsa.isRecovered_iff hr hs).1 h').2.2]

/-- An indicator determines the key. -/
theorem IsRecoveredBy.key_eq {Q' : Affine} (h : IsRecoveredBy v signature digest Q)
    (h' : IsRecoveredBy v signature digest Q') : Q = Q' := by
  obtain ⟨-, hQ, R, hR, hg⟩ := h
  obtain ⟨-, hQ', R', hR', hg'⟩ := h'
  rw [← hR.unique hR', ← hg] at hg'
  exact toGroup_injOn hQ hQ' hg'.symm

/-- Whatever the channel, the result is that of the signature's own indicator exactly if no other
indicator recovers a key, and it is one and the same exactly if no two indicators do. -/
theorem returned_own_iff (hl : signature.length = signatureLength)
    (hd : digest.length = digestLength) :
    ((∀ expanded, IsReturnable signature digest expanded →
        ∃ Q, IsRecoveredBy (Signature.fields signature).v signature digest Q
          ∧ expanded = PublicKey.uncompressed Q)
      ↔ (InRange (Signature.fields signature).r → InRange (Signature.fields signature).s →
        ∀ v Q, IsRecoveredBy v signature digest Q → v = (Signature.fields signature).v))
    ∧ ((∀ expanded expanded', IsReturnable signature digest expanded →
          IsReturnable signature digest expanded' → expanded = expanded')
      ↔ (InRange (Signature.fields signature).r → InRange (Signature.fields signature).s →
        ∀ v v' Q Q', IsRecoveredBy v signature digest Q → IsRecoveredBy v' signature digest Q' →
          v = v')) := by
  refine ⟨⟨?_, ?_⟩, ⟨?_, ?_⟩⟩
  · intro hall hr hs v Q hQ
    obtain ⟨Q', hown, hkey⟩ := hall _ (hQ.isReturnable hl hd hr hs)
    exact hQ.indicator_eq hr hs hown hkey
  · intro hown expanded h
    obtain ⟨hr, hs, v, Q, hQ, rfl⟩ := exists_isRecoveredBy h
    obtain rfl := hown hr hs v Q hQ
    exact ⟨Q, hQ, rfl⟩
  · intro hall hr hs v v' Q Q' hQ hQ'
    exact hQ.indicator_eq hr hs hQ'
      (hall _ _ (hQ.isReturnable hl hd hr hs) (hQ'.isReturnable hl hd hr hs))
  · intro hone expanded expanded' h h'
    obtain ⟨hr, hs, v, Q, hQ, rfl⟩ := exists_isRecoveredBy h
    obtain ⟨-, -, v', Q', hQ', rfl⟩ := exists_isRecoveredBy h'
    obtain rfl := hone hr hs v v' Q Q' hQ hQ'
    rw [hQ.key_eq hQ']

/-- With the key `G` and the nonce point `G`, but the indicator of `-G`: the provider's key is `G`,
and the one recovered is `-G`. -/
theorem returned_other_baseSignature :
    ((recover (baseSignature curve.gx.toNat 1) (List.replicate 32 0)).outcome
      (ScriptedChannel.ofReplies [PublicKey.compress ⟨curve.gx, curve.gy⟩,
        BigEndian.encode scalarLength baseInverse])).1
      = .ok (PublicKey.uncompressed ⟨curve.gx, curve.gy⟩)
    ∧ IsRecoveredBy (Signature.fields (baseSignature curve.gx.toNat 1)).v
      (baseSignature curve.gx.toNat 1) (List.replicate 32 0) ⟨curve.gx, curve.p - curve.gy⟩
    ∧ PublicKey.uncompressed ⟨curve.gx, curve.gy⟩
      ≠ PublicKey.uncompressed ⟨curve.gx, curve.p - curve.gy⟩ := by
  have hQ : curve.IsSolution ⟨curve.gx, curve.p - curve.gy⟩ := by decide +kernel
  have hr : InRange curve.gx := by decide
  refine ⟨(isAccepted_base 1).recover_eq_ok (ScriptedChannel.replies_ofReplies _ _ _), ?_, ?_⟩
  · rw [IsRecoveredBy, fields_baseSignature (by decide), Ecdsa.digestScalar_replicate]
    refine ⟨by decide, hQ, ⟨curve.gx, curve.p - curve.gy⟩, ⟨hQ, by decide, by decide⟩, ?_⟩
    rw [eq_inv_smul_iff₀ hr.ne_zero, Int.toNat_of_nonneg hr.1.le]
    module
  · intro h
    have := PublicKey.uncompressed_injOn Secp256k1.isSolution_base hQ h
    exact absurd (congrArg Affine.y this) (by decide)

/-- The nonce point `G` and `s = 1`, for a digest whose scalar is `-1`: the other parity would
recover the identity. -/
theorem returned_own_baseSignature :
    (baseSignature 1 0).length = signatureLength
    ∧ (BigEndian.encode scalarLength (curve.n - 1).toNat).length = digestLength
    ∧ ∀ expanded,
      IsReturnable (baseSignature 1 0) (BigEndian.encode scalarLength (curve.n - 1).toNat)
          expanded →
        ∃ Q, IsRecoveredBy 0 (baseSignature 1 0)
            (BigEndian.encode scalarLength (curve.n - 1).toNat) Q
          ∧ expanded = PublicKey.uncompressed Q := by
  have hl : (baseSignature 1 0).length = signatureLength := by simp [baseSignature]
  have hd := BigEndian.length_encode scalarLength (curve.n - 1).toNat
  have hf : Signature.fields (baseSignature 1 0) = ⟨curve.gx, 1, 0⟩ :=
    fields_baseSignature (by decide) 0
  have hz : digestScalar (BigEndian.encode scalarLength (curve.n - 1).toNat) = -1 := by
    have hv : (BigEndian.value (BigEndian.encode scalarLength (curve.n - 1).toNat) : Int)
        = curve.n - 1 := BigEndian.value_encode_of_lt_p (by decide) (by decide)
    rw [digestScalar, List.take_of_length_le (by simp), ← Int.cast_natCast, hv]
    push_cast
    rw [Secp256k1.intCast_n, zero_sub]
  have hown := (returned_own_iff hl hd).1.2
  rw [hf] at hown
  refine ⟨hl, hd, hown fun _ _ v Q hQ => ?_⟩
  rw [IsRecoveredBy, hf, hz] at hQ
  simp only [] at hQ
  obtain ⟨⟨h0, h3⟩, hQ, R, ⟨hR, hRx, hRy⟩, hg⟩ := hQ
  have hhigh : v / 2 % 2 ≠ 1 := by
    intro h
    rw [if_pos h] at hRx
    have hp : curve.p < curve.gx + curve.n := by decide
    have := hR.1.2
    omega
  rw [if_neg hhigh] at hRx
  by_contra hv
  -- the odd parity names the opposite of the generator, and its key is the identity
  have hne := neg_ne_zero.2 Secp256k1.base_ne_zero
  have hodd := Secp256k1.coordinates_neg_y Secp256k1.base_ne_zero
  rw [Secp256k1.coordinates_base] at hodd
  have hx' : (curve.coordinates (-base)).x = curve.gx := by
    rw [coordinates_neg_x, Secp256k1.coordinates_base]
  have hgy : curve.gy % 2 = 0 := by decide
  have hRR : R = curve.coordinates (-base) := by
    refine eq_of_x_of_parity hR (isSolution_coordinates hne) (hRx.trans hx'.symm) ?_
    simp only [] at hv hodd
    omega
  rw [hRR, toGroup_coordinates hne] at hg
  refine hQ.toGroup_ne_zero (hg.trans ?_)
  push_cast
  module

end Hinted

end KeyRecovery
