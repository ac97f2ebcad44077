import KeyRecovery.Proofs.Hinted.Recover
import KeyRecovery.Proofs.Provider.Answer

/-!
# Which error a recovery ends in

The tests stand in one order: the inputs, the format of the two values, the parity and the
coordinate of the key, and the signature. `Decision` has a case for each first test that fails and
one for none, and every recovery over a channel that supplies its values is one of the cases
(`decision_of_supplies`). The kinds of the errors tell the cases apart, so each kind arises exactly
under the conditions of its case, and no error of another sort arises.
-/

namespace KeyRecovery

/-- A digest has 32 bytes, and any 20 of them are shown as an address. -/
structure Checksum.IsReliable [Keccak] [Checksum] : Prop where
  length_digest (message : Bytes) : (Keccak.digest message).length = 32
  exists_text {address : Bytes} (h : address.length = 20) : ∃ shown, text address = .ok shown

theorem Checksum.isReliable_standard : Checksum.IsReliable :=
  ⟨Keccak256.length_digest, fun _ => ⟨_, rfl⟩⟩

theorem Address.exists_ofKey [Keccak] [Checksum] (hsum : Checksum.IsReliable) {key : Bytes}
    (hl : key.length = uncompressedLength) (hmark : key.head? = some 4) :
    ∃ shown, Address.ofKey key = .ok shown := by
  unfold Address.ofKey
  rw [if_pos ⟨hl, hmark⟩]
  refine hsum.exists_text ?_
  have hd : ((Hasher.new .keccak256).update key.tail).digest.length = 32 := hsum.length_digest _
  rw [List.length_drop, hd]

namespace Hinted

open Curve
open Ecdsa (InRange IsSignature digestScalar)
open PublicKey (HasParity HasCoordinate)
open RecoveryError (Kind)
open Secp256k1 (curve)

/-- The first two values have the format of a hint. -/
def IsHint : List Bytes → Prop
  | key :: inverse :: _ => key.length = compressedLength ∧ inverse.length = scalarLength
    ∧ (BigEndian.value inverse : Int) < curve.n
  | _ => False

/-- What stands in the place of the key. -/
def hintedKey (values : List Bytes) : Bytes := values.headD []

/-- The second value is the inverse of `s`, and the first is a key that satisfies the equation. -/
def IsVerified (signature digest : Bytes) : List Bytes → Prop
  | key :: inverse :: _ => BigEndian.value inverse * (Signature.fields signature).s % curve.n = 1
    ∧ ∃ Q, curve.IsSolution Q ∧ key = PublicKey.compress Q
      ∧ IsSignature (curve.toGroup (.ofAffine Q)) (digestScalar digest)
        (Signature.fields signature).r (Signature.fields signature).s
  | _ => False

variable (signature digest : Bytes)

/-- What the first failed test leads to, or the lack of one. -/
inductive Decision (values : List Bytes) : Except Failure Bytes → Prop
  | invalid {e : RecoveryError} (hin : ¬ IsInput signature digest)
      (he : e.kind = .invalidSignature) : Decision values (.error (.recovery e))
  | malformed {e : RecoveryError} (hin : IsInput signature digest) (hh : ¬ IsHint values)
      (he : e.kind = .malformedHint) : Decision values (.error (.recovery e))
  | parity (b : UInt8) (hin : IsInput signature digest) (hh : IsHint values)
      (hp : ¬ HasParity (hintedKey values)) :
      Decision values (.error (.recovery (.undecodableKey (.parity b))))
  | coordinate (e : ArgumentError) (hin : IsInput signature digest) (hh : IsHint values)
      (hp : HasParity (hintedKey values)) (hx : ¬ HasCoordinate (hintedKey values)) :
      Decision values (.error (.recovery (.undecodableKey (.coordinate e))))
  | unverified (hin : IsInput signature digest) (hh : IsHint values)
      (hp : HasParity (hintedKey values)) (hx : HasCoordinate (hintedKey values))
      (hv : ¬ IsVerified signature digest values) :
      Decision values (.error (.recovery .unverified))
  | verified {Q : Affine} (hin : IsInput signature digest) (hh : IsHint values)
      (hp : HasParity (hintedKey values)) (hx : HasCoordinate (hintedKey values))
      (hv : IsVerified signature digest values) (hk : hintedKey values = PublicKey.compress Q) :
      Decision values (.ok (PublicKey.uncompressed Q))

variable {signature digest} {values : List Bytes} {result : Except Failure Bytes}

theorem decision_judge {key inverse : Bytes} {rest : List Bytes} (hin : IsInput signature digest)
    (hh : IsHint (key :: inverse :: rest)) :
    Decision signature digest (key :: inverse :: rest)
      (judge (Signature.fields signature) digest ⟨key, BigEndian.value inverse⟩) := by
  by_cases hp : HasParity key
  · by_cases hx : HasCoordinate key
    · obtain ⟨Q, hQ, hk⟩ := PublicKey.exists_eq_compress hh.1 hp hx
      have hexp := PublicKey.expand_eq_ok_iff.2 ⟨Q, hQ, hk, rfl⟩
      -- The key is a point, so verification gives an answer and only the answer is open.
      obtain ⟨accepted, hv, hiff⟩ := Ecdsa.verify_eq hQ digest (Signature.fields signature).r
        (Signature.fields signature).s (some (BigEndian.value inverse : Int))
      have hver : accepted = true ↔ IsVerified signature digest (key :: inverse :: rest) := by
        rw [hiff]
        constructor
        · rintro ⟨-, hi, hsig⟩
          exact ⟨hi _ rfl, Q, hQ, hk, hsig⟩
        · rintro ⟨hi, Q', hQ', hk', hsig⟩
          obtain rfl := PublicKey.compress_injOn hQ hQ' (hk.symm.trans hk')
          exact ⟨hin.digest_length.ge, fun u hu => Option.some.inj hu ▸ hi, hsig⟩
      unfold judge
      simp only [hexp, hv, ok_bind]
      cases accepted
      · exact .unverified hin hh hp hx (mt hver.2 (by simp))
      · exact .verified hin hh hp hx (hver.1 rfl) hk
    · obtain ⟨e, he⟩ := PublicKey.expand_of_not_hasCoordinate hh.1 hp hx
      unfold judge
      simp only [he]
      exact .coordinate e hin hh hp hx
  · obtain ⟨b, hb⟩ := PublicKey.expand_of_not_hasParity hh.1 hp
    unfold judge
    simp only [hb]
    exact .parity b hin hh hp

/-- The result is a recovery error of this kind. -/
def FailsWith (kind : Kind) (result : Except Failure Bytes) : Prop :=
  ∃ e, result = .error (.recovery e) ∧ e.kind = kind

/-- The result is an error of kind `recoveryFailed` that rests on a recovery error of this kind. -/
def FailsFor (kind : Kind) (result : Except Failure Bytes) : Prop :=
  ∃ e r, result = .error (.recovery e) ∧ e.kind = .recoveryFailed
    ∧ e.cause = some (.recovery r) ∧ r.kind = kind

@[simp] theorem failsWith_error {kind : Kind} {e : RecoveryError} :
    FailsWith kind (.error (.recovery e)) ↔ e.kind = kind := by
  simp [FailsWith]

@[simp] theorem not_failsWith_ok {kind : Kind} {key : Bytes} : ¬ FailsWith kind (.ok key) := by
  simp [FailsWith]

variable (signature digest) in
/-- Each kind of error arises under its own condition, and a key is returned if none of them does.
Of the conditions exactly one holds. -/
structure IsDecided (values : List Bytes) (result : Except Failure Bytes) : Prop where
  invalidSignature : FailsWith .invalidSignature result ↔ ¬ IsInput signature digest
  malformedHint : FailsWith .malformedHint result ↔ IsInput signature digest ∧ ¬ IsHint values
  recoveryFailed : FailsWith .recoveryFailed result ↔ IsInput signature digest ∧ IsHint values
    ∧ ¬ (HasParity (hintedKey values) ∧ HasCoordinate (hintedKey values))
  invalidEncoding : FailsFor .invalidEncoding result ↔ IsInput signature digest ∧ IsHint values
    ∧ ¬ HasParity (hintedKey values)
  decompressionFailed : FailsFor .decompressionFailed result ↔ IsInput signature digest
    ∧ IsHint values ∧ HasParity (hintedKey values) ∧ ¬ HasCoordinate (hintedKey values)
  verificationFailed : FailsWith .verificationFailed result ↔ IsInput signature digest
    ∧ IsHint values ∧ (HasParity (hintedKey values) ∧ HasCoordinate (hintedKey values))
    ∧ ¬ IsVerified signature digest values
  returned : (∃ key, result = .ok key ∧ key.length = uncompressedLength ∧ key.head? = some 4)
    ↔ IsInput signature digest ∧ IsHint values
      ∧ (HasParity (hintedKey values) ∧ HasCoordinate (hintedKey values))
      ∧ IsVerified signature digest values
  isRecovery : ∀ e, result = .error e → ∃ r, e = .recovery r

theorem Decision.isDecided (h : Decision signature digest values result) :
    IsDecided signature digest values result := by
  cases h with
  | invalid hin he => constructor <;> simp [FailsFor, he, hin]
  | malformed hin hh he => constructor <;> simp [FailsFor, he, hin, hh]
  | parity b hin hh hp =>
    constructor <;>
      simp [FailsFor, RecoveryError.kind, RecoveryError.cause, KeyError.kind, hin, hh, hp]
  | coordinate e hin hh hp hx =>
    constructor <;>
      simp [FailsFor, RecoveryError.kind, RecoveryError.cause, KeyError.kind, hin, hh, hp, hx]
  | unverified hin hh hp hx hv =>
    constructor <;> simp [FailsFor, RecoveryError.kind, hin, hh, hp, hx, hv]
  | verified hin hh hp hx hv =>
    constructor <;> simp [FailsFor, PublicKey.uncompressed, hin, hh, hp, hx, hv]

section Channels

variable {σ : Type} [Channel σ] {c : σ}

theorem decision_of_supplies
    (hc : IsInput signature digest → Channel.Supplies c (signature ++ digest) values) :
    Decision signature digest values ((recover signature digest).outcome c).1 := by
  by_cases hin : IsInput signature digest
  · have hv := validate_eq_ok_iff.2 ⟨hin, rfl⟩
    have hs := hc hin
    -- With fewer than two values the error of the channel is the result, whatever the first one is.
    rcases values with _ | ⟨key, _ | ⟨inverse, rest⟩⟩
    · obtain ⟨e, he, hl⟩ := hs
      rw [recover_of_lacks hv hl]
      exact .malformed hin id he
    · obtain ⟨e, he, hl⟩ := hs
      rw [recover_of_lacks hv hl]
      exact .malformed hin id he
    · rw [recover_eq_of_replies hv hs]
      rcases hh : Hint.ofValues key inverse with e | hint
      · obtain ⟨r, rfl, hr⟩ := Hint.kind_of_ofValues hh
        refine .malformed hin (fun h => ?_) hr
        rw [Hint.ofValues_eq_ok_iff.2 ⟨h.1, h.2.1, h.2.2, rfl⟩] at hh
        simp at hh
      · obtain ⟨hk, hi, hn, rfl⟩ := Hint.ofValues_eq_ok_iff.1 hh
        exact decision_judge hin ⟨hk, hi, hn⟩
  · obtain ⟨r, hr, hk⟩ := validate_eq_error hin
    rw [recover_of_validate_error hr]
    exact .invalid hin hk

/-- Whatever key is returned has an address. -/
theorem recoverAddress_eq_error_iff [Keccak] [Checksum] (hsum : Checksum.IsReliable) {c' : σ}
    {e : Failure} :
    (recoverAddress signature digest).outcome c = (.error e, c')
      ↔ (recover signature digest).outcome c = (.error e, c') := by
  unfold recoverAddress
  rcases h : (recover signature digest).outcome c with ⟨e' | key, c₁⟩
  · rw [Session.outcome_bind_of_error h]
    simp
  · obtain ⟨sig, hint, -, hj⟩ := recover_eq_ok (congrArg Prod.fst h)
    obtain ⟨Q, -, -, rfl, -⟩ := judge_eq_ok_iff.1 hj
    obtain ⟨shown, hshown⟩ := Address.exists_ofKey hsum (PublicKey.length_uncompressed Q) rfl
    rw [Session.outcome_bind_of_ok h, Session.outcome_ofResult, hshown]
    simp

variable (signature digest) in
/-- What the channel supplies decides the result. Without inputs in format nothing is sent or
received, and only what fails without the address fails with it if every key has an address. -/
structure Settles [Keccak] [Checksum] (c : σ) (values : List Bytes) : Prop where
  isDecided : IsDecided signature digest values ((recover signature digest).outcome c).1
  untouched : ¬ IsInput signature digest → ((recover signature digest).outcome c).2 = c
  address : Checksum.IsReliable → ∀ e c',
    (recoverAddress signature digest).outcome c = (.error e, c')
      ↔ (recover signature digest).outcome c = (.error e, c')

theorem settles_of_supplies [Keccak] [Checksum]
    (hc : IsInput signature digest → Channel.Supplies c (signature ++ digest) values) :
    Settles signature digest c values := by
  refine ⟨(decision_of_supplies hc).isDecided, fun hin => ?_,
    fun hsum _ _ => recoverAddress_eq_error_iff hsum⟩
  obtain ⟨r, hr, -⟩ := validate_eq_error hin
  rw [recover_of_validate_error hr]

end Channels

/-- Over a local channel in any state with a reliable library, a stream channel with any bytes to
read, and any channel that replies, the same order of tests decides. -/
theorem recover_settles [CurveLibrary] [Keccak] [Checksum] (signature digest : Bytes) :
    (CurveLibrary.IsReliable → ∀ c : LocalChannel,
      Settles signature digest c (c.offers (signature ++ digest)))
    ∧ (∀ c : StreamChannel, Settles signature digest c (Frame.readAll c.unread).1)
    ∧ ∀ {σ : Type} [Channel σ] (c : σ) (key inverse : Bytes),
      Channel.Replies c (signature ++ digest) key inverse →
        Settles signature digest c [key, inverse] := by
  refine ⟨fun hlib c => settles_of_supplies fun hin => ?_,
    fun c => settles_of_supplies fun hin => ?_,
    fun c key inverse hc => settles_of_supplies fun _ => hc⟩
  · obtain ⟨reply, hans, -⟩ := Provider.exists_answer hlib (signature ++ digest)
    exact c.supplies hans
  · refine c.supplies ?_
    rw [List.length_append, hin.signature_length, hin.digest_length]
    decide

/-- Over a channel whose two values are both bad the parity byte of the key is found first. Over a
local channel with one value left over, that value stands in the place of the key. -/
theorem recover_settles_base : CurveLibrary.IsReliable ∧ Checksum.IsReliable
    ∧ FailsWith .malformedHint
      ((recover (baseSignature curve.gx.toNat 0) (List.replicate 32 0)).outcome
        (⟨[[5]], []⟩ : LocalChannel)).1
    ∧ (∃ e c', (recoverAddress (baseSignature curve.gx.toNat 0) (List.replicate 32 0)).outcome
      (⟨[[5]], []⟩ : LocalChannel) = (.error e, c'))
    ∧ Channel.Replies (ScriptedChannel.ofReplies [List.replicate 33 5, List.replicate 32 0])
      (baseSignature curve.gx.toNat 0 ++ List.replicate 32 0) (List.replicate 33 5)
      (List.replicate 32 0)
    ∧ FailsFor .invalidEncoding
      ((recover (baseSignature curve.gx.toNat 0) (List.replicate 32 0)).outcome
        (ScriptedChannel.ofReplies [List.replicate 33 5, List.replicate 32 0])).1 := by
  have hc := ScriptedChannel.replies_ofReplies
    (baseSignature curve.gx.toNat 0 ++ List.replicate 32 0) (List.replicate 33 5)
    (List.replicate 32 0)
  obtain ⟨hlocal, -, hreplies⟩ :=
    recover_settles (baseSignature curve.gx.toNat 0) (List.replicate 32 0)
  have hlib := CurveLibrary.isStandard_standard.toIsReliable
  have hl := hlocal hlib ⟨[[5]], []⟩
  have hshort : ∀ rest, ¬ IsHint ([[5]] ++ rest) := by
    rintro (_ | ⟨inverse, rest⟩) <;> simp [IsHint]
  have hfails := hl.isDecided.malformedHint.2 ⟨(isAccepted_base 0).isInput, hshort _⟩
  have hrun : ∀ {m : Session LocalChannel Bytes} {c : LocalChannel} {e : Failure},
      (m.outcome c).1 = .error e → ∃ c', m.outcome c = (.error e, c') :=
    fun h => ⟨_, Prod.ext h rfl⟩
  obtain ⟨e, he, -⟩ := id hfails
  obtain ⟨c', he⟩ := hrun he
  refine ⟨hlib, Checksum.isReliable_standard, hfails,
    ⟨_, c', (hl.address Checksum.isReliable_standard _ c').2 he⟩, hc,
    (hreplies _ _ _ hc).isDecided.invalidEncoding.2 ⟨(isAccepted_base 0).isInput, ?_, ?_⟩⟩
  · exact ⟨rfl, rfl, by decide⟩
  · simp [hintedKey, HasParity]

end Hinted

end KeyRecovery
