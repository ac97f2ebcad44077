import KeyRecovery.Proofs.Hinted.Local

/-!
# Which requests get a hint, and what a service makes of its stream

A request is answerable with the nonce point `R` if it is in format, its `r` and its indicator name
`R`, and `s R` is not `z G`, so that the key is not the identity. `Answers` has one case for such a
request and one for every other, and with a library that does standard recovery every request is
answered by one of the two (`exists_answers`). The values of a hint then pass the tests that they
are put to by those who ask: the key expands, and the inverse is a scalar in range and the only one.

One turn of the service reads a request, writes the two frames of its answer and counts it
(`outcome_respond`). `Serves` has a case for each way a request can be answered, so it says what
values and refusals a list of requests leads to. The frames of such a list are served in front of
whatever follows, and what is written for them stays written (`run_append`). With a reliable library
every list leads to some values (`exists_serves`), so the service comes to the end of the stream:
the requests are the run of frames in front, and what stands behind the run is read and lost
(`serve_of_serves`).
-/

namespace KeyRecovery.Provider

open Curve
open CurveLibrary (IsReliable IsStandard)
open Ecdsa (InRange IsNamed digestScalar)
open Hinted (baseSignature)
open Secp256k1 (curve ScalarField base)

/-! ## Answerable requests -/

section Answerable

/-- The scalar of the digest in a request. -/
def requestScalar (request : Bytes) : ScalarField := digestScalar (request.drop signatureLength)

/-- A request in format that has the nonce point `R` and recovers a key. -/
structure IsAnswerable (request : Bytes) (R : Affine) : Prop where
  length_eq : request.length = signatureLength + digestLength
  r_inRange : InRange (Signature.fields request).r
  s_inRange : InRange (Signature.fields request).s
  indicator_mem : (request.getD (scalarLength + scalarLength) 0).toNat ≤ 3
    ∨ 27 ≤ (request.getD (scalarLength + scalarLength) 0).toNat
      ∧ (request.getD (scalarLength + scalarLength) 0).toNat ≤ 30
  isNamed : IsNamed (Signature.fields request).r (Signature.fields request).v R
  key_ne_zero : ((Signature.fields request).s : ScalarField) • curve.toGroup (.ofAffine R)
    ≠ requestScalar request • base

/-- `r⁻¹ (s R - z G)`. -/
noncomputable def keyElement (request : Bytes) (R : Affine) : curve.PointGroup :=
  ((Signature.fields request).r : ScalarField)⁻¹
    • (((Signature.fields request).s : ScalarField) • curve.toGroup (.ofAffine R)
      - requestScalar request • base)

/-- The key expands to the one that is recovered with `R`, and the inverse is read as the one scalar
in range that is an inverse of `s`. -/
structure IsHintFor (request : Bytes) (R : Affine) (key inverse : Bytes) : Prop where
  key_length : key.length = compressedLength
  expand_key : ∃ Q, curve.IsSolution Q ∧ PublicKey.expand key = .ok (PublicKey.uncompressed Q)
    ∧ curve.toGroup (.ofAffine Q) = keyElement request R
  inverse_length : inverse.length = scalarLength
  readScalar_inverse :
    readScalar inverse 0 = .ok ((BigEndian.value inverse : Int), (scalarLength : Int))
  inverse_inRange : InRange (BigEndian.value inverse)
  inverse_mul : BigEndian.value inverse * (Signature.fields request).s % curve.n = 1
  inverse_unique : ∀ t, InRange t → t * (Signature.fields request).s % curve.n = 1 →
    t = BigEndian.value inverse

/-- A hint for a request that is answerable, and a refusal of any other. -/
inductive Answers (request : Bytes) : Reply → Prop
  | hint {R : Affine} {key inverse : Bytes} (hR : IsAnswerable request R)
      (hh : IsHintFor request R key inverse) : Answers request (.hint key inverse)
  | refused (reason : Refusal) (hno : ∀ R, ¬ IsAnswerable request R) :
      Answers request (.refused reason)

variable {request signature digest : Bytes} {Q R R' : Affine}

theorem IsAnswerable.unique (h : IsAnswerable request R) (h' : IsAnswerable request R') : R = R' :=
  h.isNamed.unique h'.isNamed

end Answerable

/-! ## The service -/

namespace Service

theorem write_of_encode {payload frame : Bytes} (h : Frame.encode payload = .ok frame)
    (s : Service) :
    (write payload).outcome s = (.ok (), { s with output := s.output ++ frame }) := by
  refine (Session.outcome_step _ _).trans ?_
  rw [h]

theorem forM_write_of_isSequence {payloads : List Bytes} {frames : Bytes}
    (h : Frame.IsSequence payloads frames) (s : Service) :
    (forM payloads write).outcome s = (.ok (), { s with output := s.output ++ frames }) := by
  refine Session.forM_of_isSequence (fun s frames => { s with output := s.output ++ frames })
    (fun _ => ?_) (fun _ _ _ => ?_) write_of_encode h s
  · rw [List.append_nil]
  · rw [List.append_assoc]

/-- What one turn adds. -/
theorem outcome_respond [CurveLibrary] {request frames : Bytes} {reply : Reply}
    (hans : answer request = .ok reply) (hf : Frame.IsSequence reply.payloads frames)
    (s : Service) :
    (respond request).outcome s = (.ok (), {
      served := s.served + 1
      output := s.output ++ frames
      unread := s.unread
      refusals := s.refusals ++ reply.refusal?.toList }) := by
  unfold respond
  rw [hans, Session.outcome_bind_of_ok (Session.outcome_ofResult _ s),
    Session.outcome_bind_of_ok (Session.outcome_modify _ s),
    Session.outcome_bind_of_ok (forM_write_of_isSequence hf _), Session.outcome_modify]

end Service

section Library

variable [CurveLibrary]

/-- The values written for the requests and the refusals among them, both in the order of the
requests. -/
inductive Serves : List Bytes → List Bytes → List Refusal → Prop
  | nil : Serves [] [] []
  | hint {request key inverse : Bytes} {requests values : List Bytes} {refusals : List Refusal}
      (h : answer request = .ok (.hint key inverse)) (hs : Serves requests values refusals) :
      Serves (request :: requests) (key :: inverse :: values) refusals
  | refused {request : Bytes} {requests values : List Bytes} {reason : Refusal}
      {refusals : List Refusal} (h : answer request = .ok (.refused reason))
      (hs : Serves requests values refusals) :
      Serves (request :: requests) ([] :: [] :: values) (reason :: refusals)

variable {requests requests' values values' : List Bytes} {refusals refusals' : List Refusal}

/-- The frames of the answers to the first request and to the others. -/
theorem Serves.cons {request : Bytes} {reply : Reply} (hans : answer request = .ok reply)
    (hs : Serves requests values refusals) :
    Serves (request :: requests) (reply.payloads ++ values)
      (reply.refusal?.toList ++ refusals) := by
  cases reply with
  | hint key inverse => exact .hint hans hs
  | refused reason => exact .refused hans hs

theorem exists_serves (hlib : IsReliable) : ∀ requests, ∃ values refusals output,
    Serves requests values refusals ∧ Frame.IsSequence values output
  | [] => ⟨_, _, _, .nil, .nil⟩
  | request :: requests => by
    obtain ⟨values, refusals, output, hs, ho⟩ := exists_serves hlib requests
    obtain ⟨reply, hans, hlen⟩ := exists_answer hlib request
    have hfits : ∀ value ∈ reply.payloads, value.length < 256 ^ frameHeaderLength := by
      cases reply with
      | hint key inverse =>
        obtain ⟨hk, hi⟩ := hlen key inverse rfl
        simp [Reply.payloads, hk, hi]
      | refused reason => simp [Reply.payloads]
    obtain ⟨front, hf⟩ := Frame.exists_isSequence hfits
    exact ⟨_, _, _, .cons hans hs, hf.append ho⟩

theorem Serves.append (h : Serves requests values refusals)
    (h' : Serves requests' values' refusals') :
    Serves (requests ++ requests') (values ++ values') (refusals ++ refusals') := by
  induction h with
  | nil => exact h'
  | hint hans _ ih => exact .hint hans ih
  | refused hans _ ih => exact .refused hans ih

theorem Serves.length_values (h : Serves requests values refusals) :
    values.length = 2 * requests.length := by
  induction h with
  | nil => rfl
  | hint _ _ ih | refused _ _ ih =>
    simp only [List.length_cons]
    omega

/-- One turn of the loop: the request in front is answered, and the service goes on behind it. -/
theorem Service.run_of_answer {request frame frames rest : Bytes} {reply : Reply} {s : Service}
    (hans : answer request = .ok reply) (hframe : Frame.encode request = .ok frame)
    (hf : Frame.IsSequence reply.payloads frames) (hu : s.unread = frame ++ rest) :
    s.run = Service.run {
      served := s.served + 1
      output := s.output ++ frames
      unread := rest
      refusals := s.refusals ++ reply.refusal?.toList } := by
  have hread : Frame.read s.unread = (.ok request, rest) := by
    rw [hu]
    exact Frame.read_append hframe rest
  exact run_of_ok hread (outcome_respond hans hf _)

/-- The frames in front are served, and the service goes on with what is behind them, whatever
becomes of that. -/
theorem Service.run_append {front rest output : Bytes} (h : Serves requests values refusals)
    (hin : Frame.IsSequence requests front) (ho : Frame.IsSequence values output) (served : Nat)
    (written : Bytes) (logged : List Refusal) :
    Service.run ⟨served, written, front ++ rest, logged⟩
      = Service.run ⟨served + requests.length, written ++ output, rest, logged ++ refusals⟩ := by
  induction h generalizing front output served written logged with
  | nil =>
    cases hin
    cases ho
    simp
  | hint hans _ ih | refused hans _ ih =>
    obtain - | ⟨hframe, hin⟩ := hin
    obtain - | ⟨hkey, - | ⟨hinverse, ho⟩⟩ := ho
    rw [run_of_answer hans hframe (.cons hkey (.cons hinverse .nil)) (List.append_assoc _ _ _),
      ih hin ho]
    simp [Reply.refusal?, Nat.add_comm, Nat.add_left_comm]

theorem serve_of_serves {input rest output : Bytes} (hrun : Frame.IsRun input requests rest)
    (h : Serves requests values refusals) (ho : Frame.IsSequence values output) :
    serve input = .ok { served := requests.length, output, unread := [], refusals } := by
  obtain ⟨⟨front, hf, rfl⟩, hstops⟩ := hrun
  obtain ⟨e, he⟩ := Frame.read_of_stops hstops
  unfold serve Service.ofInput
  rw [Service.run_append h hf ho, Service.run_of_error he]
  simp [Except.map]

/-- A stream is served to its end: its frames are the requests, each is answered by two values, and
each refusal is kept. Two sequences of requests are served alike one behind the other or apart. -/
theorem serve_isRun (hlib : IsReliable) (input : Bytes) :
    (∃ requests rest, Frame.IsRun input requests rest)
    ∧ (∀ requests rest, Frame.IsRun input requests rest → ∃ values refusals output,
      Serves requests values refusals ∧ values.length = 2 * requests.length
        ∧ Frame.IsSequence values output
        ∧ serve input = .ok { served := requests.length, output, unread := [], refusals })
    ∧ ∀ requests, Frame.IsSequence requests input →
      ∀ requests' input', Frame.IsSequence requests' input' → ∃ service service',
        serve input = .ok service ∧ serve input' = .ok service'
        ∧ serve (input ++ input') = .ok {
          served := service.served + service'.served
          output := service.output ++ service'.output
          unread := []
          refusals := service.refusals ++ service'.refusals } := by
  refine ⟨⟨_, Frame.isRun_readAll input⟩, fun requests rest hrun => ?_,
    fun requests hin requests' input' hin' => ?_⟩
  · obtain ⟨values, refusals, output, hs, ho⟩ := exists_serves hlib requests
    exact ⟨values, refusals, output, hs, hs.length_values, ho, serve_of_serves hrun hs ho⟩
  · obtain ⟨values, refusals, output, hs, ho⟩ := exists_serves hlib requests
    obtain ⟨values', refusals', output', hs', ho'⟩ := exists_serves hlib requests'
    have hboth := serve_of_serves (hin.append hin').isRun (hs.append hs') (ho.append ho')
    rw [List.length_append] at hboth
    exact ⟨_, _, serve_of_serves hin.isRun hs ho, serve_of_serves hin'.isRun hs' ho', hboth⟩

end Library

/-- An empty request, one that has a key, and a header cut short behind them. -/
theorem serve_isRun_base : IsReliable ∧ ∃ front inverse output reason,
    Frame.IsRun (front ++ [0, 0, 0]) [[], baseSignature curve.gx.toNat 0 ++ List.replicate 32 0]
      [0, 0, 0]
    ∧ Frame.IsSequence [[], [], PublicKey.compress ⟨curve.gx, curve.gy⟩, inverse] output
    ∧ serve (front ++ [0, 0, 0]) = .ok { served := 2, output, unread := [], refusals := [reason] }
    ∧ ∃ service, serve front = .ok service ∧ serve (front ++ front) = .ok {
      served := service.served + service.served
      output := service.output ++ service.output
      unread := []
      refusals := service.refusals ++ service.refusals } := by
  have hlib := CurveLibrary.isStandard_standard
  have hfits : ∀ payload ∈ [[], baseSignature curve.gx.toNat 0 ++ List.replicate 32 0],
      payload.length < 256 ^ frameHeaderLength := by
    simp [baseSignature]
  obtain ⟨front, hfront⟩ := Frame.exists_isSequence hfits
  have hrun : Frame.IsRun (front ++ [0, 0, 0])
      [[], baseSignature curve.gx.toNat 0 ++ List.replicate 32 0] [0, 0, 0] := by
    refine ⟨⟨front, hfront, rfl⟩, fun payload frame tail he h => ?_⟩
    obtain ⟨-, rfl⟩ := Frame.encode_eq_ok_iff.1 he
    have hlen := congrArg List.length h
    simp only [List.length_append, BigEndian.length_encode, List.length_cons, List.length_nil,
      frameHeaderLength] at hlen
    omega
  obtain ⟨values, refusals, output, hs, -, ho, hserve⟩ :=
    (serve_isRun hlib.toIsReliable _).2.1 _ _ hrun
  obtain ⟨service, service', h, h', hboth⟩ :=
    (serve_isRun hlib.toIsReliable front).2.2 _ hfront _ front hfront
  obtain rfl : service = service' := Except.ok.inj (h.symm.trans h')
  have hempty : answer [] = .ok (.refused (.codec (.bytesMissing 65))) := rfl
  obtain ⟨inverse, hans, -⟩ :=
    answer_eq_ok hlib (Hinted.isAccepted_base 0).isInput Hinted.isKeyOf_base
  cases hs with
  | hint hfirst _ => exact absurd (hempty.symm.trans hfirst) (by simp)
  | refused _ hs =>
    cases hs with
    | hint hsecond hs =>
      obtain ⟨rfl, rfl⟩ := Reply.hint.inj (Except.ok.inj (hans.symm.trans hsecond))
      cases hs
      exact ⟨hlib.toIsReliable, front, _, output, _, hrun, ho, hserve, service, h, hboth⟩
    | refused hsecond _ => exact absurd (hans.symm.trans hsecond) (by simp)

end KeyRecovery.Provider
