import KeyRecovery.Proofs.Provider.Service

/-!
# Many calls over one channel

A call that passes its own tests makes one exchange and draws its result from the two values alone
(`outcome_of_isAdmitted`); any other leaves the channel as it is and fails on every channel alike
(`outcome_of_not_isAdmitted`). So of a channel only its exchanges matter.

A local channel whose queue is empty has it empty again after any call, so calls that share one do
not see each other (`outcomes_idle`). On a stream channel every call that is admitted uses up two
frames whatever comes of it, so the frames left are known from the number of these calls alone
(`isSequence_outcomes`), and no failure pairs a later call with the wrong frames.

The requests a list of calls writes are those of the calls that are admitted, whatever is replied
(`written_outcomes`). A service that is given them writes two values for each, so every admitted
call finds the two values of its own request in front (`outcomes_of_serves`). For a refusal a local
channel hands on nothing and a service two empty values, and both make a malformed hint
(`agree_of_answer`).
-/

namespace KeyRecovery.Hinted.Call

open Channel (exchange)
open Secp256k1 (curve)

/-! ## One call -/

section One

/-- What a call tests before it asks anything. -/
def IsAdmitted : Call → Prop
  | ⟨.hint, signature, digest⟩ =>
    signature.length = signatureLength ∧ digest.length = digestLength
  | ⟨.key, signature, digest⟩ | ⟨.address, signature, digest⟩ => IsInput signature digest

instance : DecidablePred IsAdmitted
  | ⟨.hint, _, _⟩ => inferInstanceAs (Decidable (_ ∧ _))
  | ⟨.key, signature, digest⟩ | ⟨.address, signature, digest⟩ =>
    inferInstanceAs (Decidable (IsInput signature digest))

/-- The result of a call that was admitted, from the two values it received. -/
def conclude [Keccak] [Checksum] (call : Call) (key inverse : Bytes) : Except Failure Value := do
  let hint ← Hint.ofValues key inverse
  match call.goal with
  | .hint => return .hint hint
  | .key => return .key (← judge (Signature.fields call.signature) call.digest hint)
  | .address =>
    return .address (← Address.ofKey
      (← judge (Signature.fields call.signature) call.digest hint))

variable {call : Call}

theorem IsAdmitted.lengths (h : call.IsAdmitted) :
    call.signature.length = signatureLength ∧ call.digest.length = digestLength := by
  rcases call with ⟨_ | _ | _, signature, digest⟩
  · exact h
  · exact ⟨IsInput.signature_length h, IsInput.digest_length h⟩
  · exact ⟨IsInput.signature_length h, IsInput.digest_length h⟩

theorem outcome_of_isAdmitted [Keccak] [Checksum] (h : call.IsAdmitted) {σ : Type} [Channel σ]
    (c : σ) :
    call.run.outcome c
      = (((exchange call.request).outcome c).1 >>= fun v => call.conclude v.1 v.2,
        ((exchange call.request).outcome c).2) := by
  rcases call with ⟨_ | _ | _, signature, digest⟩ <;> unfold run conclude request <;>
    simp only [Session.outcome_map]
  · rw [outcome_fetch h.1 h.2, map_bind]
    simp only [map_eq_pure_bind]
  · rw [outcome_recover h, map_bind]
    simp only [map_eq_pure_bind, bind_assoc]
  · unfold recoverAddress
    rw [Session.outcome_bind_ofResult, outcome_recover h, map_bind]
    simp only [map_eq_pure_bind, bind_assoc]

/-- The failure does not depend on the channel. -/
theorem outcome_of_not_isAdmitted [Keccak] [Checksum] (h : ¬ call.IsAdmitted) :
    ∃ e, ∀ {σ : Type} [Channel σ] (c : σ), call.run.outcome c = (.error e, c) := by
  rcases call with ⟨_ | _ | _, signature, digest⟩ <;> unfold run <;>
    simp only [Session.outcome_map]
  · refine ⟨.argument .requestLengths, fun c => ?_⟩
    unfold Hint.fetch
    rw [if_pos (not_and_or.1 h), Session.outcome_bind_of_error (Session.outcome_throw _ c)]
    rfl
  · obtain ⟨e, he, -⟩ := validate_eq_error h
    refine ⟨.recovery e, fun c => ?_⟩
    rw [recover_of_validate_error he]
    rfl
  · obtain ⟨e, he, -⟩ := validate_eq_error h
    refine ⟨.recovery e, fun c => ?_⟩
    unfold recoverAddress
    rw [Session.outcome_bind_ofResult, recover_of_validate_error he]
    rfl

end One

/-! ## Calls that share a channel -/

section Shared

theorem outcomes_cons [Keccak] [Checksum] {σ : Type} [Channel σ] (call : Call)
    (calls : List Call) (c : σ) :
    outcomes (call :: calls) c
      = ((call.run.outcome c).1 :: (outcomes calls (call.run.outcome c).2).1,
        (outcomes calls (call.run.outcome c).2).2) :=
  rfl

/-! ## A local channel -/

section Local

variable [CurveLibrary] [Keccak] [Checksum]

/-- Only the refusals show what was before. -/
theorem outcome_idle (call : Call) (refusals : List Provider.Refusal) :
    call.run.outcome (⟨[], refusals⟩ : LocalChannel)
      = ((call.run.outcome LocalChannel.fresh).1,
        ⟨[], refusals ++ (call.run.outcome LocalChannel.fresh).2.refusals⟩) := by
  by_cases h : call.IsAdmitted
  · rw [outcome_of_isAdmitted h, outcome_of_isAdmitted h, LocalChannel.exchange_idle,
      LocalChannel.fresh, LocalChannel.exchange_idle]
    rfl
  · obtain ⟨e, he⟩ := outcome_of_not_isAdmitted h
    rw [he, he, LocalChannel.fresh, List.append_nil]

theorem outcomes_idle (calls : List Call) (refusals : List Provider.Refusal) :
    outcomes calls (⟨[], refusals⟩ : LocalChannel)
      = (calls.map fun call => (call.run.outcome LocalChannel.fresh).1,
        ⟨[], refusals ++ calls.flatMap fun call =>
          (call.run.outcome LocalChannel.fresh).2.refusals⟩) := by
  induction calls generalizing refusals with
  | nil => rw [List.flatMap_nil, List.append_nil]; rfl
  | cons call calls ih =>
    rw [outcomes_cons, outcome_idle, ih, List.map_cons, List.flatMap_cons, List.append_assoc]

/-- Calls that share a local channel end as they would alone, and the queue is empty after each. -/
theorem outcomes_local (calls : List Call) (refusals : List Provider.Refusal) :
    (outcomes calls (⟨[], refusals⟩ : LocalChannel)).1
        = calls.map (fun call => (call.run.outcome LocalChannel.fresh).1)
      ∧ (outcomes calls (⟨[], refusals⟩ : LocalChannel)).2.refusals
        = refusals ++ calls.flatMap (fun call => (call.run.outcome LocalChannel.fresh).2.refusals)
      ∧ ∀ n, (outcomes (calls.take n) (⟨[], refusals⟩ : LocalChannel)).2.pending = [] := by
  refine ⟨?_, ?_, fun n => ?_⟩
  · rw [outcomes_idle]
  · rw [outcomes_idle]
  · rw [outcomes_idle]

end Local

/-! ## A stream channel -/

variable {call : Call} {c : StreamChannel} {values : List Bytes}

theorem IsAdmitted.length_request (h : call.IsAdmitted) :
    call.request.length = signatureLength + digestLength := by
  rw [request, List.length_append, h.lengths.1, h.lengths.2]

theorem IsAdmitted.request_fits (h : call.IsAdmitted) :
    call.request.length < 256 ^ frameHeaderLength := by
  rw [h.length_request]
  decide

theorem IsAdmitted.exists_frame (h : call.IsAdmitted) :
    ∃ frame, Frame.encode call.request = .ok frame :=
  ⟨_, Frame.encode_eq_ok_iff.2 ⟨h.request_fits, rfl⟩⟩

/-- Two values fewer are left, if the call is admitted. -/
theorem isSequence_outcome [Keccak] [Checksum] (call : Call)
    (hs : Frame.IsSequence values c.unread) :
    Frame.IsSequence (values.drop (if call.IsAdmitted then 2 else 0))
      (call.run.outcome c).2.unread := by
  split_ifs with h
  · obtain ⟨frame, hf⟩ := h.exists_frame
    rw [outcome_of_isAdmitted h]
    rcases values with _ | ⟨key, _ | ⟨inverse, rest⟩⟩
    · obtain ⟨e, he⟩ := StreamChannel.exchange_of_length_lt hf hs (by simp)
      rw [he]
      exact .nil
    · obtain ⟨e, he⟩ := StreamChannel.exchange_of_length_lt hf hs (by simp)
      rw [he]
      exact .nil
    · obtain ⟨first, second, behind, -, -, -, hb, he⟩ := StreamChannel.exchange_of_isSequence hf hs
      rw [he]
      exact hb
  · obtain ⟨e, he⟩ := outcome_of_not_isAdmitted h
    rw [he]
    exact hs

/-- The count of the calls that were admitted says where in the stream the next one is. -/
theorem isSequence_outcomes [Keccak] [Checksum] (calls : List Call)
    (hs : Frame.IsSequence values c.unread) :
    Frame.IsSequence (values.drop (2 * calls.countP (·.IsAdmitted)))
      (outcomes calls c).2.unread := by
  induction calls generalizing c values with
  | nil => exact hs
  | cons call calls ih =>
    have hcalls := ih (isSequence_outcome call hs)
    rw [List.drop_drop] at hcalls
    have hcount : 2 * (call :: calls).countP (·.IsAdmitted)
        = (if call.IsAdmitted then 2 else 0) + 2 * calls.countP (·.IsAdmitted) := by
      by_cases h : call.IsAdmitted
      · rw [if_pos h, List.countP_cons_of_pos (by simpa using h)]
        omega
      · rw [if_neg h, List.countP_cons_of_neg (by simpa using h), Nat.zero_add]
    rw [hcount]
    exact hcalls

/-- What the next call does to a stream channel with the frames of `values` to read. -/
structure InStep [Keccak] [Checksum] (values : List Bytes) (call : Call) (c : StreamChannel) :
    Prop where
  holds : Frame.IsSequence values c.unread
  rejected : ¬ call.IsAdmitted → ∃ e, call.run.outcome c = (.error e, c)
  sent : call.IsAdmitted → call.request.length = signatureLength + digestLength
    ∧ ∃ frame, Frame.encode call.request = .ok frame
      ∧ (call.run.outcome c).2.written = c.written ++ frame
  answered : call.IsAdmitted → ∀ key inverse rest, values = key :: inverse :: rest →
    (∃ first second, Frame.encode key = .ok first ∧ Frame.encode inverse = .ok second
      ∧ c.unread = first ++ (second ++ (call.run.outcome c).2.unread))
    ∧ ∀ {σ : Type} [Channel σ] (d : σ), Channel.Replies d call.request key inverse →
      (call.run.outcome c).1 = (call.run.outcome d).1
  exhausted : call.IsAdmitted → values.length < 2 →
    ∃ e, (call.run.outcome c).1 = .error (.recovery e) ∧ e.kind = .malformedHint

theorem inStep [Keccak] [Checksum] (call : Call) (hs : Frame.IsSequence values c.unread) :
    InStep values call c := by
  refine ⟨hs, fun h => ?_, fun h => ?_, fun h key inverse rest hvalues => ?_, fun h hl => ?_⟩
  · obtain ⟨e, he⟩ := outcome_of_not_isAdmitted h
    exact ⟨e, he c⟩
  · obtain ⟨frame, hf⟩ := h.exists_frame
    refine ⟨h.length_request, frame, hf, ?_⟩
    rw [outcome_of_isAdmitted h]
    exact StreamChannel.written_exchange hf c
  · obtain ⟨frame, hf⟩ := h.exists_frame
    subst hvalues
    obtain ⟨first, second, behind, hfirst, hsecond, hunread, -, he⟩ :=
      StreamChannel.exchange_of_isSequence hf hs
    rw [outcome_of_isAdmitted h, he]
    refine ⟨⟨first, second, hfirst, hsecond, hunread⟩, fun d hd => ?_⟩
    rw [outcome_of_isAdmitted h, Channel.exchange_of_replies hd]
  · obtain ⟨frame, hf⟩ := h.exists_frame
    obtain ⟨e, he⟩ := StreamChannel.exchange_of_length_lt hf hs hl
    rw [outcome_of_isAdmitted h, he]
    exact ⟨_, rfl, rfl⟩

/-- Whatever the calls before have come to, each that was admitted has used up two frames, and the
next one deals with the two frames behind these. -/
theorem outcomes_inStep [Keccak] [Checksum] {input : Bytes}
    (hs : Frame.IsSequence values input) (written : Bytes) (earlier : List Call) (call : Call) :
    InStep (values.drop (2 * earlier.countP (·.IsAdmitted))) call
      (outcomes earlier (⟨input, written⟩ : StreamChannel)).2 :=
  inStep call (isSequence_outcomes earlier hs)

/-- A call with nothing in format and one whose hint is malformed come first. -/
theorem outcomes_inStep_base : ∃ input,
    Frame.IsSequence [[5], [], PublicKey.compress ⟨curve.gx, curve.gy⟩,
      BigEndian.encode scalarLength baseInverse] input
    ∧ ((Call.mk .key (baseSignature curve.gx.toNat 0) (List.replicate 32 0)).run.outcome
      (outcomes [⟨.key, [], []⟩, ⟨.hint, List.replicate 65 0, List.replicate 32 0⟩]
        (StreamChannel.ofInput input)).2).1
      = .ok (.key (PublicKey.uncompressed ⟨curve.gx, curve.gy⟩)) := by
  have hfits : ∀ value ∈ [[5], [], PublicKey.compress ⟨curve.gx, curve.gy⟩,
      BigEndian.encode scalarLength baseInverse], value.length < 256 ^ frameHeaderLength := by
    simp [PublicKey.length_compress]
  obtain ⟨input, hs⟩ := Frame.exists_isSequence hfits
  have hacc := isAccepted_base 0
  have hreplies := ScriptedChannel.replies_ofReplies
    (baseSignature curve.gx.toNat 0 ++ List.replicate 32 0)
    (PublicKey.compress ⟨curve.gx, curve.gy⟩) (BigEndian.encode scalarLength baseInverse)
  have hstep := outcomes_inStep hs []
    [⟨.key, [], []⟩, ⟨.hint, List.replicate 65 0, List.replicate 32 0⟩]
    (Call.mk .key (baseSignature curve.gx.toNat 0) (List.replicate 32 0))
  refine ⟨input, hs, ?_⟩
  have hsame := (hstep.answered hacc.isInput _ _ [] rfl).2 _ hreplies
  refine hsame.trans ?_
  rw [run, Session.outcome_map, hacc.recover_eq_ok hreplies]
  rfl

end Shared

/-! ## A provider at the other end of two streams -/

section Remote

/-- The same result, or two refusals of one kind. -/
inductive Agree : Except Failure Value → Except Failure Value → Prop
  | same (result : Except Failure Value) : Agree result result
  | kind {e e' : RecoveryError} (h : e.kind = e'.kind) :
      Agree (.error (.recovery e)) (.error (.recovery e'))

/-- What the calls ask of a provider, in their order. -/
def requests (calls : List Call) : List Bytes := (calls.filter (·.IsAdmitted)).map request

variable {call : Call} {calls : List Call} {c : StreamChannel} {values : List Bytes}
  {refusals : List Provider.Refusal}

theorem requests_cons_of_isAdmitted (h : call.IsAdmitted) :
    requests (call :: calls) = call.request :: requests calls := by
  rw [requests, List.filter_cons_of_pos (by simpa using h), List.map_cons, requests]

theorem requests_cons_of_not_isAdmitted (h : ¬ call.IsAdmitted) :
    requests (call :: calls) = requests calls := by
  rw [requests, List.filter_cons_of_neg (by simpa using h), requests]

theorem length_requests (calls : List Call) :
    (requests calls).length = calls.countP (·.IsAdmitted) := by
  rw [requests, List.length_map, List.countP_eq_length_filter]

theorem exists_isSequence_requests (calls : List Call) :
    ∃ sent, Frame.IsSequence (requests calls) sent := by
  refine Frame.exists_isSequence fun payload hp => ?_
  obtain ⟨call, hcall, rfl⟩ := List.mem_map.1 hp
  have h : call.IsAdmitted := of_decide_eq_true (List.mem_filter.1 hcall).2
  exact h.request_fits

/-- What is written is the same whatever there is to read. -/
theorem written_outcomes [Keccak] [Checksum] {sent : Bytes}
    (hs : Frame.IsSequence (requests calls) sent) (c : StreamChannel) :
    (outcomes calls c).2.written = c.written ++ sent := by
  induction calls generalizing c sent with
  | nil =>
    cases hs
    exact (List.append_nil _).symm
  | cons call calls ih =>
    rw [outcomes_cons]
    by_cases h : call.IsAdmitted
    · rw [requests_cons_of_isAdmitted h] at hs
      obtain - | ⟨hframe, hrest⟩ := hs
      rw [ih hrest, outcome_of_isAdmitted h, StreamChannel.written_exchange hframe]
      exact List.append_assoc _ _ _
    · rw [requests_cons_of_not_isAdmitted h] at hs
      obtain ⟨e, he⟩ := outcome_of_not_isAdmitted h
      rw [ih hs, he]

/-- The two empty values of a refusal are no hint. -/
theorem conclude_nil [Keccak] [Checksum] (call : Call) :
    call.conclude [] [] = .error (.recovery (.keyLength 0)) := by
  rw [conclude, Hint.ofValues_eq]
  rfl

section Library

variable [CurveLibrary] [Keccak] [Checksum]

/-- A call that finds the values of its own answer in front agrees with one on a local channel, and
leaves what is behind them. -/
theorem agree_of_answer {reply : Provider.Reply} (h : call.IsAdmitted)
    (hans : Provider.answer call.request = .ok reply)
    (hs : Frame.IsSequence (reply.payloads ++ values) c.unread) :
    Agree (call.run.outcome c).1 (call.run.outcome LocalChannel.fresh).1
      ∧ Frame.IsSequence values (call.run.outcome c).2.unread := by
  obtain ⟨frame, hf⟩ := h.exists_frame
  have hlocal := LocalChannel.exchange_idle call.request []
  rw [hans, ok_bind] at hlocal
  rw [outcome_of_isAdmitted h c, outcome_of_isAdmitted h LocalChannel.fresh, LocalChannel.fresh,
    hlocal]
  cases reply with
  | hint key inverse =>
    obtain ⟨first, second, rest, -, -, -, hrest, he⟩ := StreamChannel.exchange_of_isSequence hf hs
    rw [he]
    exact ⟨.same _, hrest⟩
  | refused reason =>
    obtain ⟨first, second, rest, -, -, -, hrest, he⟩ := StreamChannel.exchange_of_isSequence hf hs
    rw [he]
    refine ⟨?_, hrest⟩
    show Agree (call.conclude [] []) _
    rw [conclude_nil]
    exact .kind rfl

/-- The calls and the service's values are walked along together: an admitted call takes the two
values of its request, and any other takes none and has none. -/
theorem outcomes_of_serves (h : Provider.Serves (requests calls) values refusals)
    (hs : Frame.IsSequence values c.unread) :
    List.Forall₂ Agree (outcomes calls c).1
      (calls.map fun call => (call.run.outcome LocalChannel.fresh).1) := by
  induction calls generalizing values refusals c with
  | nil => exact .nil
  | cons call calls ih =>
    rw [outcomes_cons, List.map_cons]
    by_cases hadm : call.IsAdmitted
    · rw [requests_cons_of_isAdmitted hadm] at h
      cases h with
      | hint hans hserves =>
        obtain ⟨hagree, hrest⟩ := agree_of_answer hadm hans hs
        exact .cons hagree (ih hserves hrest)
      | refused hans hserves =>
        obtain ⟨hagree, hrest⟩ := agree_of_answer hadm hans hs
        exact .cons hagree (ih hserves hrest)
    · rw [requests_cons_of_not_isAdmitted hadm] at h
      obtain ⟨e, he⟩ := outcome_of_not_isAdmitted hadm
      rw [he, he]
      exact .cons (.same _) (ih h hs)

/-- With a service at the other end each call comes to what it comes to with the provider in the
same program, but for the wording of a refusal. What is sent is fixed by the calls, one request is
served for each call that is admitted, and every value that the service writes is read. -/
theorem outcomes_remote (hlib : CurveLibrary.IsReliable) (calls : List Call) : ∃ sent service,
    (∀ input, (outcomes calls (StreamChannel.ofInput input)).2.written = sent)
    ∧ Provider.serve sent = .ok service
    ∧ service.served = calls.countP (·.IsAdmitted)
    ∧ (outcomes calls (StreamChannel.ofInput service.output)).2.unread = []
    ∧ List.Forall₂ Agree (outcomes calls (StreamChannel.ofInput service.output)).1
      (calls.map fun call => (call.run.outcome LocalChannel.fresh).1) := by
  obtain ⟨sent, hsent⟩ := exists_isSequence_requests calls
  obtain ⟨values, refusals, output, hserves, ho⟩ := Provider.exists_serves hlib (requests calls)
  refine ⟨sent, _, fun input => written_outcomes hsent _,
    Provider.serve_of_serves hsent.isRun hserves ho, length_requests calls, ?_,
    outcomes_of_serves hserves ho⟩
  have hleft := @isSequence_outcomes (StreamChannel.ofInput output) values _ _ calls ho
  rw [List.drop_of_length_le (by rw [hserves.length_values, length_requests])] at hleft
  exact Frame.isSequence_nil_iff.1 hleft

end Library

/-- A call with nothing in format, and behind it one for the key `1` and the nonce `1`. -/
theorem outcomes_remote_base : CurveLibrary.IsReliable ∧ ∃ sent service result,
    Provider.serve sent = .ok service ∧ service.served = 1
      ∧ (outcomes [⟨.key, [], []⟩,
          ⟨.key, baseSignature curve.gx.toNat 0, List.replicate 32 0⟩]
        (StreamChannel.ofInput service.output)).1
        = [result, .ok (.key (PublicKey.uncompressed ⟨curve.gx, curve.gy⟩))] := by
  have hlib := CurveLibrary.isStandard_standard
  have hin := (isAccepted_base 0).isInput
  obtain ⟨sent, service, -, hserve, hserved, -, hagree⟩ :=
    outcomes_remote hlib.toIsReliable [⟨.key, [], []⟩,
      ⟨.key, baseSignature curve.gx.toNat 0, List.replicate 32 0⟩]
  have hlocal : ((Call.mk .key (baseSignature curve.gx.toNat 0) (List.replicate 32 0)).run.outcome
      LocalChannel.fresh).1 = .ok (.key (PublicKey.uncompressed ⟨curve.gx, curve.gy⟩)) := by
    have hrec := recoverLocally_of_isKeyOf hlib hin isKeyOf_base
    rw [recoverLocally] at hrec
    rw [run, Session.outcome_map, hrec]
    rfl
  have hfirst : ¬ (Call.mk .key [] []).IsAdmitted := fun h =>
    absurd (IsInput.signature_length h) (by simp)
  have hsecond : (Call.mk .key (baseSignature curve.gx.toNat 0)
    (List.replicate 32 0)).IsAdmitted := hin
  rw [List.countP_cons_of_neg (by simpa using hfirst),
    List.countP_cons_of_pos (by simpa using hsecond)] at hserved
  rw [List.map_cons, List.map_cons, List.map_nil, hlocal] at hagree
  refine ⟨hlib.toIsReliable, sent, service, ?_⟩
  generalize (outcomes _ (StreamChannel.ofInput service.output)).1 = results at hagree ⊢
  obtain - | ⟨-, - | ⟨hsame, ⟨⟩⟩⟩ := hagree
  cases hsame
  exact ⟨_, hserve, hserved, rfl⟩

end Remote

end KeyRecovery.Hinted.Call
