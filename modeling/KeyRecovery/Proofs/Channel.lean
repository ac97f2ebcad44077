import KeyRecovery.Channel.Scripted
import KeyRecovery.Proofs.Encoding.Frame

/-!
# What a channel replies to one request

A session is over with a result only if every step of it was. `Replies` is all that a session with
one request sees of a channel that has both values to hand out, and `Lacks` of one that has not;
`Supplies` is one or the other, by how many values there are. A local channel has what is left in
its queue and the values of the answer, a stream channel the payloads of the complete frames in
front of it, and a scripted channel can be made to reply anything.

Whoever asks a provider makes one exchange and no more. On a local channel with nothing in its queue
an exchange takes out what it puts in, so it ends as on a fresh channel (`exchange_idle`). On a
stream channel it writes one frame and reads the two frames in front, or all there is if there are
fewer (`exchange_of_isSequence`, `exchange_of_length_lt`).
-/

namespace KeyRecovery

/-! ## Replies -/

theorem Session.outcome_bind_eq_ok_iff {σ α β : Type} {m : Session σ α} {f : α → Session σ β}
    {c c' : σ} {b : β} :
    (m >>= f).outcome c = (.ok b, c')
      ↔ ∃ a c₁, m.outcome c = (.ok a, c₁) ∧ (f a).outcome c₁ = (.ok b, c') := by
  rcases h : m.outcome c with ⟨e | a, c₁⟩
  · rw [outcome_bind_of_error h]
    simp
  · rw [outcome_bind_of_ok h]
    constructor
    · intro hb
      exact ⟨a, c₁, rfl, hb⟩
    · rintro ⟨a', c₁', heq, hb⟩
      obtain ⟨ha, rfl⟩ := Prod.mk.inj heq
      rwa [Except.ok.inj ha]

/-- A session that writes the frame of each payload writes all the frames. -/
theorem Session.forM_of_isSequence {σ : Type} {step : Bytes → Session σ Unit}
    (put : σ → Bytes → σ) (hnil : ∀ c, put c [] = c)
    (happend : ∀ c front rest, put (put c front) rest = put c (front ++ rest))
    (hstep : ∀ {payload frame}, Frame.encode payload = .ok frame → ∀ c,
      (step payload).outcome c = (.ok (), put c frame))
    {payloads : List Bytes} {stream : Bytes} (h : Frame.IsSequence payloads stream) (c : σ) :
    (forM payloads step).outcome c = (.ok (), put c stream) := by
  induction h generalizing c with
  | nil => rw [hnil, List.forM_nil, outcome_pure]
  | cons hframe _ ih => rw [List.forM_cons, outcome_bind_of_ok (hstep hframe c), ih, happend]

namespace Channel

variable {σ : Type} [Channel σ]

/-- The channel takes the request, and then hands out these two values. -/
def Replies (c : σ) (request key inverse : Bytes) : Prop :=
  ∃ c₁ c₂ c₃, (Channel.send request : Session σ Unit).outcome c = (.ok (), c₁)
    ∧ (Channel.receive : Session σ Bytes).outcome c₁ = (.ok key, c₂)
    ∧ (Channel.receive : Session σ Bytes).outcome c₂ = (.ok inverse, c₃)

/-- The channel takes the request, and then fails to hand out the first or the second value. -/
inductive Lacks (c : σ) (request : Bytes) (e : RecoveryError) : Prop
  | first {c₁ c₂ : σ}
      (hsend : (Channel.send request : Session σ Unit).outcome c = (.ok (), c₁))
      (hkey : (Channel.receive : Session σ Bytes).outcome c₁ = (.error (.recovery e), c₂))
  | second {c₁ c₂ c₃ : σ} {key : Bytes}
      (hsend : (Channel.send request : Session σ Unit).outcome c = (.ok (), c₁))
      (hkey : (Channel.receive : Session σ Bytes).outcome c₁ = (.ok key, c₂))
      (hinverse : (Channel.receive : Session σ Bytes).outcome c₂ = (.error (.recovery e), c₃))

/-- The channel takes the request, and these are the values it has to hand out. -/
def Supplies (c : σ) (request : Bytes) : List Bytes → Prop
  | key :: inverse :: _ => Replies c request key inverse
  | _ => ∃ e, e.kind = .malformedHint ∧ Lacks c request e

end Channel

theorem ScriptedChannel.replies_ofReplies (request key inverse : Bytes) :
    Channel.Replies (ScriptedChannel.ofReplies [key, inverse]) request key inverse :=
  ⟨_, _, _, rfl, rfl, rfl⟩

namespace LocalChannel

variable [CurveLibrary] {request key inverse : Bytes} {reply : Provider.Reply}
  {reason : Provider.Refusal}

/-- What is left in the queue, and behind it the values of the answer. -/
def offers (c : LocalChannel) (request : Bytes) : List Bytes :=
  c.pending ++ match Provider.answer request with
    | .ok reply => reply.values
    | .error _ => []

theorem send_of_answer (c : LocalChannel) (h : Provider.answer request = .ok reply) :
    (Channel.send request : Session LocalChannel Unit).outcome c = (.ok (), c.enqueue reply) := by
  refine (Session.outcome_step _ _).trans ?_
  rw [h]

theorem supplies (c : LocalChannel) (h : Provider.answer request = .ok reply) :
    Channel.Supplies c request (c.offers request) := by
  have hsend := send_of_answer c h
  have hq : c.offers request = (c.enqueue reply).pending := by rw [offers, h, enqueue]
  rw [hq]
  generalize c.enqueue reply = c₁ at hsend
  rcases c₁ with ⟨_ | ⟨key, _ | ⟨inverse, rest⟩⟩, refusals⟩
  · exact ⟨_, rfl, .first hsend rfl⟩
  · exact ⟨_, rfl, .second hsend rfl rfl⟩
  · exact ⟨_, _, _, hsend, rfl, rfl⟩

theorem replies_fresh (h : Provider.answer request = .ok (.hint key inverse)) :
    Channel.Replies LocalChannel.fresh request key inverse :=
  ⟨_, _, _, send_of_answer fresh h, rfl, rfl⟩

theorem lacks_fresh (h : Provider.answer request = .ok (.refused reason)) :
    Channel.Lacks LocalChannel.fresh request .noValue :=
  .first (send_of_answer fresh h) rfl

end LocalChannel

namespace StreamChannel

variable {c : StreamChannel} {request frame payload rest : Bytes} {e : CodecError}

theorem receive_of_ok (h : Frame.read c.unread = (.ok payload, rest)) :
    (Channel.receive : Session StreamChannel Bytes).outcome c
      = (.ok payload, { c with unread := rest }) := by
  refine (Session.outcome_step _ _).trans ?_
  rw [h]
  rfl

theorem receive_of_error (h : Frame.read c.unread = (.error e, rest)) :
    (Channel.receive : Session StreamChannel Bytes).outcome c
      = (.error (.recovery (.frame e)), { c with unread := rest }) := by
  refine (Session.outcome_step _ _).trans ?_
  rw [h]
  rfl

theorem send_of_encode (c : StreamChannel) (h : Frame.encode request = .ok frame) :
    (Channel.send request : Session StreamChannel Unit).outcome c
      = (.ok (), { c with written := c.written ++ frame }) := by
  refine (Session.outcome_step _ _).trans ?_
  rw [h]

theorem supplies (c : StreamChannel) (h : request.length < 256 ^ frameHeaderLength) :
    Channel.Supplies c request (Frame.readAll c.unread).1 := by
  have hsend := send_of_encode c (Frame.encode_eq_ok_iff.2 ⟨h, rfl⟩)
  rcases hkey : Frame.read c.unread with ⟨e | key, behind⟩
  · rw [Frame.readAll_of_error hkey]
    exact ⟨_, rfl, .first hsend (receive_of_error hkey)⟩
  rw [Frame.readAll_of_ok hkey]
  rcases hinverse : Frame.read behind with ⟨e | inverse, rest⟩
  · rw [Frame.readAll_of_error hinverse]
    exact ⟨_, rfl, .second hsend (receive_of_ok hkey) (receive_of_error hinverse)⟩
  · rw [Frame.readAll_of_ok hinverse]
    exact ⟨_, _, _, hsend, receive_of_ok hkey, receive_of_ok hinverse⟩

end StreamChannel

/-! ## One request and the two values received for it -/

namespace Session

variable {σ α β : Type}

theorem outcome_map (f : α → β) (m : Session σ α) (c : σ) :
    (f <$> m).outcome c = (f <$> (m.outcome c).1, (m.outcome c).2) := by
  rw [map_eq_pure_bind]
  rcases h : m.outcome c with ⟨e | a, c'⟩
  · exact outcome_bind_of_error h
  · exact outcome_bind_of_ok h

/-- What follows needs no channel and leaves it alone. -/
theorem outcome_bind_ofResult (m : Session σ α) (f : α → Except Failure β) (c : σ) :
    (m >>= fun a => ofResult (f a)).outcome c = ((m.outcome c).1 >>= f, (m.outcome c).2) := by
  rcases h : m.outcome c with ⟨e | a, c'⟩
  · exact outcome_bind_of_error h
  · exact outcome_bind_of_ok h

end Session

namespace Channel

variable {σ : Type} [Channel σ]

def exchange (request : Bytes) : Session σ (Bytes × Bytes) := do
  Channel.send request
  let key ← Channel.receive
  let inverse ← Channel.receive
  return (key, inverse)

variable {c : σ} {request : Bytes}

theorem exchange_of_replies {key inverse : Bytes} (h : Replies c request key inverse) :
    ((exchange request).outcome c).1 = .ok (key, inverse) := by
  obtain ⟨c₁, c₂, c₃, hsend, hkey, hinverse⟩ := h
  unfold exchange
  rw [Session.outcome_bind_of_ok hsend, Session.outcome_bind_of_ok hkey,
    Session.outcome_bind_of_ok hinverse, Session.outcome_pure]

theorem exchange_of_lacks {e : RecoveryError} (h : Lacks c request e) :
    ((exchange request).outcome c).1 = .error (.recovery e) := by
  unfold exchange
  cases h with
  | first hsend hkey =>
    rw [Session.outcome_bind_of_ok hsend, Session.outcome_bind_of_error hkey]
  | second hsend hkey hinverse =>
    rw [Session.outcome_bind_of_ok hsend, Session.outcome_bind_of_ok hkey,
      Session.outcome_bind_of_error hinverse]

end Channel

open Channel (exchange)

/-- What a channel in the same program hands on of an answer. -/
def Provider.Reply.received : Provider.Reply → Except Failure (Bytes × Bytes)
  | .hint key inverse => .ok (key, inverse)
  | .refused _ => .error (.recovery .noValue)

/-- The refusal in an answer; what ends in another failure is not answered at all. -/
def Provider.refusalOf (result : Except Failure Provider.Reply) : List Provider.Refusal :=
  match result with
  | .ok reply => reply.refusal?.toList
  | .error _ => []

theorem LocalChannel.exchange_idle [CurveLibrary] (request : Bytes)
    (refusals : List Provider.Refusal) :
    (exchange request).outcome (⟨[], refusals⟩ : LocalChannel)
      = (Provider.answer request >>= Provider.Reply.received,
        ⟨[], refusals ++ Provider.refusalOf (Provider.answer request)⟩) := by
  unfold exchange
  rcases h : Provider.answer request with e | reply
  · have hsend : (Channel.send request : Session LocalChannel Unit).outcome ⟨[], refusals⟩
        = (.error e, ⟨[], refusals⟩) := by
      refine (Session.outcome_step _ _).trans ?_
      rw [h]
    rw [Session.outcome_bind_of_error hsend, Provider.refusalOf, List.append_nil, error_bind]
  · rw [Session.outcome_bind_of_ok (send_of_answer _ h)]
    cases reply <;> rfl

namespace StreamChannel

variable {request frame key inverse : Bytes} {values : List Bytes} {c : StreamChannel}

/-- What is written does not depend on what there is to read. -/
theorem written_exchange (h : Frame.encode request = .ok frame) (c : StreamChannel) :
    ((exchange request).outcome c).2.written = c.written ++ frame := by
  rcases c with ⟨unread, written⟩
  unfold exchange
  rw [Session.outcome_bind_of_ok (send_of_encode _ h)]
  rcases hkey : Frame.read unread with ⟨e | key, behind⟩
  · rw [Session.outcome_bind_of_error (receive_of_error hkey)]
  rw [Session.outcome_bind_of_ok (receive_of_ok hkey)]
  rcases hinverse : Frame.read behind with ⟨e | inverse, rest⟩
  · rw [Session.outcome_bind_of_error (receive_of_error hinverse)]
  · rw [Session.outcome_bind_of_ok (receive_of_ok hinverse), Session.outcome_pure]

theorem exchange_of_isSequence (h : Frame.encode request = .ok frame)
    (hs : Frame.IsSequence (key :: inverse :: values) c.unread) :
    ∃ first second rest, Frame.encode key = .ok first ∧ Frame.encode inverse = .ok second
      ∧ c.unread = first ++ (second ++ rest) ∧ Frame.IsSequence values rest
      ∧ (exchange request).outcome c = (.ok (key, inverse), ⟨rest, c.written ++ frame⟩) := by
  rcases c with ⟨unread, written⟩
  obtain - | ⟨hfirst, - | ⟨hsecond, hrest⟩⟩ := hs
  refine ⟨_, _, _, hfirst, hsecond, rfl, hrest, ?_⟩
  unfold exchange
  rw [Session.outcome_bind_of_ok (send_of_encode _ h),
    Session.outcome_bind_of_ok (receive_of_ok (Frame.read_append hfirst _)),
    Session.outcome_bind_of_ok (receive_of_ok (Frame.read_append hsecond _)), Session.outcome_pure]

/-- A single frame is used up all the same. -/
theorem exchange_of_length_lt (h : Frame.encode request = .ok frame)
    (hs : Frame.IsSequence values c.unread) (hl : values.length < 2) :
    ∃ e, (exchange request).outcome c
      = (.error (.recovery (.frame e)), ⟨[], c.written ++ frame⟩) := by
  rcases c with ⟨unread, written⟩
  unfold exchange
  rw [Session.outcome_bind_of_ok (send_of_encode _ h)]
  obtain - | ⟨hfirst, - | -⟩ := hs
  · rw [Session.outcome_bind_of_error (receive_of_error Frame.read_nil)]
    exact ⟨_, rfl⟩
  · rw [Session.outcome_bind_of_ok (receive_of_ok (Frame.read_append hfirst _)),
      Session.outcome_bind_of_error (receive_of_error Frame.read_nil)]
    exact ⟨_, rfl⟩
  · simp only [List.length_cons] at hl
    omega

end StreamChannel

end KeyRecovery
