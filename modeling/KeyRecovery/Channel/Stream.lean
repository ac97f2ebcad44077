import KeyRecovery.Encoding

/-!
# Channels to a provider, and the one over two byte streams

A channel sends a request and receives the values of the answer one at a time. It has a state, and a
failed step keeps what the step did to it. Over two byte streams requests are written as frames to
the one and values are read as frames from the other, and a failed read leaves behind what it has
consumed.
-/

namespace KeyRecovery

/-- A computation over a channel of state `σ`. -/
abbrev Session (σ : Type) := ExceptT Failure (StateM σ)

class Channel (σ : Type) where
  send : Bytes → Session σ Unit
  receive : Session σ Bytes

namespace Session

variable {σ α β : Type}

/-- The result, and the channel that is left behind. -/
def outcome (m : Session σ α) (c : σ) : Except Failure α × σ := m.run.run c

/-- The step with this outcome. -/
def step (outcome : σ → Except Failure α × σ) : Session σ α := ExceptT.mk outcome

/-- A result that needs no channel. -/
def ofResult (result : Except Failure α) : Session σ α := step fun c => (result, c)

theorem outcome_step (f : σ → Except Failure α × σ) (c : σ) : (step f).outcome c = f c := rfl

theorem outcome_ofResult (result : Except Failure α) (c : σ) :
    (ofResult result).outcome c = (result, c) := rfl

theorem outcome_pure (a : α) (c : σ) : (pure a : Session σ α).outcome c = (.ok a, c) := rfl

theorem outcome_throw (e : Failure) (c : σ) :
    (throw e : Session σ α).outcome c = (.error e, c) := rfl

theorem outcome_modify (f : σ → σ) (c : σ) :
    (modify f : Session σ Unit).outcome c = (.ok (), f c) := rfl

theorem outcome_bind_of_ok {m : Session σ α} {f : α → Session σ β} {c c' : σ} {a : α}
    (h : m.outcome c = (.ok a, c')) : (m >>= f).outcome c = (f a).outcome c' := by
  show ExceptT.bindCont f (m.outcome c).1 (m.outcome c).2 = _
  rw [h]
  rfl

/-- A failed step ends the session where it left the channel. -/
theorem outcome_bind_of_error {m : Session σ α} {f : α → Session σ β} {c c' : σ} {e : Failure}
    (h : m.outcome c = (.error e, c')) : (m >>= f).outcome c = (.error e, c') := by
  show ExceptT.bindCont f (m.outcome c).1 (m.outcome c).2 = _
  rw [h]
  rfl

/-- Whatever becomes of the session, it leaves what `view` shows of the channel as it was. -/
def Keeps {γ : Type} (view : σ → γ) (m : Session σ α) : Prop :=
  ∀ c, view (m.outcome c).2 = view c

theorem Keeps.bind {γ : Type} {view : σ → γ} {m : Session σ α} {f : α → Session σ β}
    (hm : Keeps view m) (hf : ∀ a, Keeps view (f a)) : Keeps view (m >>= f) := by
  intro c
  have hc := hm c
  rcases h : m.outcome c with ⟨e | a, c'⟩ <;> rw [h] at hc
  · rw [outcome_bind_of_error h]
    exact hc
  · rw [outcome_bind_of_ok h]
    exact (hf a c').trans hc

theorem Keeps.forM {γ : Type} {view : σ → γ} {f : α → Session σ Unit}
    (h : ∀ a, Keeps view (f a)) : ∀ as : List α, Keeps view (forM as f)
  | [] => fun _ => rfl
  | a :: as => by
    rw [List.forM_cons]
    exact (h a).bind fun _ => Keeps.forM h as

end Session

/-! ## Two byte streams -/

structure StreamChannel where
  unread : Bytes
  written : Bytes

namespace StreamChannel

/-- Nothing is written yet. -/
def ofInput (input : Bytes) : StreamChannel := ⟨input, []⟩

instance : Channel StreamChannel where
  send request := Session.step fun c =>
    match Frame.encode request with
    | .ok frame => (.ok (), { c with written := c.written ++ frame })
    | .error e => (.error e, c)
  receive := Session.step fun c =>
    let (result, rest) := Frame.read c.unread
    (result.mapError fun e => .recovery (.frame e), { c with unread := rest })

end StreamChannel

end KeyRecovery
