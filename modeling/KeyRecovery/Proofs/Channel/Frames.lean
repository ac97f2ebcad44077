import KeyRecovery.Proofs.Channel

/-!
# Frames written one behind the other, read back and cut off

Successive reads answer the payloads of the complete frames in front and then fail, and after each
of them the reader stands behind the frames it has read (`reads_iff_isRun`, `Reads.position_eq`).
A beginning of a run of frames is itself such a run, of the frames that it has room for, since no
frame begins another one (`IsSequence.isRun_of_prefix`).
-/

namespace KeyRecovery

namespace Channel

/-- The payloads are sent one after the other. -/
def sendAll {σ : Type} [Channel σ] (payloads : List Bytes) : Session σ Unit :=
  forM payloads Channel.send

end Channel

theorem StreamChannel.sendAll_of_isSequence {payloads : List Bytes} {stream : Bytes}
    (h : Frame.IsSequence payloads stream) (c : StreamChannel) :
    (Channel.sendAll payloads).outcome c = (.ok (), { c with written := c.written ++ stream }) := by
  refine Session.forM_of_isSequence (fun c stream => { c with written := c.written ++ stream })
    (fun _ => ?_) (fun _ _ _ => ?_) (fun he c => send_of_encode c he) h c
  · rw [List.append_nil]
  · rw [List.append_assoc]

theorem StreamChannel.send_of_length_le {payload : Bytes}
    (h : 256 ^ frameHeaderLength ≤ payload.length) (c : StreamChannel) :
    (Channel.send payload : Session StreamChannel Unit).outcome c
      = (.error (.fault .frameLength), c) := by
  refine (Session.outcome_step _ _).trans ?_
  rw [Frame.encode_of_length_le h]

namespace Frame

variable {stream front part rest payload frame : Bytes} {payloads payloads' : List Bytes}

/-- What is left unread after this many reads. -/
def unreadAfter (stream : Bytes) (count : ℕ) : Bytes :=
  (fun unread => (read unread).2)^[count] stream

/-- How far the reader has come after this many reads. -/
def position (stream : Bytes) (count : ℕ) : ℕ :=
  stream.length - (unreadAfter stream count).length

/-- Successive reads answer these payloads, and the one after them fails. -/
structure Reads (stream : Bytes) (payloads : List Bytes) : Prop where
  answers (j : ℕ) (hj : j < payloads.length) : (read (unreadAfter stream j)).1 = .ok payloads[j]
  fails : ∃ e, (read (unreadAfter stream payloads.length)).1 = .error e

/-- Of the frames of these payloads, one behind the other, exactly the first `count` end inside the
part. -/
def Holds (part : Bytes) (payloads : List Bytes) (count : ℕ) : Prop :=
  ∀ j ≤ payloads.length, ∀ first, IsSequence (payloads.take j) first →
    (j ≤ count ↔ first.length ≤ part.length)

theorem unreadAfter_succ (stream : Bytes) (count : ℕ) :
    unreadAfter stream (count + 1) = unreadAfter (read stream).2 count := rfl

theorem unreadAfter_of_isSequence (h : IsSequence payloads front) (rest : Bytes) :
    unreadAfter (front ++ rest) payloads.length = rest := by
  induction h with
  | nil => rfl
  | cons hframe _ ih =>
    rw [List.length_cons, unreadAfter_succ, List.append_assoc, read_append hframe, ih]

/-- The first reads take the first frames off the front. -/
theorem IsSequence.exists_take (h : IsSequence payloads front) (rest : Bytes) {j : ℕ}
    (hj : j ≤ payloads.length) :
    ∃ first second, IsSequence (payloads.take j) first ∧ IsSequence (payloads.drop j) second
      ∧ front = first ++ second ∧ unreadAfter (front ++ rest) j = second ++ rest := by
  rw [← List.take_append_drop j payloads] at h
  obtain ⟨first, second, hfirst, hsecond, rfl⟩ := h.split
  refine ⟨first, second, hfirst, hsecond, rfl, ?_⟩
  have hu := unreadAfter_of_isSequence hfirst (second ++ rest)
  rwa [List.length_take_of_le hj, ← List.append_assoc] at hu

theorem reads_of_isRun (h : IsRun stream payloads rest) : Reads stream payloads := by
  obtain ⟨⟨front, hfront, rfl⟩, hstops⟩ := h
  constructor
  case answers =>
    intro j hj
    obtain ⟨first, second, -, hsecond, -, hu⟩ := hfront.exists_take rest hj.le
    rw [List.drop_eq_getElem_cons hj] at hsecond
    rcases hsecond with _ | ⟨hframe, hrest⟩
    rw [hu, List.append_assoc, read_append hframe]
  case fails =>
    obtain ⟨e, he⟩ := read_of_stops hstops
    exact ⟨e, by rw [unreadAfter_of_isSequence hfront, he]⟩

theorem Reads.length_le (h : Reads stream payloads) (h' : Reads stream payloads') :
    payloads'.length ≤ payloads.length := by
  by_contra hlt
  obtain ⟨e, he⟩ := h.fails
  rw [h'.answers _ (not_le.1 hlt)] at he
  exact absurd he (by simp)

theorem Reads.unique (h : Reads stream payloads) (h' : Reads stream payloads') :
    payloads' = payloads := by
  refine List.ext_getElem (le_antisymm (h.length_le h') (h'.length_le h)) fun j hj' hj => ?_
  exact Except.ok.inj ((h'.answers j hj').symm.trans (h.answers j hj))

theorem existsUnique_reads (stream : Bytes) : ∃! payloads, Reads stream payloads := by
  obtain ⟨rest, hrun⟩ := isRun_readAll stream
  exact ⟨_, reads_of_isRun hrun, fun _ h' => (reads_of_isRun hrun).unique h'⟩

theorem reads_iff_isRun : Reads stream payloads ↔ ∃ rest, IsRun stream payloads rest := by
  constructor
  · intro h
    obtain ⟨rest, hrun⟩ := isRun_readAll stream
    rw [h.unique (reads_of_isRun hrun)] at hrun
    exact ⟨rest, hrun⟩
  · rintro ⟨rest, hrun⟩
    exact reads_of_isRun hrun

theorem Reads.position_eq (h : Reads stream payloads) {j : ℕ} (hj : j ≤ payloads.length) :
    ∃ first, IsSequence (payloads.take j) first ∧ stream = first ++ unreadAfter stream j
      ∧ position stream j = first.length := by
  obtain ⟨rest, ⟨front, hfront, rfl⟩, -⟩ := reads_iff_isRun.1 h
  obtain ⟨first, second, hfirst, -, rfl, hu⟩ := hfront.exists_take rest hj
  refine ⟨first, hfirst, ?_, ?_⟩
  · rw [hu, List.append_assoc]
  · unfold position
    rw [hu, List.append_assoc, List.length_append, Nat.add_sub_cancel]

theorem IsRun.cons (hframe : encode payload = .ok frame) (h : IsRun stream payloads rest) :
    IsRun (frame ++ stream) (payload :: payloads) rest := by
  obtain ⟨⟨front, hfront, rfl⟩, hstops⟩ := h
  exact ⟨⟨frame ++ front, .cons hframe hfront, (List.append_assoc _ _ _).symm⟩, hstops⟩

/-- What is shorter than the frame it begins has no frame in front. -/
theorem isRun_of_length_lt (hframe : encode payload = .ok frame) (hpart : part <+: frame ++ rest)
    (hlt : part.length < frame.length) : IsRun part [] part := by
  refine ⟨⟨[], .nil, rfl⟩, ?_⟩
  rintro payload' frame' tail hframe' rfl
  obtain ⟨behind, heq⟩ := hpart
  rw [List.append_assoc] at heq
  obtain ⟨-, rfl, -⟩ := encode_prefix_free hframe' hframe heq
  simp at hlt

theorem Holds.zero (hframe : encode payload = .ok frame) (hlt : part.length < frame.length) :
    Holds part (payload :: payloads) 0 := by
  rintro (_ | j) - first hfirst
  · obtain rfl := isSequence_nil_iff.1 hfirst
    simp
  · obtain ⟨behind, -, rfl⟩ := (isSequence_cons_iff hframe).1 hfirst
    rw [List.length_append]
    omega

theorem Holds.succ {count : ℕ} (hframe : encode payload = .ok frame)
    (h : Holds part payloads count) : Holds (frame ++ part) (payload :: payloads) (count + 1) := by
  rintro (_ | j) hj first hfirst
  · obtain rfl := isSequence_nil_iff.1 hfirst
    simp
  · obtain ⟨behind, hbehind, rfl⟩ := (isSequence_cons_iff hframe).1 hfirst
    have := h j (Nat.le_of_succ_le_succ hj) behind hbehind
    rw [List.length_append, List.length_append]
    omega

/-- A beginning of a sequence is a run of the frames it holds. -/
theorem IsSequence.isRun_of_prefix (h : IsSequence payloads front) (hpart : part <+: front) :
    ∃ count rest, IsRun part (payloads.take count) rest ∧ Holds part payloads count := by
  induction h generalizing part with
  | nil =>
    obtain rfl := List.prefix_nil.1 hpart
    refine ⟨0, [], IsSequence.nil.isRun, fun j hj first hfirst => ?_⟩
    obtain rfl := isSequence_nil_iff.1 (List.take_nil ▸ hfirst)
    simpa using hj
  | @cons payload frame stream payloads hframe hrest ih =>
    -- The cut falls inside the first frame or behind it.
    rcases lt_or_ge part.length frame.length with hlt | hle
    · exact ⟨0, part, isRun_of_length_lt hframe hpart hlt, .zero hframe hlt⟩
    · obtain ⟨part, rfl⟩ :=
        List.prefix_of_prefix_length_le (List.prefix_append frame stream) hpart hle
      obtain ⟨count, rest, hrun, hcount⟩ := ih ((List.prefix_append_right_inj frame).1 hpart)
      exact ⟨count + 1, rest, hrun.cons hframe, hcount.succ hframe⟩

/-- Any stream is read as the one run of frames in front that no further frame follows, frame by
frame. Payloads that fit are written so that they are read back, and of a beginning of what was
written exactly those are read whose frames end inside it. A payload that does not fit is not
written at all. -/
theorem uniquely_decodable :
    (∀ stream, ∃! payloads, Reads stream payloads)
      ∧ (∀ stream payloads, Reads stream payloads ↔ ∃ rest, IsRun stream payloads rest)
      ∧ (∀ stream payloads, Reads stream payloads → ∀ j ≤ payloads.length,
        ∃ first, IsSequence (payloads.take j) first ∧ stream = first ++ unreadAfter stream j
          ∧ position stream j = first.length)
      ∧ (∀ payloads : List Bytes, (∀ payload ∈ payloads, payload.length < 2 ^ 32) →
        ∃ front, IsSequence payloads front ∧ Reads front payloads
          ∧ (∀ c : StreamChannel, (Channel.sendAll payloads).outcome c
            = (.ok (), { c with written := c.written ++ front }))
          ∧ ∀ part, part <+: front →
            ∃ count, Reads part (payloads.take count) ∧ Holds part payloads count)
      ∧ ∀ (payload : Bytes) (c : StreamChannel), 2 ^ 32 ≤ payload.length →
        (Channel.send payload : Session StreamChannel Unit).outcome c
          = (.error (.fault .frameLength), c) := by
  refine ⟨existsUnique_reads, fun stream payloads => reads_iff_isRun,
    fun stream payloads h j hj => h.position_eq hj, fun payloads hlen => ?_,
    fun payload c hlen => StreamChannel.send_of_length_le hlen c⟩
  obtain ⟨front, hfront⟩ := exists_isSequence hlen
  refine ⟨front, hfront, reads_of_isRun hfront.isRun, StreamChannel.sendAll_of_isSequence hfront,
    fun part hpart => ?_⟩
  obtain ⟨count, rest, hrun, hcount⟩ := hfront.isRun_of_prefix hpart
  exact ⟨count, reads_of_isRun hrun, hcount⟩

/-- An empty payload and one that looks like a header, cut inside the second frame, and a payload
that is too long. -/
theorem uniquely_decodable_two :
    Reads [0, 0, 0, 0, 0, 0, 0, 4, 0, 0, 0, 1] [[], [0, 0, 0, 1]]
      ∧ Reads [0, 0, 0, 0, 0, 0, 0, 4, 0, 0] [[]]
      ∧ (Channel.send (List.replicate (2 ^ 32) 0) : Session StreamChannel Unit).outcome
          (.ofInput [])
        = (.error (.fault .frameLength), .ofInput []) := by
  obtain ⟨-, -, -, hfits, hlong⟩ := uniquely_decodable
  have hempty : IsSequence [[]] ([0, 0, 0, 0] ++ []) := .cons rfl .nil
  have hboth : IsSequence [[], [0, 0, 0, 1]] ([0, 0, 0, 0] ++ ([0, 0, 0, 4, 0, 0, 0, 1] ++ [])) :=
    .cons rfl (.cons rfl .nil)
  obtain ⟨front, hfront, hreads, -, hcut⟩ := hfits [[], [0, 0, 0, 1]] (by simp)
  obtain rfl := hfront.unique hboth
  refine ⟨hreads, ?_, hlong _ _ (by rw [List.length_replicate])⟩
  obtain ⟨count, hpart, hcount⟩ := hcut [0, 0, 0, 0, 0, 0, 0, 4, 0, 0] ⟨[0, 1], rfl⟩
  have h1 : 1 ≤ count := (hcount 1 (by simp) _ hempty).2 (by simp)
  have h2 : ¬ 2 ≤ count := fun h => by simpa using (hcount 2 (by simp) _ hboth).1 h
  obtain rfl : count = 1 := by omega
  exact hpart

end Frame

end KeyRecovery
