import Mathlib.Tactic.Set
import KeyRecovery.Proofs.Encoding.Reader

/-!
# Frames as they are written and as they are read

Any payload fits in a frame whose length can be written on the header, and there is only one frame
of it. A read takes such a frame off the front of a stream and nothing else (`read_append`,
`encode_of_read`), so what `readAll` finds is the run of frames in front that no further frame
follows (`isRun_readAll`).
-/

namespace KeyRecovery.Frame

theorem encode_eq_ok_iff {payload frame : Bytes} :
    encode payload = .ok frame ↔ payload.length < 256 ^ frameHeaderLength
      ∧ frame = BigEndian.encode frameHeaderLength payload.length ++ payload := by
  have hsome := @BigEndian.encode?_isSome_iff frameHeaderLength payload.length
  have hlen : ((payload.length : Int) < 256 ^ frameHeaderLength)
      ↔ payload.length < 256 ^ frameHeaderLength := by exact_mod_cast Iff.rfl
  rw [hlen, and_iff_right (Int.natCast_nonneg _)] at hsome
  unfold encode
  rcases he : BigEndian.encode? frameHeaderLength payload.length with _ | header <;>
    rw [he] at hsome
  · rw [← hsome]
    simp
  · obtain ⟨hl, hv⟩ := BigEndian.encode?_eq_some he
    have hh : BigEndian.encode frameHeaderLength payload.length = header := by
      rw [← hl, ← Int.ofNat.inj hv, BigEndian.encode_value]
    rw [← hsome, hh, Except.ok.injEq, eq_comm]
    simp

theorem encode_of_length_le {payload : Bytes} (h : 256 ^ frameHeaderLength ≤ payload.length) :
    encode payload = .error (.fault .frameLength) := by
  unfold encode
  rcases he : BigEndian.encode? frameHeaderLength payload.length with _ | header
  · rfl
  · obtain ⟨-, hlt⟩ := BigEndian.encode?_isSome_iff.1 (Option.isSome_iff_exists.2 ⟨header, he⟩)
    exact absurd (Int.ofNat_le.2 h) (by push_cast; omega)

theorem read_append {payload frame : Bytes} (h : encode payload = .ok frame) (rest : Bytes) :
    read (frame ++ rest) = (.ok payload, rest) := by
  obtain ⟨hl, rfl⟩ := encode_eq_ok_iff.1 h
  have hh := BigEndian.length_encode frameHeaderLength payload.length
  unfold read
  simp only [List.append_assoc, List.take_left' hh, List.drop_left' hh,
    BigEndian.value_encode_of_lt hl, List.take_left, List.drop_left]
  simp

/-- What is read as a frame is what would be written as one. -/
theorem encode_of_read {stream payload rest : Bytes} (h : read stream = (.ok payload, rest)) :
    ∃ frame, encode payload = .ok frame ∧ stream = frame ++ rest := by
  unfold read at h
  simp only [] at h
  split_ifs at h with hh hp
  · exact absurd h (by simp)
  · exact absurd h (by simp)
  obtain ⟨hpay, hrest⟩ := Prod.mk.inj h
  have hpay := Except.ok.inj hpay
  rw [not_not] at hh hp
  set header := stream.take frameHeaderLength
  set behind := stream.drop frameHeaderLength
  have hlen : payload.length = BigEndian.value header := by rw [← hpay, hp]
  have hval : BigEndian.encode frameHeaderLength payload.length = header := by
    rw [hlen, ← hh, BigEndian.encode_value]
  have hlt : payload.length < 256 ^ frameHeaderLength := by
    rw [hlen, ← hh]
    exact BigEndian.value_lt header
  refine ⟨header ++ payload, encode_eq_ok_iff.2 ⟨hlt, by rw [hval]⟩, ?_⟩
  calc stream = header ++ behind := (List.take_append_drop _ _).symm
    _ = header ++ (payload ++ rest) := by
      rw [← hpay, ← hrest, List.take_append_drop (BigEndian.value header)]
    _ = header ++ payload ++ rest := (List.append_assoc _ _ _).symm

/-- No frame begins another one. -/
theorem encode_prefix_free {payload payload' frame frame' rest rest' : Bytes}
    (h : encode payload = .ok frame) (h' : encode payload' = .ok frame')
    (heq : frame ++ rest = frame' ++ rest') :
    payload = payload' ∧ frame = frame' ∧ rest = rest' := by
  have hread := read_append h rest
  rw [heq, read_append h'] at hread
  obtain ⟨hp, rfl⟩ := Prod.mk.inj hread
  obtain rfl := Except.ok.inj hp
  exact ⟨rfl, List.append_cancel_right heq, rfl⟩

/-- Nothing is left behind a failed read. -/
theorem unread_of_read_error {stream rest : Bytes} {e : CodecError}
    (h : read stream = (.error e, rest)) : rest = [] := by
  unfold read at h
  simp only [] at h
  split at h
  · rename_i hh
    obtain ⟨-, rfl⟩ := Prod.mk.inj h
    rw [List.length_take] at hh
    exact List.drop_of_length_le (by omega)
  · split at h
    · rename_i hp
      obtain ⟨-, rfl⟩ := Prod.mk.inj h
      rw [List.length_take] at hp
      exact List.drop_of_length_le (by omega)
    · exact absurd h (by simp)

/-- The payloads of the frames at the front, up to the first that cannot be read, and what that read
left. -/
def readAll (stream : Bytes) : List Bytes × Bytes :=
  match _h : read stream with
  | (.error _, rest) => ([], rest)
  | (.ok payload, rest) =>
    let (payloads, unread) := readAll rest
    (payload :: payloads, unread)
termination_by stream.length
decreasing_by exact length_of_read (by assumption)

theorem readAll_of_ok {stream payload rest : Bytes} (h : read stream = (.ok payload, rest)) :
    readAll stream = (payload :: (readAll rest).1, (readAll rest).2) := by
  rw [readAll]
  split
  · simp_all
  · simp_all

theorem readAll_of_error {stream rest : Bytes} {e : CodecError}
    (h : read stream = (.error e, rest)) : readAll stream = ([], rest) := by
  rw [readAll]
  split
  · simp_all
  · simp_all

/-- The stream is the frames of the payloads, one behind the other. -/
inductive IsSequence : List Bytes → Bytes → Prop
  | nil : IsSequence [] []
  | cons {payload frame stream : Bytes} {payloads : List Bytes}
      (hframe : encode payload = .ok frame) (hrest : IsSequence payloads stream) :
      IsSequence (payload :: payloads) (frame ++ stream)

/-- The frames of the payloads stand in front, and behind them is `rest`, which no further frame
begins. -/
structure IsRun (stream : Bytes) (payloads : List Bytes) (rest : Bytes) : Prop where
  front : ∃ front, IsSequence payloads front ∧ stream = front ++ rest
  stops : ∀ payload frame tail, encode payload = .ok frame → rest ≠ frame ++ tail

variable {payload stream stream' rest : Bytes} {payloads payloads' : List Bytes}

theorem exists_isSequence :
    ∀ {payloads : List Bytes}, (∀ payload ∈ payloads, payload.length < 256 ^ frameHeaderLength) →
      ∃ stream, IsSequence payloads stream
  | [], _ => ⟨_, .nil⟩
  | payload :: payloads, h => by
    obtain ⟨hl, h⟩ := List.forall_mem_cons.1 h
    obtain ⟨stream, hs⟩ := exists_isSequence h
    exact ⟨_, .cons (encode_eq_ok_iff.2 ⟨hl, rfl⟩) hs⟩

theorem isSequence_nil_iff : IsSequence [] stream ↔ stream = [] := by
  constructor
  · rintro ⟨⟩
    rfl
  · rintro rfl
    exact .nil

theorem IsSequence.append (h : IsSequence payloads stream) (h' : IsSequence payloads' stream') :
    IsSequence (payloads ++ payloads') (stream ++ stream') := by
  induction h with
  | nil => exact h'
  | cons hframe _ ih =>
    rw [List.append_assoc]
    exact .cons hframe ih

theorem IsSequence.split :
    ∀ {payloads : List Bytes} {stream : Bytes}, IsSequence (payloads ++ payloads') stream →
      ∃ first second, IsSequence payloads first ∧ IsSequence payloads' second
        ∧ stream = first ++ second
  | [], stream, h => ⟨[], stream, .nil, h, rfl⟩
  | payload :: payloads, _, .cons hframe hrest => by
    obtain ⟨first, second, hfirst, hsecond, rfl⟩ := hrest.split
    exact ⟨_, second, .cons hframe hfirst, hsecond, (List.append_assoc _ _ _).symm⟩

theorem isSequence_cons_iff {frame : Bytes} (hframe : encode payload = .ok frame) :
    IsSequence (payload :: payloads) stream
      ↔ ∃ behind, IsSequence payloads behind ∧ stream = frame ++ behind := by
  constructor
  · rintro (_ | ⟨hframe', hrest⟩)
    rw [Except.ok.inj (hframe.symm.trans hframe')]
    exact ⟨_, hrest, rfl⟩
  · rintro ⟨behind, hrest, rfl⟩
    exact .cons hframe hrest

theorem IsSequence.unique (h : IsSequence payloads stream) (h' : IsSequence payloads stream') :
    stream = stream' := by
  induction h generalizing stream' with
  | nil => exact (isSequence_nil_iff.1 h').symm
  | cons hframe _ ih =>
    obtain ⟨behind, hrest, rfl⟩ := (isSequence_cons_iff hframe).1 h'
    rw [ih hrest]

theorem IsSequence.isRun (h : IsSequence payloads stream) : IsRun stream payloads [] := by
  refine ⟨⟨stream, h, (List.append_nil _).symm⟩, fun payload frame tail he hnil => ?_⟩
  -- A frame has its header at least.
  obtain ⟨-, rfl⟩ := encode_eq_ok_iff.1 he
  have hlen := congrArg List.length hnil
  simp only [List.length_nil, List.length_append, BigEndian.length_encode,
    frameHeaderLength] at hlen
  omega

theorem read_of_stops
    (h : ∀ payload frame tail, encode payload = .ok frame → rest ≠ frame ++ tail) :
    ∃ e, read rest = (.error e, []) := by
  rcases hr : read rest with ⟨e | payload, tail⟩
  · rw [unread_of_read_error hr]
    exact ⟨e, rfl⟩
  · obtain ⟨frame, he, hrest⟩ := encode_of_read hr
    exact absurd hrest (h payload frame tail he)

theorem isRun_readAll (stream : Bytes) : ∃ rest, IsRun stream (readAll stream).1 rest := by
  rcases h : read stream with ⟨e | payload, behind⟩
  · rw [readAll_of_error h]
    refine ⟨stream, ⟨[], .nil, rfl⟩, ?_⟩
    rintro payload frame tail he rfl
    rw [read_append he] at h
    exact absurd h (by simp)
  · obtain ⟨frame, he, hstream⟩ := encode_of_read h
    obtain ⟨rest, ⟨front, hf, hbehind⟩, hstops⟩ := isRun_readAll behind
    rw [readAll_of_ok h]
    refine ⟨rest, ⟨frame ++ front, .cons he hf, ?_⟩, hstops⟩
    rw [hstream, hbehind, List.append_assoc]
termination_by stream.length
decreasing_by exact length_of_read h

end KeyRecovery.Frame
