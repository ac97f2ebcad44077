import KeyRecovery.Channel.Stream
import KeyRecovery.Ecdsa

/-!
# The provider's answers, and the service over a stream of requests

A request is a signature and a digest, one behind the other and nothing else. A library of curve
arithmetic is given the signature in the form in which signatures are written, and the digest as it
stands. The answer is the compressed key that the library finds and the inverse of `s`, or else the
reason why there is none. Both a request out of format and an argument that the library does not
take are such a reason; any other failure is passed on.

To the service every frame at the front of the stream is a request, up to the first that cannot be
read. Each is answered before the next is read, by two frames: those of the two values of a hint, or
two empty ones for a refusal. What is written stays written if the answer to a later request
fails.
-/

namespace KeyRecovery

/-! ## The answer to a request -/

/-- What is taken from a library of curve arithmetic: the key that the bytes of a signature and a
digest determine, and its compressed form. -/
class CurveLibrary where
  Key : Type
  recover (signature digest : Bytes) : Except Failure Key
  compressed (key : Key) : Except Failure Bytes

namespace CurveLibrary

/-- Standard recovery. The signature has to be in the form in which it is written, with one of the
four indicators. -/
def standardKey? (signature digest : Bytes) : Option Affine := do
  let sig ← (Signature.parse signature).toOption
  let z ← Secp256k1.curve.scalar? digest
  if sig.encode.toOption = some signature ∧ sig.v ≤ 3 ∧ digest.length = digestLength then
    Ecdsa.recoverKey? sig z
  else none

instance standard : CurveLibrary where
  Key := Affine
  recover signature digest :=
    match standardKey? signature digest with
    | some key => .ok key
    | none => .error (.argument .unrecoverable)
  compressed key := .ok (PublicKey.compress key)

end CurveLibrary

namespace Provider

structure Request where
  signature : Signature
  digest : Bytes

def Request.parse (data : Bytes) : Except Failure Request := do
  let (signature, next) ← readBytes data 0 signatureLength
  let (digest, next) ← readBytes data next digestLength
  if next ≠ data.length then throw (.codec .trailingBytes)
  let signature ← Signature.parse signature
  if 3 < signature.v then throw (.codec (.indicatorRange signature.v))
  return ⟨signature, digest⟩

/-- Why a request gets no hint. -/
inductive Refusal
  | codec (e : CodecError)
  | argument (e : ArgumentError)
  deriving DecidableEq

namespace Refusal

def ofFailure? : Failure → Option Refusal
  | .codec e => some (.codec e)
  | .argument e => some (.argument e)
  | .fault _ | .recovery _ => none

def reason : Refusal → String
  | .codec e => e.message
  | .argument e => e.message

def warning (r : Refusal) : String :=
  "Unable to recover public key for hint request: " ++ r.reason

end Refusal

inductive Reply
  | hint (key inverse : Bytes)
  | refused (reason : Refusal)
  deriving DecidableEq

namespace Reply

/-- What a channel hands on. -/
def values : Reply → List Bytes
  | .hint key inverse => [key, inverse]
  | .refused _ => []

def refusal? : Reply → Option Refusal
  | .hint _ _ => none
  | .refused reason => some reason

end Reply

/-- The key that the library finds. It is given the signature as it is written. -/
def keyFor [CurveLibrary] (request : Request) : Except Failure CurveLibrary.Key := do
  CurveLibrary.recover (← request.signature.encode) request.digest

def hint [CurveLibrary] (key : CurveLibrary.Key) (s : Int) : Except Failure Reply := do
  let some inverse ← tryInverse s Secp256k1.curve.n | throw (.argument .notInvertible)
  return .hint (← CurveLibrary.compressed key) (← encodeScalar inverse)

/-- A refusal is an answer; what goes wrong in writing a hint for a key that was found is not. -/
def answer [CurveLibrary] (data : Bytes) : Except Failure Reply :=
  let found := do
    let request ← Request.parse data
    return (← keyFor request, request.signature.s)
  match found with
  | .ok (key, s) => hint key s
  | .error e =>
    match Refusal.ofFailure? e with
    | some reason => .ok (.refused reason)
    | none => .error e

/-! ## The service -/

def Reply.payloads : Reply → List Bytes
  | .hint key inverse => [key, inverse]
  | .refused _ => [[], []]

structure Service where
  served : Nat
  output : Bytes
  /-- What is left of the stream behind the last read. -/
  unread : Bytes
  refusals : List Refusal

namespace Service

/-- Nothing is read or written yet. -/
def ofInput (stream : Bytes) : Service := ⟨0, [], stream, []⟩

def write (payload : Bytes) : Session Service Unit := Session.step fun s =>
  match Frame.encode payload with
  | .ok frame => (.ok (), { s with output := s.output ++ frame })
  | .error e => (.error e, s)

/-- One request answered, and counted when both frames are written. -/
def respond [CurveLibrary] (request : Bytes) : Session Service Unit := do
  let reply ← Session.ofResult (answer request)
  modify fun s => { s with refusals := s.refusals ++ reply.refusal?.toList }
  forM reply.payloads write
  modify fun s => { s with served := s.served + 1 }

/-! Only a read moves on in the stream. -/

theorem keeps_unread_write (payload : Bytes) : (write payload).Keeps unread := by
  intro s
  unfold write
  rw [Session.outcome_step]
  cases Frame.encode payload <;> rfl

theorem keeps_unread_respond [CurveLibrary] (request : Bytes) :
    (respond request).Keeps unread := by
  unfold respond
  refine .bind (fun _ => rfl) fun reply => .bind (fun _ => rfl) fun _ => ?_
  exact .bind (.forM keeps_unread_write reply.payloads) fun _ _ => rfl

/-- Requests are read and answered in turn, until a read or an answer fails. -/
def run [CurveLibrary] (s : Service) : Except Failure Unit × Service :=
  match _hr : Frame.read s.unread with
  | (.error _, rest) => (.ok (), { s with unread := rest })
  | (.ok request, rest) =>
    match _ha : (respond request).outcome { s with unread := rest } with
    | (.error e, s') => (.error e, s')
    | (.ok (), s') => run s'
termination_by s.unread.length
decreasing_by
  have hu := keeps_unread_respond request { s with unread := rest }
  rw [_ha] at hu
  rw [hu]
  exact Frame.length_of_read _hr

theorem run_of_error [CurveLibrary] {s : Service} {e : CodecError} {rest : Bytes}
    (h : Frame.read s.unread = (.error e, rest)) : s.run = (.ok (), { s with unread := rest }) := by
  rw [run]
  split
  · simp_all
  · simp_all

theorem run_of_ok [CurveLibrary] {s s' : Service} {request rest : Bytes}
    (h : Frame.read s.unread = (.ok request, rest))
    (ha : (respond request).outcome { s with unread := rest } = (.ok (), s')) : s.run = s'.run := by
  rw [run]
  split
  · simp_all
  · rename_i heq
    obtain ⟨hr, rfl⟩ := Prod.mk.inj (h.symm.trans heq)
    obtain rfl := Except.ok.inj hr
    split <;> simp_all

end Service

/-- The whole of a stream. A failure is all that is told of what ends in one. -/
def serve [CurveLibrary] (stream : Bytes) : Except Failure Service :=
  let (result, service) := (Service.ofInput stream).run
  result.map fun _ => service

end Provider

end KeyRecovery
