import KeyRecovery.Channel.Scripted
import KeyRecovery.Ethereum.Message

/-!
# Recovery of a key with an untrusted hint

The signature and the digest are tested before anything is asked. Both values of a hint are received
before either is looked at, so a bad first value does not leave the second one behind; of the hint
itself only the lengths are tested, and that the inverse is below the order. What comes back is
expanded to a point of the curve and then has to verify, with the inverse that was claimed.

A caller may ask for a hint, a key or an address, as often as it likes and over one channel. What
becomes of one call does not keep the next from being made.
-/

namespace KeyRecovery

/-- What a provider claims; nothing is known of it but the format. -/
structure Hint where
  key : Bytes
  inverse : Int
  deriving DecidableEq

namespace Hint

def ofValues (key inverse : Bytes) : Except Failure Hint := do
  if key.length ≠ compressedLength then throw (.recovery (.keyLength key.length))
  if inverse.length ≠ scalarLength then throw (.recovery (.inverseLength inverse.length))
  match readScalar inverse 0 with
  | .ok (value, _) => return ⟨key, value⟩
  | .error (.codec e) => throw (.recovery (.inverse e))
  | .error e => throw e

variable {σ : Type} [Channel σ]

def fetch (signature digest : Bytes) : Session σ Hint := do
  if signature.length ≠ signatureLength ∨ digest.length ≠ digestLength then
    throw (.argument .requestLengths)
  Channel.send (signature ++ digest)
  let key ← Channel.receive
  let inverse ← Channel.receive
  Session.ofResult (ofValues key inverse)

end Hint

/-! ## Recovery -/

namespace Hinted

/-- The signature to recover from, if both inputs are in format. -/
def validate (signature digest : Bytes) : Except Failure Signature := do
  if signature.length ≠ signatureLength then
    throw (.recovery (.signatureLength signature.length))
  if digest.length ≠ digestLength then throw (.recovery (.digestLength digest.length))
  match Signature.parse signature with
  | .ok sig => return sig
  | .error (.codec e) => throw (.recovery (.signature e))
  | .error e => throw e

/-- The uncompressed key, if the hint's key is one and the signature verifies under it. -/
def judge (sig : Signature) (digest : Bytes) (hint : Hint) : Except Failure Bytes := do
  match PublicKey.expand hint.key with
  | .error e => throw (.recovery (.undecodableKey e))
  | .ok key =>
    if ← Ecdsa.verify key digest sig.r sig.s (some hint.inverse) then return key
    throw (.recovery .unverified)

section Channels

variable {σ : Type} [Channel σ]

def recover (signature digest : Bytes) : Session σ Bytes := do
  let sig ← Session.ofResult (validate signature digest)
  let hint ← Hint.fetch signature digest
  Session.ofResult (judge sig digest hint)

def recoverAddress [Keccak] [Checksum] (signature digest : Bytes) : Session σ String := do
  Session.ofResult (Address.ofKey (← recover signature digest))

end Channels

/-- Recovery over a fresh channel to a provider in the same program. -/
def recoverLocally [CurveLibrary] (signature digest : Bytes) : Except Failure Bytes :=
  ((recover signature digest).outcome LocalChannel.fresh).1

def recoverAddressLocally [CurveLibrary] [Keccak] [Checksum] (signature digest : Bytes) :
    Except Failure String :=
  ((recoverAddress signature digest).outcome LocalChannel.fresh).1

/-! ## Calls that share a channel -/

inductive Goal
  | hint
  | key
  | address
  deriving DecidableEq

structure Call where
  goal : Goal
  signature : Bytes
  digest : Bytes
  deriving DecidableEq

/-- What a call returns. -/
inductive Value
  | hint (hint : Hint)
  | key (key : Bytes)
  | address (text : String)
  deriving DecidableEq

namespace Call

/-- What is sent, if the call comes to that. -/
def request (call : Call) : Bytes := call.signature ++ call.digest

variable [Keccak] [Checksum] {σ : Type} [Channel σ]

def run (call : Call) : Session σ Value :=
  match call.goal with
  | .hint => Value.hint <$> Hint.fetch call.signature call.digest
  | .key => Value.key <$> recover call.signature call.digest
  | .address => Value.address <$> recoverAddress call.signature call.digest

/-- The results of the calls in their order, and the channel that the last one leaves. -/
def outcomes : List Call → σ → List (Except Failure Value) × σ
  | [], c => ([], c)
  | call :: calls, c =>
    let (result, c₁) := call.run.outcome c
    let (results, c₂) := outcomes calls c₁
    (result :: results, c₂)

end Call

end Hinted

end KeyRecovery
