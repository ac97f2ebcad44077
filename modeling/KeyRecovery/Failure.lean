import KeyRecovery.Text

/-!
# What can go wrong, and how it is reported

A failure is one of four. A byte string may not be in its format (`CodecError`), an argument may be
one that an operation does not take (`ArgumentError`), a computation may have no result at all
(`Fault`), and a recovery may be refused (`RecoveryError`). Each names its cause; the wording is in
one function per type. A recovery error also has a kind, and it may rest on another failure.
-/

namespace KeyRecovery

/-- A byte string is not in the format it is read in. -/
inductive CodecError
  | byteMissing
  | wordMissing
  | bytesMissing (count : Int)
  | scalarRange
  | scalarZero
  | signatureLength (length : Nat)
  | indicatorRange (v : Int)
  | trailingBytes
  | frameHeader
  | framePayload
  deriving DecidableEq

def CodecError.message : CodecError → String
  | .byteMissing => "Not enough data for u8"
  | .wordMissing => "Not enough data for u32"
  | .bytesMissing count => "Not enough data for " ++ Decimal.ofInt count ++ " bytes"
  | .scalarRange => "Scalar is not below the curve order"
  | .scalarZero => "Signature scalars must be nonzero"
  | .signatureLength length => "Signature must be 64 or 65 bytes, got " ++ length.repr
  | .indicatorRange v => "Invalid recovery indicator " ++ Decimal.ofInt v
  | .trailingBytes => "Trailing data after hint request"
  | .frameHeader => "Not enough data for frame header"
  | .framePayload => "Frame payload truncated"

/-- An operation does not take the argument it was given. -/
inductive ArgumentError
  | bitLengths
  | byteRange
  | notInvertible
  | unrecoverable
  | requestLengths
  | keyFormat
  | coordinateLength (length : Nat)
  | coordinateRange
  | coordinateOffCurve
  | unknownAlgorithm (name : String)
  | unknownKind (name : String)
  | stated (text : String)
  deriving DecidableEq

def ArgumentError.message : ArgumentError → String
  | .bitLengths => "Scalar bit sequences must have equal length"
  | .byteRange => "bytes must be in range(0, 256)"
  | .notInvertible => "base is not invertible for the given modulus"
  | .unrecoverable => "failed to recover ECDSA public key"
  | .requestLengths => "Hint requests take a 65-byte signature and a 32-byte digest"
  | .keyFormat => "Expected a 65-byte uncompressed public key"
  | .coordinateLength length => "X coordinate must be 32 bytes, got " ++ length.repr
  | .coordinateRange => "X coordinate is not a field element"
  | .coordinateOffCurve => "X coordinate is not on the curve"
  | .unknownAlgorithm name => "Unsupported hash algorithm: " ++ name
  | .unknownKind name => Quoted.ofString name ++ " is not a valid RecoveryError.ErrorType"
  | .stated text => text

/-- A computation has no result. -/
inductive Fault
  | divisionByZero
  | overflow
  | noSuchByte
  | wordWidth
  | frameLength
  deriving DecidableEq

/-- A compressed key cannot be expanded. -/
inductive KeyError
  | length
  | parity (b : UInt8)
  | coordinate (e : ArgumentError)
  deriving DecidableEq

/-- The kinds that a recovery error is reported under. -/
inductive RecoveryError.Kind
  | invalidSignature
  | invalidEncoding
  | decompressionFailed
  | malformedHint
  | verificationFailed
  | recoveryFailed
  deriving DecidableEq

namespace RecoveryError.Kind

def all : List Kind :=
  [.invalidSignature, .invalidEncoding, .decompressionFailed, .malformedHint, .verificationFailed,
    .recoveryFailed]

def name : Kind → String
  | .invalidSignature => "invalid_signature"
  | .invalidEncoding => "invalid_encoding"
  | .decompressionFailed => "decompression_failed"
  | .malformedHint => "malformed_hint"
  | .verificationFailed => "verification_failed"
  | .recoveryFailed => "recovery_failed"

end RecoveryError.Kind

/-- A recovery is refused. `reported` is one stated in words, with what it rests on. -/
inductive RecoveryError
  | signatureLength (length : Nat)
  | digestLength (length : Nat)
  | signature (e : CodecError)
  | noValue
  | frame (e : CodecError)
  | keyLength (length : Nat)
  | inverseLength (length : Nat)
  | inverse (e : CodecError)
  | key (e : KeyError)
  | undecodableKey (e : KeyError)
  | unverified
  | reported (kind : RecoveryError.Kind) (text : String) (cause : Option String)
  deriving DecidableEq

inductive Failure
  | codec (e : CodecError)
  | argument (e : ArgumentError)
  | fault (e : Fault)
  | recovery (e : RecoveryError)
  deriving DecidableEq

namespace RecoveryError.Kind

def ofName (text : String) : Except Failure Kind :=
  match all.find? (·.name == text) with
  | some kind => .ok kind
  | none => .error (.argument (.unknownKind text))

end RecoveryError.Kind

namespace KeyError

def kind : KeyError → RecoveryError.Kind
  | .length | .parity _ => .invalidEncoding
  | .coordinate _ => .decompressionFailed

def text : KeyError → String
  | .length => "Compressed key must be 33 bytes"
  | .parity b => "Invalid parity byte 0x" ++ String.ofList (Hex.ofByte b)
  | .coordinate e => e.message

def cause : KeyError → Option Failure
  | .length | .parity _ => none
  | .coordinate e => some (.argument e)

end KeyError

namespace RecoveryError

def kind : RecoveryError → Kind
  | .signatureLength _ | .digestLength _ | .signature _ => .invalidSignature
  | .noValue | .frame _ | .keyLength _ | .inverseLength _ | .inverse _ => .malformedHint
  | .key e => e.kind
  | .undecodableKey _ => .recoveryFailed
  | .unverified => .verificationFailed
  | .reported kind _ _ => kind

def text : RecoveryError → String
  | .signatureLength length => "Signature must be 65 bytes, got " ++ length.repr
  | .digestLength length => "Message hash must be 32 bytes, got " ++ length.repr
  | .signature e | .frame e | .inverse e => e.message
  | .noValue => "Hint channel has no more values"
  | .keyLength length => "Expected a 33-byte key, got " ++ length.repr
  | .inverseLength length => "Expected a 32-byte inverse, got " ++ length.repr
  | .key e => e.text
  | .undecodableKey _ => "decompress pubkey failed"
  | .unverified => "failed to verify signature"
  | .reported _ text _ => text

/-- The failure that a refusal rests on, if another one led to it. -/
def cause : RecoveryError → Option Failure
  | .signature e | .frame e | .inverse e => some (.codec e)
  | .key e => e.cause
  | .undecodableKey e => some (.recovery (.key e))
  | .reported _ _ cause => cause.map fun text => .argument (.stated text)
  | _ => none

/-- The kind, followed by the text unless that is empty. -/
def message (e : RecoveryError) : String :=
  if e.text.isEmpty then e.kind.name else e.kind.name ++ ": " ++ e.text

end RecoveryError

/-! ## Steps that can fail, one after the other -/

section Steps

variable {α β : Type}

@[simp] theorem ok_bind (a : α) (f : α → Except Failure β) : (Except.ok a >>= f) = f a := rfl

@[simp] theorem error_bind (e : Failure) (f : α → Except Failure β) :
    (Except.error e >>= f) = .error e := rfl

theorem bind_eq_ok_iff {x : Except Failure α} {f : α → Except Failure β} {b : β} :
    (x >>= f) = .ok b ↔ ∃ a, x = .ok a ∧ f a = .ok b := by
  cases x with
  | error e => simp
  | ok a => simp

theorem bind_eq_error_iff {x : Except Failure α} {f : α → Except Failure β} {e : Failure} :
    (x >>= f) = .error e ↔ x = .error e ∨ ∃ a, x = .ok a ∧ f a = .error e := by
  cases x with
  | error e => simp
  | ok a => simp

@[simp] theorem pure_eq_ok (a : α) : (pure a : Except Failure α) = .ok a := rfl

end Steps

end KeyRecovery
