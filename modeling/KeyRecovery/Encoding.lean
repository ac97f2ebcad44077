import KeyRecovery.Secp256k1

/-!
# Signatures, public keys and frames as byte strings

A read at an offset answers a value and the offset behind it. The test against the end of the string
comes first and is on the numbers alone, so a negative offset passes it; what is then read is what
the position stands for, counted from the end.

A signature is written as `r`, `s` and the recovery indicator `v`. Reading takes the indicator to be
`0` where it is left out, and takes `27` from an indicator that is at least as large; both scalars
have to be below the order and not `0`.

A compressed key is a parity byte, `2` for an even `y` and `3` for an odd one, and the coordinate
`x`. An uncompressed key is the byte `4` and both coordinates. Expanding solves the equation of the
curve; reading an uncompressed key only asks that the coordinates are reduced.

A frame is a payload behind its length, which stands in front on four bytes. A read consumes what it
looks at, also when it fails: the header if that is short, and all there is if the payload is.
-/

namespace KeyRecovery

/-! ## Reads at an offset -/

def readByte (data : Bytes) (offset : Int) : Except Failure (UInt8 × Int) :=
  if data.length ≤ offset then .error (.codec .byteMissing)
  else
    match data.at? offset with
    | some b => .ok (b, offset + 1)
    | none => .error (.fault .noSuchByte)

/-- Four bytes as a number. -/
def readWord (data : Bytes) (offset : Int) : Except Failure (Nat × Int) :=
  if data.length ≤ offset + 3 then .error (.codec .wordMissing)
  else
    let raw := data.slice offset (offset + 4)
    if raw.length = 4 then .ok (BigEndian.value raw, offset + 4)
    else .error (.fault .wordWidth)

def readBytes (data : Bytes) (offset length : Int) : Except Failure (Bytes × Int) :=
  if data.length < offset + length then .error (.codec (.bytesMissing length))
  else .ok (data.slice offset (offset + length), offset + length)

/-- A number below the order of the curve. -/
def readScalar (data : Bytes) (offset : Int) : Except Failure (Int × Int) := do
  let (raw, next) ← readBytes data offset scalarLength
  let value : Int := BigEndian.value raw
  if Secp256k1.curve.n ≤ value then throw (.codec .scalarRange)
  return (value, next)

def encodeScalar (value : Int) : Except Failure Bytes :=
  match BigEndian.encode? scalarLength value with
  | some data => .ok data
  | none => .error (.fault .overflow)

theorem readBytes_of_le {data : Bytes} {offset length : Nat} (h : offset + length ≤ data.length) :
    readBytes data offset length
      = .ok ((data.drop offset).take length, ((offset + length : Nat) : Int)) := by
  unfold readBytes
  rw [if_neg (by omega), ← Int.natCast_add, Bytes.slice_of_nonneg, List.drop_take,
    Nat.add_sub_cancel_left]

theorem readBytes_of_lt {data : Bytes} {offset length : Int}
    (h : data.length < offset + length) :
    readBytes data offset length = .error (.codec (.bytesMissing length)) :=
  if_pos h

theorem readByte_of_lt {data : Bytes} {offset : Nat} (h : offset < data.length) :
    readByte data offset = .ok (data[offset], (offset : Int) + 1) := by
  unfold readByte
  rw [if_neg (by omega), Bytes.at?_natCast, List.getElem?_eq_getElem h]

theorem readByte_of_le {data : Bytes} {offset : Int} (h : data.length ≤ offset) :
    readByte data offset = .error (.codec .byteMissing) :=
  if_pos h

theorem readWord_of_le {data : Bytes} {offset : Nat} (h : offset + 4 ≤ data.length) :
    readWord data offset
      = .ok (BigEndian.value ((data.drop offset).take 4), ((offset + 4 : Nat) : Int)) := by
  have hslice : data.slice offset ((offset : Int) + 4) = (data.drop offset).take 4 := by
    rw [show (offset : Int) + 4 = ((offset + 4 : Nat) : Int) from rfl, Bytes.slice_of_nonneg,
      List.drop_take, Nat.add_sub_cancel_left]
  unfold readWord
  simp only [hslice]
  rw [if_neg (by omega), if_pos (by rw [List.length_take, List.length_drop]; omega)]
  rfl

theorem readWord_of_lt {data : Bytes} {offset : Int} (h : data.length < offset + 4) :
    readWord data offset = .error (.codec .wordMissing) :=
  if_pos (by omega)

/-! ## Signatures -/

/-- The numbers are not bounded; only what is read from bytes is. -/
structure Signature where
  r : Int
  s : Int
  v : Int
  deriving DecidableEq

namespace Signature

def indicator (b : UInt8) : Int :=
  if 27 ≤ b.toNat then b.toNat - 27 else b.toNat

def parse (data : Bytes) : Except Failure Signature := do
  if data.length ≠ signatureLength - 1 ∧ data.length ≠ signatureLength then
    throw (.codec (.signatureLength data.length))
  let (r, next) ← readScalar data 0
  let (s, next) ← readScalar data next
  if r = 0 ∨ s = 0 then throw (.codec .scalarZero)
  if next < data.length then
    let (b, _) ← readByte data next
    return ⟨r, s, indicator b⟩
  return ⟨r, s, 0⟩

def encode (sig : Signature) : Except Failure Bytes := do
  let r ← encodeScalar sig.r
  let s ← encodeScalar sig.s
  if 0 ≤ sig.v ∧ sig.v < 256 then return r ++ s ++ [UInt8.ofNat sig.v.toNat]
  throw (.argument .byteRange)

end Signature

/-! ## Public keys -/

/-- Both coordinates on 32 bytes each, `x` first. -/
def Affine.coordinates (P : Affine) : Bytes :=
  BigEndian.encode scalarLength P.x.toNat ++ BigEndian.encode scalarLength P.y.toNat

namespace PublicKey

def compress (P : Affine) : Bytes :=
  (if P.y % 2 = 0 then 2 else 3) :: BigEndian.encode scalarLength P.x.toNat

def uncompressed (P : Affine) : Bytes := 4 :: P.coordinates

/-- The point whose `x` the bytes write and whose `y` has this parity. -/
def ofCoordinate (data : Bytes) (isOdd : Bool) : Except ArgumentError Affine :=
  if data.length ≠ scalarLength then .error (.coordinateLength data.length)
  else if Secp256k1.curve.p ≤ BigEndian.value data then .error .coordinateRange
  else
    match Secp256k1.lift? (BigEndian.value data) isOdd with
    | some P => .ok P
    | none => .error .coordinateOffCurve

def ofCompressed : Bytes → Except KeyError Affine
  | [] => .error .length
  | parity :: data =>
    if data.length + 1 ≠ compressedLength then .error .length
    else if parity ≠ 2 ∧ parity ≠ 3 then .error (.parity parity)
    else (ofCoordinate data (parity = 3)).mapError .coordinate

/-- The uncompressed form of a compressed key. -/
def expand (key : Bytes) : Except KeyError Bytes :=
  (ofCompressed key).map uncompressed

/-- The coordinates of an uncompressed key, if both are reduced. The point need not be on the
curve. -/
def point? : Bytes → Option Affine
  | [] => none
  | mark :: data =>
    let x := BigEndian.value (data.take scalarLength)
    let y := BigEndian.value (data.drop scalarLength)
    if (mark = 4 ∧ data.length + 1 = uncompressedLength)
        ∧ x < Secp256k1.curve.p ∧ y < Secp256k1.curve.p then some ⟨x, y⟩
    else none

end PublicKey

/-! ## Frames -/

namespace Frame

def encode (payload : Bytes) : Except Failure Bytes :=
  match BigEndian.encode? frameHeaderLength payload.length with
  | some header => .ok (header ++ payload)
  | none => .error (.fault .frameLength)

/-- The payload of the first frame, and what is left unread. -/
def read (stream : Bytes) : Except CodecError Bytes × Bytes :=
  let header := stream.take frameHeaderLength
  let behind := stream.drop frameHeaderLength
  if header.length ≠ frameHeaderLength then (.error .frameHeader, behind)
  else
    let payload := behind.take (BigEndian.value header)
    let rest := behind.drop (BigEndian.value header)
    if payload.length ≠ BigEndian.value header then (.error .framePayload, rest)
    else (.ok payload, rest)

theorem length_of_read {stream payload rest : Bytes} (h : read stream = (.ok payload, rest)) :
    rest.length < stream.length := by
  unfold read at h
  simp only [] at h
  split at h
  · exact absurd h (by simp)
  · rename_i hh
    split at h
    · exact absurd h (by simp)
    · obtain ⟨-, rfl⟩ := Prod.mk.inj h
      have hl := Decidable.not_not.1 hh
      rw [List.length_take, frameHeaderLength] at hl
      rw [List.length_drop, List.length_drop, frameHeaderLength]
      omega

theorem read_nil : read [] = (.error .frameHeader, []) := rfl

end Frame

end KeyRecovery
