import KeyRecovery.Digest
import KeyRecovery.Secp256k1

/-!
# The digest of a personal message, and the address of a key

What is hashed of a message is a mark, the length of the message in decimal, and the message. The
length counts bytes, so for a text that of its UTF-8 form.

The address of a public key is the last twenty bytes of the Keccak-256 digest of the two
coordinates. A library shows it in hexadecimal with a checksum in the case of its letters: a letter
is a capital where the digest of the lower-case digits has a hexadecimal digit above seven.
-/

namespace KeyRecovery

namespace Message

/-- A byte that starts no transaction, and a line of text. -/
def mark : Bytes := 0x19 :: "Ethereum Signed Message:\n".toUTF8.toList

def decimal (n : Nat) : Bytes := (Nat.toDigits 10 n).map fun c => UInt8.ofNat c.toNat

def parts (message : Bytes) : List Bytes := [mark, decimal message.length, message]

def digest [Keccak] (message : Bytes) : Bytes :=
  ((parts message).foldl Hasher.update (Hasher.new .keccak256)).digest

def digestText [Keccak] (text : String) : Bytes := digest text.toUTF8.toList

theorem digest_eq [Keccak] (message : Bytes) :
    digest message = Keccak.digest (parts message).flatten :=
  Hasher.digest_foldl_update _ _

end Message

namespace Address

/-- A digit with the case that the digit `sum` of the checksum gives it. -/
def marked (digit : Char) (sum : Nat) : Char :=
  if 8 ≤ sum then digit.toUpper else digit

/-- The hexadecimal digits of a byte string as numbers. -/
def nibbles (data : Bytes) : List Nat :=
  data.flatMap fun b => [b.toNat / 16, b.toNat % 16]

/-- The checksummed form of the twenty bytes of an address. -/
def text (address : Bytes) : String :=
  let digits := address.flatMap Hex.ofByte
  let checksum := Keccak256.digest (digits.map fun c => UInt8.ofNat c.toNat)
  "0x" ++ String.ofList (digits.zipWith marked (nibbles checksum))

end Address

/-- A library's checksummed form of an address. -/
class Checksum where
  text (address : Bytes) : Except Failure String

instance : Checksum := ⟨fun address => .ok (Address.text address)⟩

def Address.ofKey [Keccak] [Checksum] (key : Bytes) : Except Failure String :=
  if key.length = uncompressedLength ∧ key.head? = some 4 then
    Checksum.text (((Hasher.new .keccak256).update key.tail).digest.drop 12)
  else .error (.argument .keyFormat)

end KeyRecovery
