import KeyRecovery.Failure

/-!
# Digests, and hashing in pieces

SHA-256 pads the message to a whole number of 64-byte blocks, and each block goes through 64 rounds.
The words that the rounds take come from a window of sixteen that slides by one word a round.

Keccak-256 is a sponge of rate 136 bytes over the permutation of 1600 bits, with the padding that
sets the lowest bit of its first byte and the highest of its last. The state is 25 lanes, and the
lane at column `x` and row `y` is number `5 y + x`; lanes are little-endian.

A hasher holds what it has been given so far. Its digest is that of all of it, and taking the digest
changes nothing, so it may be taken again and more may follow. SHA-256 is computed here; Keccak-256
is that of a library.
-/

namespace KeyRecovery

namespace Sha256

structure State where
  a : UInt32
  b : UInt32
  c : UInt32
  d : UInt32
  e : UInt32
  f : UInt32
  g : UInt32
  h : UInt32

/-- The leading fractional bits of the square roots of the first eight primes. -/
def State.initial : State :=
  ⟨0x6a09e667, 0xbb67ae85, 0x3c6ef372, 0xa54ff53a, 0x510e527f, 0x9b05688c,
    0x1f83d9ab, 0x5be0cd19⟩

/-- The leading fractional bits of the cube roots of the first 64 primes. -/
def constants : List UInt32 :=
  [0x428a2f98, 0x71374491, 0xb5c0fbcf, 0xe9b5dba5, 0x3956c25b, 0x59f111f1, 0x923f82a4,
    0xab1c5ed5, 0xd807aa98, 0x12835b01, 0x243185be, 0x550c7dc3, 0x72be5d74, 0x80deb1fe,
    0x9bdc06a7, 0xc19bf174, 0xe49b69c1, 0xefbe4786, 0x0fc19dc6, 0x240ca1cc, 0x2de92c6f,
    0x4a7484aa, 0x5cb0a9dc, 0x76f988da, 0x983e5152, 0xa831c66d, 0xb00327c8, 0xbf597fc7,
    0xc6e00bf3, 0xd5a79147, 0x06ca6351, 0x14292967, 0x27b70a85, 0x2e1b2138, 0x4d2c6dfc,
    0x53380d13, 0x650a7354, 0x766a0abb, 0x81c2c92e, 0x92722c85, 0xa2bfe8a1, 0xa81a664b,
    0xc24b8b70, 0xc76c51a3, 0xd192e819, 0xd6990624, 0xf40e3585, 0x106aa070, 0x19a4c116,
    0x1e376c08, 0x2748774c, 0x34b0bcb5, 0x391c0cb3, 0x4ed8aa4a, 0x5b9cca4f, 0x682e6ff3,
    0x748f82ee, 0x78a5636f, 0x84c87814, 0x8cc70208, 0x90befffa, 0xa4506ceb, 0xbef9a3f7,
    0xc67178f2]

def rotate (w k : UInt32) : UInt32 := (w >>> k) ||| (w <<< (32 - k))

abbrev Window := Vector UInt32 16

def Window.ofBlock (block : Bytes) : Window :=
  Vector.ofFn fun i => UInt32.ofNat (BigEndian.value ((block.drop (4 * i)).take 4))

/-- The word that enters the window next. -/
def Window.next (w : Window) : UInt32 :=
  let near := w[14]
  let far := w[1]
  (rotate near 17 ^^^ rotate near 19 ^^^ (near >>> 10)) + w[9]
    + (rotate far 7 ^^^ rotate far 18 ^^^ (far >>> 3)) + w[0]

def Window.slide (w : Window) : Window :=
  Vector.ofFn fun i => if h : i.val < 15 then w[i.val + 1] else w.next

/-- The first words of this many windows, each slid from the one before. -/
def schedule : Nat → Window → List UInt32
  | 0, _ => []
  | rounds + 1, w => w[0] :: schedule rounds w.slide

def round (s : State) (constant word : UInt32) : State :=
  let choice := (s.e &&& s.f) ^^^ (~~~s.e &&& s.g)
  let majority := (s.a &&& s.b) ^^^ (s.a &&& s.c) ^^^ (s.b &&& s.c)
  let t := s.h + (rotate s.e 6 ^^^ rotate s.e 11 ^^^ rotate s.e 25) + choice + constant + word
  let u := (rotate s.a 2 ^^^ rotate s.a 13 ^^^ rotate s.a 22) + majority
  ⟨t + u, s.a, s.b, s.c, s.d + t, s.e, s.f, s.g⟩

def compress (s : State) (block : Bytes) : State :=
  let t := (constants.zip (schedule 64 (Window.ofBlock block))).foldl
    (fun t (constant, word) => round t constant word) s
  ⟨s.a + t.a, s.b + t.b, s.c + t.c, s.d + t.d, s.e + t.e, s.f + t.f, s.g + t.g, s.h + t.h⟩

/-- A set bit, zeros up to eight bytes short of a block, and the length in bits. -/
def pad (message : Bytes) : Bytes :=
  message ++ 0x80 :: List.replicate ((119 - message.length % 64) % 64) 0
    ++ BigEndian.encode 8 (8 * message.length)

def State.bytes (s : State) : Bytes :=
  [s.a, s.b, s.c, s.d, s.e, s.f, s.g, s.h].flatMap fun w => BigEndian.encode 4 w.toNat

def digest (message : Bytes) : Bytes :=
  (((pad message).blocks 64).foldl compress State.initial).bytes

end Sha256

namespace Keccak256

abbrev State := Vector UInt64 25

def State.zero : State := Vector.replicate 25 0

/-- Columns and rows wrap around. -/
def State.lane (s : State) (x y : Nat) : UInt64 := s[5 * (y % 5) + x % 5]

def State.ofLanes (lane : Nat → Nat → UInt64) : State :=
  Vector.ofFn fun i => lane (i.val % 5) (i.val / 5)

def rotate (w k : UInt64) : UInt64 := (w <<< k) ||| (w >>> (64 - k))

/-- How far each lane turns. -/
def rotations : State :=
  #v[0, 1, 62, 28, 27,
    36, 44, 6, 55, 20,
    3, 10, 43, 25, 39,
    41, 45, 15, 21, 8,
    18, 2, 61, 56, 14]

def roundConstants : List UInt64 :=
  [0x0000000000000001, 0x0000000000008082, 0x800000000000808a, 0x8000000080008000,
    0x000000000000808b, 0x0000000080000001, 0x8000000080008081, 0x8000000000008009,
    0x000000000000008a, 0x0000000000000088, 0x0000000080008009, 0x000000008000000a,
    0x000000008000808b, 0x800000000000008b, 0x8000000000008089, 0x8000000000008003,
    0x8000000000008002, 0x8000000000000080, 0x000000000000800a, 0x800000008000000a,
    0x8000000080008081, 0x8000000000008080, 0x0000000080000001, 0x8000000080008008]

def parity (s : State) (x : Nat) : UInt64 :=
  s.lane x 0 ^^^ s.lane x 1 ^^^ s.lane x 2 ^^^ s.lane x 3 ^^^ s.lane x 4

/-- Each lane takes in the parities of the column before it and, turned by one bit, of the column
behind it. -/
def theta (s : State) : State :=
  State.ofLanes fun x y => s.lane x y ^^^ parity s (x + 4) ^^^ rotate (parity s (x + 1)) 1

/-- Each lane turns and moves: the one that comes to column `x` and row `y` was in column `x + 3 y`
and row `x`. -/
def rhoPi (s : State) : State :=
  State.ofLanes fun x y => rotate (s.lane (x + 3 * y) x) (rotations.lane (x + 3 * y) x)

def chi (s : State) : State :=
  State.ofLanes fun x y => s.lane x y ^^^ (~~~s.lane (x + 1) y &&& s.lane (x + 2) y)

def iota (constant : UInt64) (s : State) : State := s.set 0 (s[0] ^^^ constant)

def round (s : State) (constant : UInt64) : State := iota constant (chi (rhoPi (theta s)))

def permute (s : State) : State := roundConstants.foldl round s

/-- How many bytes of the state a block is mixed into. -/
def rate : Nat := 136

/-- The lane that eight bytes of a block write; `0` behind its end. -/
def blockLane (block : Bytes) (i : Nat) : UInt64 :=
  UInt64.ofNat (BigEndian.value ((block.drop (8 * i)).take 8).reverse)

def absorb (s : State) (block : Bytes) : State :=
  permute (Vector.ofFn fun i => s[i] ^^^ blockLane block i)

/-- At least one byte, up to a whole number of blocks. -/
def pad (message : Bytes) : Bytes :=
  let missing := rate - message.length % rate
  if missing = 1 then message ++ [0x81]
  else message ++ 0x01 :: List.replicate (missing - 2) 0 ++ [0x80]

/-- The first 32 bytes of the state. -/
def State.bytes (s : State) : Bytes :=
  [s[0], s[1], s[2], s[3]].flatMap fun w => (BigEndian.encode 8 w.toNat).reverse

def digest (message : Bytes) : Bytes :=
  (((pad message).blocks rate).foldl absorb State.zero).bytes

theorem length_digest (message : Bytes) : (digest message).length = 32 := by
  unfold digest State.bytes
  simp

end Keccak256

/-! ## Hashing in pieces -/

/-- A library's Keccak-256. -/
class Keccak where
  digest : Bytes → Bytes

instance : Keccak := ⟨Keccak256.digest⟩

inductive Hasher.Algorithm
  | sha256
  | keccak256
  deriving DecidableEq

namespace Hasher.Algorithm

def ofName (name : String) : Except Failure Algorithm :=
  if name = "sha256" then .ok .sha256
  else if name = "keccak256" then .ok .keccak256
  else .error (.argument (.unknownAlgorithm name))

def digest [Keccak] : Algorithm → Bytes → Bytes
  | .sha256 => Sha256.digest
  | .keccak256 => Keccak.digest

end Hasher.Algorithm

structure Hasher where
  algorithm : Hasher.Algorithm
  absorbed : Bytes

namespace Hasher

def new (algorithm : Algorithm) : Hasher := ⟨algorithm, []⟩

def update (h : Hasher) (data : Bytes) : Hasher := { h with absorbed := h.absorbed ++ data }

def digest [Keccak] (h : Hasher) : Bytes := h.algorithm.digest h.absorbed

theorem foldl_update (h : Hasher) (parts : List Bytes) :
    parts.foldl update h = { h with absorbed := h.absorbed ++ parts.flatten } := by
  induction parts generalizing h with
  | nil => simp
  | cons part parts ih => rw [List.foldl_cons, ih]; simp [update]

/-- Given in pieces or at once, the digest is that of the whole. -/
theorem digest_foldl_update [Keccak] (algorithm : Algorithm) (parts : List Bytes) :
    (parts.foldl update (new algorithm)).digest = algorithm.digest parts.flatten := by
  rw [foldl_update]
  rfl

end Hasher

end KeyRecovery
