import KeyRecovery.Failure

/-!
# Inverses, binary digits and powers

The inverse is found by the extended Euclidean algorithm. Division is to the floor throughout, so a
remainder has the sign of the divisor. With a negative modulus the last divisor is negative, never
`1`, and no inverse is found.

Binary digits are given least significant first. A negative number has the digits of its two's
complement, which run on as ones for ever.
-/

namespace KeyRecovery

/-- Divides until nothing is left: the last divisor of `a` and `b`, and what comes of the
coefficients `s` of `a` and `t` of `b` when they go through the same subtractions. -/
def euclid (a b s t : Int) : Int × Int :=
  if b = 0 then (a, s) else euclid b (a.fmod b) t (s - a.fdiv b * t)
termination_by b.natAbs
decreasing_by
  rename_i hb
  rcases Int.lt_or_gt_of_ne hb with h | h
  · have h1 := Int.fmod_lt_of_pos (-a) (b := -b) (by omega)
    have h2 := Int.fmod_nonneg_of_pos (-a) (b := -b) (by omega)
    rw [Int.neg_fmod_neg] at h1 h2
    omega
  · have h1 := Int.fmod_lt_of_pos a h
    have h2 := Int.fmod_nonneg_of_pos a h
    omega

/-- The inverse of `a` modulo `m`, if the algorithm ends in `1`. -/
def inverse? (a m : Int) : Option Int :=
  if a.fmod m = 0 then none
  else
    let (divisor, coefficient) := euclid (a.fmod m) m 1 0
    if divisor = 1 then some (coefficient.fmod m) else none

/-- As `inverse?`, where reducing modulo `0` is a fault. -/
def tryInverse (a m : Int) : Except Failure (Option Int) :=
  if m = 0 then .error (.fault .divisionByZero) else .ok (inverse? a m)

theorem tryInverse_of_ne_zero {a m : Int} (h : m ≠ 0) : tryInverse a m = .ok (inverse? a m) :=
  if_neg h

/-- The lowest `length` binary digits of `k`. -/
def bitsLE (k : Int) : Nat → List Bool
  | 0 => []
  | length + 1 => decide (k % 2 = 1) :: bitsLE (k / 2) length

/-- As many digits as the number has, none for `0`. -/
def binary (k : Nat) : List Bool :=
  bitsLE k (if k = 0 then 0 else k.log2 + 1)

/-- The number that the digits write. -/
def ofBitsLE : List Bool → Nat
  | [] => 0
  | b :: bits => (if b then 1 else 0) + 2 * ofBitsLE bits

@[simp] theorem length_bitsLE : ∀ (length : Nat) (k : Int), (bitsLE k length).length = length
  | 0, _ => rfl
  | length + 1, k => by rw [bitsLE, List.length_cons, length_bitsLE length]

/-- The product of `acc` and the power of `base` whose exponent has these binary digits, reduced
modulo `m` at each step. -/
def powBits (m : Nat) : List Bool → Nat → Nat → Nat
  | [], _, acc => acc
  | b :: bits, base, acc =>
    powBits m bits (base * base % m) (if b then acc * base % m else acc)

def powMod (base exponent m : Nat) : Nat :=
  powBits m (binary exponent) (base % m) (1 % m)

end KeyRecovery
