import KeyRecovery.Encoding

/-!
# Verification of signatures, and recovery of keys

With `z` the scalar of the digest and `t` the inverse of `s` modulo the order, a signature is valid
if the sum of `z t` times the generator and `r t` times the key is a point whose `x` is `r` modulo
the order. An inverse may be supplied; it is tested before it is used, and none is computed in its
place. The key is not tested to be on the curve.

The recovery indicator says which of the points whose `x` is `r` modulo the order the signer met:
its second bit that `x` is `r` plus the order, its lowest bit that `y` is odd. With `R` that point
the key is `r⁻¹ (s R - z G)`.
-/

namespace KeyRecovery.Ecdsa

open Secp256k1 (curve)

/-! ## Verification -/

/-- How many binary digits of the two multipliers are taken. -/
def scalarBits : Nat := 256

def InRange (v : Int) : Prop := 0 < v ∧ v < curve.n

instance (v : Int) : Decidable (InRange v) := inferInstanceAs (Decidable (_ ∧ _))

/-- The inverse of `s` to compute with: the supplied one if it is one, or else the one found. -/
def usableInverse (s : Int) : Option Int → Except Failure (Option Int)
  | some t => .ok (if (t * s).fmod curve.n = 1 then some t else none)
  | none => tryInverse s curve.n

/-- The sum of the two multiples, absent at infinity. -/
def combination (key : Affine) (z r t : Int) : Except Failure (Option Point) :=
  curve.tryMulAdd (bitsLE ((z * t).fmod curve.n) scalarBits) curve.generator
    (bitsLE ((r * t).fmod curve.n) scalarBits) (Point.ofAffine key)

/-- The `x` of the sum, reduced by the order; absent if the sum stands for no affine point. -/
def abscissa (key : Affine) (z r t : Int) : Except Failure (Option Int) := do
  let some V ← combination key z r t | return none
  let some W ← curve.tryAffine V | return none
  curve.tryScalar (← encodeScalar W.x)

def verify (key digest : Bytes) (r s : Int) (supplied : Option Int) : Except Failure Bool := do
  let some Q := PublicKey.point? key | return false
  let some z ← curve.tryScalar digest | return false
  if ¬ (InRange r ∧ InRange s) then return false
  let some t ← usableInverse s supplied | return false
  return (← abscissa Q z r t) = some r

/-! ## Recovery -/

def noncePoint? (r v : Int) : Option Affine :=
  let x := if v / 2 % 2 = 1 then r + curve.n else r
  if x < curve.p then Secp256k1.lift? x (v % 2 = 1) else none

/-- `r⁻¹ (s R - z G)`, where `t` is the inverse of `r`. -/
def keyPoint (R : Affine) (s z t : Int) : Point :=
  curve.mul t
    (curve.add (curve.mul s (Point.ofAffine R)) (curve.neg (curve.mul z curve.generator)))

/-- The key for the scalar `z` of the digest; absent if there is no nonce point or the key would be
at infinity. -/
def recoverKey? (sig : Signature) (z : Int) : Option Affine := do
  let R ← noncePoint? sig.r sig.v
  let t ← inverse? sig.r curve.n
  curve.affine? (keyPoint R sig.s z t)

end KeyRecovery.Ecdsa
