import KeyRecovery.Curve

/-!
# The curve secp256k1, and its points of a given `x`

The modulus is `3` modulo `4`, so a residue that is a square is the square of its power with
exponent `(p + 1) / 4`. Whether it is one is found by putting the power into the equation.
-/

namespace KeyRecovery

namespace Secp256k1

def curve : Curve where
  p := 0xfffffffffffffffffffffffffffffffffffffffffffffffffffffffefffffc2f
  n := 0xfffffffffffffffffffffffffffffffebaaedce6af48a03bbfd25e8cd0364141
  a := 0
  b := 7
  gx := 0x79be667ef9dcbbac55a06295ce870b07029bfcdb2dce28d959f2815b16f81798
  gy := 0x483ada7726a3c4655da4fbfc0e1108a8fd17b448a68554199c47d08ffb10d4b8
  coordBytes := 32

/-- The candidate for a square root of the curve's right-hand side at `x`. -/
def root (x : Int) : Int :=
  powMod (curve.cubic x).toNat ((curve.p.toNat + 1) / 4) curve.p.toNat

/-- Of the candidate and its negative, the one of the parity asked for. -/
def ordinate (x : Int) (isOdd : Bool) : Int :=
  if decide (root x % 2 = 1) = isOdd then root x else curve.p - root x

/-- The point with this `x` and this parity of `y`, if there is one. -/
def lift? (x : Int) (isOdd : Bool) : Option Affine :=
  let P : Affine := ⟨x, ordinate x isOdd⟩
  if curve.IsSolution P then some P else none

theorem isSolution_of_lift? {x : Int} {isOdd : Bool} {P : Affine} (h : lift? x isOdd = some P) :
    P.x = x ∧ curve.IsSolution P := by
  unfold lift? at h
  simp only [] at h
  split at h
  · obtain rfl := Option.some.inj h
    exact ⟨rfl, by assumption⟩
  · exact absurd h (by simp)

theorem p_ne_zero : curve.p ≠ 0 := by decide

theorem n_ne_zero : curve.n ≠ 0 := by decide

end Secp256k1

/-! ## How many bytes each encoding takes -/

@[simp] def scalarLength : Nat := 32

@[simp] def digestLength : Nat := 32

/-- `r`, `s` and the recovery indicator. -/
@[simp] def signatureLength : Nat := 65

/-- A parity byte and a coordinate. -/
@[simp] def compressedLength : Nat := 33

/-- A mark and two coordinates. -/
@[simp] def uncompressedLength : Nat := 65

@[simp] def frameHeaderLength : Nat := 4

end KeyRecovery
