import KeyRecovery.Arith

/-!
# Points of short Weierstrass curves in Jacobian coordinates

A triple `(x, y, z)` with `z ≠ 0` stands for the affine point `(x / z², y / z³)`, and one with
`z = 0` for the point at infinity. The operations are given on all triples over all integers `p`:
they only ask whether `z` is `0` itself, and whether the numbers they compare have the same
remainder.

`mul` takes the binary digits of the number from the lowest, doubling an addend. `mulAdd` takes two
runs of digits together from the highest, doubling the sum and adding one of three points.

There is no affine point at infinity, and none if `z` has no inverse modulo `p`. Two points are the
same if both are at infinity, or neither is and they stand for the same affine point or both for
none.
-/

namespace KeyRecovery

/-- The curve `y² = x³ + a x + b` modulo `p`, with a generator and the order that scalars are
reduced by. `coordBytes` is how many bytes a coordinate is written on. -/
structure Curve where
  p : Int
  n : Int
  a : Int
  b : Int
  gx : Int
  gy : Int
  coordBytes : Int
  deriving DecidableEq

structure Affine where
  x : Int
  y : Int
  deriving DecidableEq

def Affine.text (P : Affine) : String :=
  "Point(x=" ++ Hex.ofInt P.x ++ ", y=" ++ Hex.ofInt P.y ++ ")"

/-- How a point is shown, from what it stands for. -/
def Affine.textOrInfinity : Option Affine → String
  | some P => P.text
  | none => "Point(infinity)"

structure Point where
  x : Int
  y : Int
  z : Int
  deriving DecidableEq

namespace Point

def infinity : Point := ⟨0, 1, 0⟩

def ofAffine (P : Affine) : Point := ⟨P.x, P.y, 1⟩

def isInfinity (P : Point) : Bool := P.z = 0

theorem isInfinity_iff {P : Point} : P.isInfinity ↔ P.z = 0 := by
  simp [isInfinity]

end Point

namespace Curve

variable (C : Curve)

def reduce (v : Int) : Int := v.fmod C.p

/-- The right-hand side of the equation, reduced. -/
def cubic (x : Int) : Int := C.reduce (x * x * x + C.a * x + C.b)

/-- Both coordinates are reduced and solve the equation. -/
def IsSolution (P : Affine) : Prop :=
  (0 ≤ P.x ∧ P.x < C.p) ∧ (0 ≤ P.y ∧ P.y < C.p) ∧ C.reduce (P.y * P.y) = C.cubic P.x

instance (P : Affine) : Decidable (C.IsSolution P) :=
  inferInstanceAs (Decidable (_ ∧ _ ∧ _))

def ofAffine? (P : Affine) : Option Point :=
  if C.IsSolution P then some (Point.ofAffine P) else none

/-- Not checked to lie on the curve. -/
def generator : Point := ⟨C.gx, C.gy, 1⟩

def neg (P : Point) : Point := ⟨P.x, C.reduce (-P.y), P.z⟩

/-- The tangent formula; a point with `y = 0` is its own negative. -/
def double (P : Point) : Point :=
  if P.z = 0 ∨ P.y = 0 then Point.infinity
  else
    let yy := C.reduce (P.y * P.y)
    let zz := C.reduce (P.z * P.z)
    let s := C.reduce (4 * P.x * yy)
    let m := C.reduce (3 * P.x * P.x + C.a * zz * zz)
    let x := C.reduce (m * m - 2 * s)
    ⟨x, C.reduce (m * (s - x) - 8 * yy * yy), C.reduce (2 * P.y * P.z)⟩

/-- The chord formula between points of different `x`; an operand is answered untouched if the other
is at infinity. -/
def add (P Q : Point) : Point :=
  if P.z = 0 then Q
  else if Q.z = 0 then P
  else
    let pzz := C.reduce (P.z * P.z)
    let qzz := C.reduce (Q.z * Q.z)
    let u := C.reduce (P.x * qzz)
    let u' := C.reduce (Q.x * pzz)
    let s := C.reduce (P.y * Q.z * qzz)
    let s' := C.reduce (Q.y * P.z * pzz)
    if u = u' then
      if s = s' then C.double P else Point.infinity
    else
      let h := u' - u
      let i := C.reduce (4 * h * h)
      let j := C.reduce (h * i)
      let r := 2 * (s' - s)
      let v := C.reduce (u * i)
      let x := C.reduce (r * r - j - 2 * v)
      ⟨x, C.reduce (r * (v - x) - 2 * s * j), C.reduce (2 * P.z * Q.z * h)⟩

theorem double_of_isInfinity {P : Point} (h : P.z = 0) : C.double P = Point.infinity := by
  unfold double
  rw [if_pos (.inl h)]

/-! ## Multiples -/

/-- Adds to `sum` the multiple of `addend` that the digits write. -/
def addMultiple : List Bool → Point → Point → Point
  | [], sum, _ => sum
  | b :: bits, sum, addend =>
    addMultiple bits (if b then C.add sum addend else sum) (C.double addend)

/-- `k` times the point; infinity if `k` is not positive, and the point untouched if `k` is `1`. -/
def mul (k : Int) (P : Point) : Point :=
  if k ≤ 0 then Point.infinity
  else if k = 1 then P
  else C.addMultiple (binary k.toNat) Point.infinity P

/-- The point that a pair of digits adds, if one is set. -/
def chosen (P Q both : Point) : Bool × Bool → Option Point
  | (true, true) => some both
  | (true, false) => some P
  | (false, true) => some Q
  | (false, false) => none

def mulAddStep (P Q both sum : Point) (digits : Bool × Bool) : Point :=
  match chosen P Q both digits with
  | some addend => C.add (C.double sum) addend
  | none => C.double sum

/-- The sum of the multiple of `P` that the digits `as` write and the multiple of `Q` that `bs`
write, least significant digit first. -/
def mulAdd (as : List Bool) (P : Point) (bs : List Bool) (Q : Point) : Point :=
  (as.zip bs).reverse.foldl (C.mulAddStep P Q (C.add P Q)) Point.infinity

/-- One more pair of low digits doubles the sum of the rest and adds the chosen point. -/
theorem mulAdd_cons (a b : Bool) (as bs : List Bool) (P Q : Point) :
    C.mulAdd (a :: as) P (b :: bs) Q
      = C.mulAddStep P Q (C.add P Q) (C.mulAdd as P bs Q) (a, b) := by
  unfold mulAdd
  rw [List.zip_cons_cons, List.reverse_cons, List.foldl_append]
  rfl

/-! ## The affine point that a triple stands for -/

/-- The affine point with the inverse `i` of `z` put in. -/
def scaled (P : Point) (i : Int) : Affine :=
  let ii := C.reduce (i * i)
  let iii := C.reduce (ii * i)
  ⟨C.reduce (P.x * ii), C.reduce (P.y * iii)⟩

def affine? (P : Point) : Option Affine :=
  if P.z = 0 then none else (inverse? P.z C.p).map (C.scaled P)

def same (P Q : Point) : Bool :=
  if P.z = 0 ∨ Q.z = 0 then decide (P.z = 0 ∧ Q.z = 0)
  else decide (C.affine? P = C.affine? Q)

/-- The number that the leading `coordBytes` bytes write, reduced by the order; absent if there are
fewer bytes. -/
def scalar? (data : Bytes) : Option Int :=
  if data.length < C.coordBytes then none
  else some (Int.fmod (BigEndian.value (data.slice 0 C.coordBytes)) C.n)

theorem affine?_of_isInfinity {P : Point} (h : P.z = 0) : C.affine? P = none := if_pos h

/-! ## The operations where the modulus or the order may be `0` -/

/-- The value, unless the modulus is `0` and computing it reduces something. -/
def guarded {α : Type} (reduces : Prop) [Decidable reduces] (value : α) : Except Failure α :=
  if C.p = 0 ∧ reduces then .error (.fault .divisionByZero) else .ok value

def tryDouble (P : Point) : Except Failure Point :=
  C.guarded (P.z ≠ 0 ∧ P.y ≠ 0) (C.double P)

def tryAdd (P Q : Point) : Except Failure Point :=
  C.guarded (P.z ≠ 0 ∧ Q.z ≠ 0) (C.add P Q)

def tryAffine (P : Point) : Except Failure (Option Affine) :=
  C.guarded (P.z ≠ 0) (C.affine? P)

def trySame (P Q : Point) : Except Failure Bool :=
  C.guarded (P.z ≠ 0 ∧ Q.z ≠ 0) (C.same P Q)

def tryAddMultiple : List Bool → Point → Point → Except Failure Point
  | [], sum, _ => .ok sum
  | b :: bits, sum, addend => do
    let sum ← if b then C.tryAdd sum addend else .ok sum
    let addend ← C.tryDouble addend
    tryAddMultiple bits sum addend

def tryMul (k : Int) (P : Point) : Except Failure Point :=
  if k ≤ 0 then .ok Point.infinity
  else if k = 1 then .ok P
  else C.tryAddMultiple (binary k.toNat) Point.infinity P

def tryMulAddStep (P Q both sum : Point) (digits : Bool × Bool) : Except Failure Point := do
  let twice ← C.tryDouble sum
  match chosen P Q both digits with
  | some addend => C.tryAdd twice addend
  | none => .ok twice

/-- The digits have to be equally many, and the sum is absent if it is at infinity. -/
def tryMulAdd (as : List Bool) (P : Point) (bs : List Bool) (Q : Point) :
    Except Failure (Option Point) :=
  if as.length ≠ bs.length then .error (.argument .bitLengths)
  else do
    let both ← C.tryAdd P Q
    let sum ← (as.zip bs).reverse.foldlM (C.tryMulAddStep P Q both) Point.infinity
    return if sum.z = 0 then none else some sum

def tryScalar (data : Bytes) : Except Failure (Option Int) :=
  if C.n = 0 ∧ C.coordBytes ≤ data.length then .error (.fault .divisionByZero)
  else .ok (C.scalar? data)

section Agree

variable {C}
variable (hp : C.p ≠ 0)

include hp

theorem guarded_of_ne_zero {α : Type} (reduces : Prop) [Decidable reduces] (value : α) :
    C.guarded reduces value = .ok value := by
  unfold guarded
  rw [if_neg fun h => hp h.1]

theorem tryDouble_of_ne_zero (P : Point) : C.tryDouble P = .ok (C.double P) :=
  guarded_of_ne_zero hp _ _

theorem tryAdd_of_ne_zero (P Q : Point) : C.tryAdd P Q = .ok (C.add P Q) :=
  guarded_of_ne_zero hp _ _

theorem tryAffine_of_ne_zero (P : Point) : C.tryAffine P = .ok (C.affine? P) :=
  guarded_of_ne_zero hp _ _

theorem trySame_of_ne_zero (P Q : Point) : C.trySame P Q = .ok (C.same P Q) :=
  guarded_of_ne_zero hp _ _

theorem tryAddMultiple_of_ne_zero : ∀ (bits : List Bool) (sum addend : Point),
    C.tryAddMultiple bits sum addend = .ok (C.addMultiple bits sum addend)
  | [], _, _ => rfl
  | b :: bits, sum, addend => by
    rw [tryAddMultiple, tryDouble_of_ne_zero hp, tryAdd_of_ne_zero hp, addMultiple,
      ← tryAddMultiple_of_ne_zero bits]
    cases b <;> rfl

theorem tryMul_of_ne_zero (k : Int) (P : Point) : C.tryMul k P = .ok (C.mul k P) := by
  unfold tryMul mul
  split
  · rfl
  · split
    · rfl
    · exact tryAddMultiple_of_ne_zero hp _ _ _

theorem tryMulAddStep_of_ne_zero (P Q both sum : Point) (digits : Bool × Bool) :
    C.tryMulAddStep P Q both sum digits = .ok (C.mulAddStep P Q both sum digits) := by
  unfold tryMulAddStep mulAddStep
  rw [tryDouble_of_ne_zero hp]
  rcases digits with ⟨_ | _, _ | _⟩
  · rfl
  all_goals exact tryAdd_of_ne_zero hp _ _

theorem foldlM_tryMulAddStep_of_ne_zero (P Q both : Point) :
    ∀ (digits : List (Bool × Bool)) (sum : Point),
      digits.foldlM (C.tryMulAddStep P Q both) sum
        = .ok (digits.foldl (C.mulAddStep P Q both) sum)
  | [], _ => rfl
  | d :: digits, sum => by
    rw [List.foldlM_cons, tryMulAddStep_of_ne_zero hp]
    exact foldlM_tryMulAddStep_of_ne_zero P Q both digits _

theorem tryMulAdd_of_ne_zero {as bs : List Bool} (h : as.length = bs.length) (P Q : Point) :
    C.tryMulAdd as P bs Q
      = .ok (if (C.mulAdd as P bs Q).z = 0 then none else some (C.mulAdd as P bs Q)) := by
  unfold tryMulAdd
  rw [if_neg (not_not_intro h), tryAdd_of_ne_zero hp]
  show Except.bind _ _ = _
  simp only [Except.bind, foldlM_tryMulAddStep_of_ne_zero hp]
  rfl

end Agree

theorem tryScalar_of_ne_zero {C : Curve} (hn : C.n ≠ 0) (data : Bytes) :
    C.tryScalar data = .ok (C.scalar? data) :=
  if_neg fun h => hn h.1

end Curve

end KeyRecovery
