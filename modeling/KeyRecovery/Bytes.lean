/-!
# Byte strings are lists of bytes

Positions are integers and may be negative, in which case they count from the end. A slice cuts at
both ends to what the string has, so it never fails; a single byte is absent outside the string.

`BigEndian.value` reads a byte string of any length as a number, the first byte weighing most.
`BigEndian.encode` writes the last digits of a number in base 256 on a given count of bytes, and
`BigEndian.encode?` asks that they are all of it.
-/

namespace KeyRecovery

abbrev Bytes := List UInt8

namespace Bytes

/-- The place a position stands for in a string of `length` bytes, between `0` and `length`. -/
def cut (length : Nat) (position : Int) : Nat :=
  if position < 0 then (position + length).toNat else min position.toNat length

/-- The bytes from `start` up to but without `stop`. -/
def slice (data : Bytes) (start stop : Int) : Bytes :=
  (data.take (cut data.length stop)).drop (cut data.length start)

/-- The byte at a position, counted from the end if the position is negative. -/
def at? (data : Bytes) (position : Int) : Option UInt8 :=
  if 0 ≤ position then data[position.toNat]?
  else if 0 ≤ position + data.length then data[(position + data.length).toNat]?
  else none

theorem cut_of_nonneg {length : Nat} {position : Int} (h : 0 ≤ position) :
    cut length position = min position.toNat length := by
  unfold cut
  rw [if_neg (by omega)]

/-- Between positions counted from the start a slice is a cut of a cut. -/
theorem slice_of_nonneg (data : Bytes) {start stop : Nat} :
    data.slice start stop = (data.take stop).drop start := by
  unfold slice
  rw [cut_of_nonneg (by omega), cut_of_nonneg (by omega)]
  simp only [Int.toNat_natCast]
  rcases Nat.le_total start data.length with h | h
  · rw [Nat.min_eq_left h, ← List.take_eq_take_min]
  · have hl := List.length_take_le stop data
    rw [Nat.min_eq_right h, ← List.take_eq_take_min]
    have hl' := List.length_take_le' stop data
    rw [List.drop_of_length_le (by omega), List.drop_of_length_le (by omega)]

theorem at?_natCast (data : Bytes) (i : Nat) : data.at? i = data[i]? := by
  simp [at?]

/-- A string as long as two together is one behind the other. -/
theorem exists_eq_append {data : Bytes} {m n : Nat} (h : data.length = m + n) :
    ∃ front back : Bytes, front.length = m ∧ back.length = n ∧ data = front ++ back := by
  refine ⟨data.take m, data.drop m, ?_, ?_, (List.take_append_drop m data).symm⟩
  · rw [List.length_take, h]
    exact Nat.min_eq_left (Nat.le_add_right m n)
  · rw [List.length_drop, h]
    exact Nat.add_sub_cancel_left m n

/-- The string cut into runs of `size` bytes (of one byte if `size` is `0`), the last one shorter
if they do not fit evenly. -/
def blocks (size : Nat) : Bytes → List Bytes
  | [] => []
  | b :: rest => (b :: rest.take (size - 1)) :: blocks size (rest.drop (size - 1))
termination_by data => data.length
decreasing_by
  rw [List.length_drop, List.length_cons]
  omega

end Bytes

namespace BigEndian

/-- The number that the bytes write in base 256; no bytes write `0`. -/
def value (data : Bytes) : Nat :=
  data.foldl (fun n b => 256 * n + b.toNat) 0

/-- The last `length` base 256 digits of `n`. -/
def encode : Nat → Nat → Bytes
  | 0, _ => []
  | length + 1, n => encode length (n / 256) ++ [UInt8.ofNat (n % 256)]

/-- The number on `length` bytes, if it can be read back from them. -/
def encode? (length : Nat) (n : Int) : Option Bytes :=
  let data := encode length n.toNat
  if (value data : Int) = n then some data else none

@[simp] theorem length_encode : ∀ length n, (encode length n).length = length
  | 0, _ => rfl
  | length + 1, n => by rw [encode, List.length_append, length_encode length]; rfl

theorem value_append_singleton (data : Bytes) (b : UInt8) :
    value (data ++ [b]) = 256 * value data + b.toNat := by
  unfold value
  rw [List.foldl_append]
  rfl

theorem encode?_eq_some {length : Nat} {n : Int} {data : Bytes} (h : encode? length n = some data) :
    data.length = length ∧ (value data : Int) = n := by
  unfold encode? at h
  simp only [] at h
  split at h
  · obtain rfl := Option.some.inj h
    exact ⟨length_encode _ _, by assumption⟩
  · exact absurd h (by simp)

end BigEndian

end KeyRecovery
