import Mathlib.Algebra.Order.Ring.Nat
import Mathlib.Data.List.Induction
import KeyRecovery.Encoding

/-!
# Reads at an offset, and one behind the other

Big-endian bytes keep a number modulo `256 ^ length`, so exactly the numbers below that are read
back, and every byte string is what its own number is written as. Of a scalar reading asks for more
than writing does: what is read is below the order, and what is written only has to fit.

In a chain each read starts where the one before it ended, the first at the start of the string. A
read gets what it asks for exactly if that many bytes are left and, for a scalar, the number they
write is below the order (`perform_of_not_isRefused`, `perform_of_isRefused`); then the value,
written again, is what stands at its place. So the values of a chain of reads, written one behind
the other, are the string up to where the last one ended (`chain_eq_ok`), and a chain breaks at its
first read that is refused, as one that is not in its format (`chain_eq_error`).
-/

namespace KeyRecovery

open Secp256k1 (curve)

namespace BigEndian

theorem value_encode : ∀ length n, value (encode length n) = n % 256 ^ length
  | 0, n => by rw [Nat.pow_zero, Nat.mod_one]; rfl
  | length + 1, n => by
    have hb : (UInt8.ofNat (n % 256)).toNat = n % 256 := by
      rw [UInt8.toNat_ofNat']
      exact Nat.mod_eq_of_lt (Nat.mod_lt _ (by decide))
    rw [encode, value_append_singleton, value_encode length, hb, Nat.pow_succ, Nat.mul_comm _ 256,
      Nat.mod_mul, Nat.add_comm]

/-- A number that fits is read back. -/
theorem value_encode_of_lt {length n : Nat} (h : n < 256 ^ length) :
    value (encode length n) = n := by
  rw [value_encode, Nat.mod_eq_of_lt h]

theorem value_lt (data : Bytes) : value data < 256 ^ data.length := by
  induction data using List.reverseRecOn with
  | nil => exact Nat.one_pos
  | append_singleton data b ih =>
    have hb := b.toNat_lt
    rw [value_append_singleton, List.length_append, List.length_singleton, pow_succ]
    omega

theorem encode_value (data : Bytes) : encode data.length (value data) = data := by
  induction data using List.reverseRecOn with
  | nil => rfl
  | append_singleton data b ih =>
    have hb := b.toNat_lt
    have hq : (256 * value data + b.toNat) / 256 = value data := by omega
    have hr : (256 * value data + b.toNat) % 256 = b.toNat := by omega
    rw [value_append_singleton, List.length_append, List.length_singleton, encode, hq, hr, ih,
      UInt8.ofNat_toNat]

theorem encode?_eq_some_iff {length : Nat} {n : Int} {data : Bytes} :
    encode? length n = some data ↔ data.length = length ∧ (value data : Int) = n := by
  refine ⟨encode?_eq_some, ?_⟩
  rintro ⟨rfl, rfl⟩
  unfold encode?
  simp only [Int.toNat_natCast, encode_value, if_true]

/-- The numbers that are written are those from `0` up to `256 ^ length`. -/
theorem encode?_isSome_iff {length : Nat} {n : Int} :
    (encode? length n).isSome ↔ 0 ≤ n ∧ n < 256 ^ length := by
  rw [Option.isSome_iff_exists]
  constructor
  · rintro ⟨data, h⟩
    obtain ⟨rfl, rfl⟩ := encode?_eq_some h
    exact ⟨by omega, by exact_mod_cast value_lt data⟩
  · rintro ⟨h, hlt⟩
    obtain ⟨k, rfl⟩ := Int.eq_ofNat_of_zero_le h
    refine ⟨encode length k, encode?_eq_some_iff.2 ⟨length_encode _ _, ?_⟩⟩
    exact congrArg _ (value_encode_of_lt (by exact_mod_cast hlt))

end BigEndian

/-! ## Scalars at an offset -/

theorem readScalar_of_le {data : Bytes} {offset : Nat} (h : offset + scalarLength ≤ data.length) :
    readScalar data offset
      = if curve.n ≤ BigEndian.value ((data.drop offset).take scalarLength)
        then .error (.codec .scalarRange)
        else .ok (BigEndian.value ((data.drop offset).take scalarLength),
          ((offset + scalarLength : Nat) : Int)) := by
  unfold readScalar
  rw [readBytes_of_le h]
  rfl

theorem readScalar_of_lt {data : Bytes} {offset : Int}
    (h : data.length < offset + (scalarLength : Int)) :
    readScalar data offset = .error (.codec (.bytesMissing scalarLength)) := by
  unfold readScalar
  rw [readBytes_of_lt h]
  rfl

/-- What is as long as a scalar is read to its end. -/
theorem readScalar_of_length {data : Bytes} (h : data.length = scalarLength) :
    readScalar data 0
      = if curve.n ≤ BigEndian.value data then .error (.codec .scalarRange)
        else .ok (BigEndian.value data, (scalarLength : Int)) := by
  have hread : readScalar data 0 = _ := @readScalar_of_le data 0 (by omega)
  rw [hread, List.drop_zero, List.take_of_length_le h.le, Nat.zero_add]

/-- A number is written on the one string of 32 bytes that writes it. -/
theorem encodeScalar_eq_ok_iff {v : Int} {data : Bytes} :
    encodeScalar v = .ok data ↔ data.length = scalarLength ∧ (BigEndian.value data : Int) = v := by
  rw [← BigEndian.encode?_eq_some_iff]
  unfold encodeScalar
  rcases BigEndian.encode? scalarLength v with _ | written
  · simp
  · rw [Except.ok.injEq, Option.some.injEq]

theorem encodeScalar_eq_ok {v : Int} (h : 0 ≤ v ∧ v < 256 ^ scalarLength) :
    ∃ data, encodeScalar v = .ok data ∧ data.length = scalarLength
      ∧ (BigEndian.value data : Int) = v := by
  obtain ⟨data, hd⟩ := Option.isSome_iff_exists.1 (BigEndian.encode?_isSome_iff.2 h)
  have hwritten := BigEndian.encode?_eq_some_iff.1 hd
  exact ⟨data, encodeScalar_eq_ok_iff.2 hwritten, hwritten⟩

/-! ## Reads one behind the other -/

/-- The reads at an offset. -/
inductive Read
  | byte
  | word
  | bytes (length : ℕ)
  | scalar
  deriving DecidableEq

namespace Read

/-- What a read answers. -/
inductive Value
  | byte (b : UInt8)
  | word (n : ℕ)
  | bytes (data : Bytes)
  | scalar (v : Int)
  deriving DecidableEq

/-- The bytes that write a value, if it fits on those of its kind. -/
def Value.encode? : Value → Option Bytes
  | .byte b => some [b]
  | .word n => BigEndian.encode? 4 n
  | .bytes data => some data
  | .scalar v => (encodeScalar v).toOption

def width : Read → ℕ
  | .byte => 1
  | .word => 4
  | .bytes length => length
  | .scalar => scalarLength

def perform (data : Bytes) (offset : Int) : Read → Except Failure (Value × Int)
  | .byte => (readByte data offset).map (Prod.map .byte id)
  | .word => (readWord data offset).map (Prod.map .word id)
  | .bytes length => (readBytes data offset length).map (Prod.map .bytes id)
  | .scalar => (readScalar data offset).map (Prod.map .scalar id)

/-- The values of the reads, and where the last one ended. -/
def chain (data : Bytes) : List Read → Int → Except Failure (List Value × Int)
  | [], offset => .ok ([], offset)
  | read :: reads, offset => do
    let (value, next) ← read.perform data offset
    let (values, stop) ← chain data reads next
    return (value :: values, stop)

/-- Fewer bytes are left than the read takes, or they write a number that is no scalar. -/
def IsRefused (left : Bytes) (read : Read) : Prop :=
  left.length < read.width
    ∨ read = .scalar ∧ curve.n ≤ BigEndian.value (left.take scalarLength)

instance (left : Bytes) (read : Read) : Decidable (read.IsRefused left) :=
  inferInstanceAs (Decidable (_ ∨ _))

variable {data : Bytes} {read : Read} {reads : List Read} {values : List Value} {offset : ℕ}

/-! ## One read -/

theorem length_drop_lt_iff (ho : offset ≤ data.length) {n : ℕ} :
    (data.drop offset).length < n ↔ data.length < offset + n := by
  rw [List.length_drop]
  omega

/-- What is not refused is read, and the value is written as the bytes it was read from. -/
theorem perform_of_not_isRefused (ho : offset ≤ data.length)
    (h : ¬ read.IsRefused (data.drop offset)) :
    ∃ value, read.perform data offset = .ok (value, ((offset + read.width : ℕ) : Int))
      ∧ value.encode? = some ((data.drop offset).take read.width) := by
  obtain ⟨hw, hs⟩ := not_or.1 h
  have hl : ((data.drop offset).take read.width).length = read.width :=
    List.length_take_of_le (not_lt.1 hw)
  rw [length_drop_lt_iff ho, not_lt] at hw
  cases read with
  | byte =>
    refine ⟨.byte data[offset], by rw [perform, readByte_of_lt hw]; rfl, ?_⟩
    rw [List.drop_eq_getElem_cons hw]
    rfl
  | word =>
    refine ⟨_, by rw [perform, readWord_of_le hw]; rfl, ?_⟩
    exact BigEndian.encode?_eq_some_iff.2 ⟨hl, rfl⟩
  | bytes length => exact ⟨_, by rw [perform, @readBytes_of_le data offset length hw]; rfl, rfl⟩
  | scalar =>
    have hn : ¬ curve.n ≤ BigEndian.value ((data.drop offset).take scalarLength) :=
      fun hn => hs ⟨rfl, hn⟩
    refine ⟨_, by rw [perform, readScalar_of_le hw, if_neg hn]; rfl, ?_⟩
    have hwritten : encodeScalar (BigEndian.value ((data.drop offset).take scalarLength))
        = .ok ((data.drop offset).take scalarLength) := encodeScalar_eq_ok_iff.2 ⟨hl, rfl⟩
    rw [Value.encode?, hwritten]
    rfl

theorem perform_of_isRefused (ho : offset ≤ data.length) (h : read.IsRefused (data.drop offset)) :
    ∃ e, read.perform data offset = .error (.codec e) := by
  rw [IsRefused, length_drop_lt_iff ho] at h
  cases read with
  | byte =>
    have hl : data.length < offset + 1 := h.resolve_right (by simp)
    exact ⟨_, by rw [perform, readByte_of_le (by omega)]; rfl⟩
  | word =>
    have hl : data.length < offset + 4 := h.resolve_right (by simp)
    exact ⟨_, by rw [perform, readWord_of_lt (by omega)]; rfl⟩
  | bytes length =>
    have hl : data.length < offset + length := h.resolve_right (by simp)
    exact ⟨_, by rw [perform, readBytes_of_lt (by omega)]; rfl⟩
  | scalar =>
    by_cases hl : data.length < offset + scalarLength
    · exact ⟨_, by rw [perform, readScalar_of_lt (by omega)]; rfl⟩
    · have hn := (h.resolve_left hl).2
      exact ⟨_, by rw [perform, readScalar_of_le (not_lt.1 hl), if_pos hn]; rfl⟩

theorem perform_eq_ok {value : Value} {next : Int} (ho : offset ≤ data.length)
    (h : read.perform data offset = .ok (value, next)) :
    ¬ read.IsRefused (data.drop offset)
      ∧ next = ((offset + read.width : ℕ) : Int) ∧ offset + read.width ≤ data.length
      ∧ value.encode? = some ((data.drop offset).take read.width) := by
  have hr : ¬ read.IsRefused (data.drop offset) := by
    intro hr
    obtain ⟨e, he⟩ := perform_of_isRefused ho hr
    rw [he] at h
    cases h
  have hw : offset + read.width ≤ data.length :=
    not_lt.1 fun hw => hr (.inl ((length_drop_lt_iff ho).2 hw))
  obtain ⟨value', hv, hpart⟩ := perform_of_not_isRefused ho hr
  obtain ⟨rfl, rfl⟩ := Prod.mk.inj (Except.ok.inj (hv.symm.trans h))
  exact ⟨hr, rfl, hw, hpart⟩

theorem perform_eq_error {e : Failure} (ho : offset ≤ data.length)
    (h : read.perform data offset = .error e) :
    read.IsRefused (data.drop offset) ∧ ∃ c, e = .codec c := by
  by_cases hr : read.IsRefused (data.drop offset)
  · obtain ⟨c, hc⟩ := perform_of_isRefused ho hr
    exact ⟨hr, c, Except.error.inj (h.symm.trans hc)⟩
  · obtain ⟨value, hv, -⟩ := perform_of_not_isRefused ho hr
    rw [hv] at h
    cases h

/-! ## Chains -/

theorem chain_cons_eq_ok_iff {start stop : Int} :
    chain data (read :: reads) start = .ok (values, stop)
      ↔ ∃ value next behind, read.perform data start = .ok (value, next)
        ∧ chain data reads next = .ok (behind, stop) ∧ values = value :: behind := by
  rw [chain, bind_eq_ok_iff]
  constructor
  · rintro ⟨⟨value, next⟩, hv, h⟩
    obtain ⟨⟨behind, stop'⟩, hc, h⟩ := bind_eq_ok_iff.1 h
    obtain ⟨rfl, rfl⟩ := Prod.mk.inj (Except.ok.inj h)
    exact ⟨value, next, behind, hv, hc, rfl⟩
  · rintro ⟨value, next, behind, hv, hc, rfl⟩
    exact ⟨(value, next), hv, bind_eq_ok_iff.2 ⟨(behind, stop), hc, rfl⟩⟩

theorem chain_cons_eq_error {start : Int} {e : Failure}
    (h : chain data (read :: reads) start = .error e) :
    read.perform data start = .error e
      ∨ ∃ value next, read.perform data start = .ok (value, next)
        ∧ chain data reads next = .error e := by
  rw [chain, bind_eq_error_iff] at h
  refine h.imp_right ?_
  rintro ⟨⟨value, next⟩, hv, h⟩
  rcases bind_eq_error_iff.1 h with hc | ⟨_, _, h⟩
  · exact ⟨value, next, hv, hc⟩
  · cases h

/-- The values written are in as many parts as there are reads, each as long as its read takes, and
together they are what stands between the start and the end of the chain. -/
theorem chain_eq_ok {stop : Int} (ho : offset ≤ data.length)
    (h : chain data reads offset = .ok (values, stop)) :
    ∃ last : ℕ, stop = last ∧ last ≤ data.length
      ∧ ∃ parts, values.mapM Value.encode? = some parts
        ∧ parts.map List.length = reads.map width
        ∧ data.take last = data.take offset ++ parts.flatten := by
  -- By induction on the reads, from any place in the string: each adds one part.
  induction reads generalizing offset values with
  | nil =>
    obtain ⟨rfl, rfl⟩ := Prod.mk.inj (Except.ok.inj h)
    exact ⟨offset, rfl, ho, [], rfl, rfl, (List.append_nil _).symm⟩
  | cons read reads ih =>
    obtain ⟨value, next, behind, hv, hc, rfl⟩ := chain_cons_eq_ok_iff.1 h
    obtain ⟨-, rfl, hw, hpart⟩ := perform_eq_ok ho hv
    obtain ⟨last, hlast, hle, parts, hparts, hlengths, htake⟩ := ih hw hc
    refine ⟨last, hlast, hle, (data.drop offset).take read.width :: parts, ?_, ?_, ?_⟩
    · rw [List.mapM_cons, hpart, hparts]
      rfl
    · rw [List.map_cons, List.map_cons, hlengths, List.length_take_of_le]
      exact not_lt.1 (mt (length_drop_lt_iff ho).1 (not_lt.2 hw))
    · rw [htake, List.take_add, List.flatten_cons, List.append_assoc]

/-- A chain breaks at a read that is refused, after those before it have succeeded. -/
theorem chain_eq_error {e : Failure} (ho : offset ≤ data.length)
    (h : chain data reads offset = .error e) :
    ∃ done read rest values, ∃ last : ℕ, reads = done ++ read :: rest
      ∧ chain data done offset = .ok (values, (last : Int))
      ∧ read.IsRefused (data.drop last) ∧ read.perform data last = .error e
      ∧ ∃ c, e = .codec c := by
  induction reads generalizing offset with
  | nil => cases h
  | cons read reads ih =>
    rcases chain_cons_eq_error h with he | ⟨value, next, hv, hc⟩
    · obtain ⟨hr, hcodec⟩ := perform_eq_error ho he
      exact ⟨[], read, reads, [], offset, rfl, rfl, hr, he, hcodec⟩
    · obtain ⟨-, rfl, hw, -⟩ := perform_eq_ok ho hv
      obtain ⟨done, refused, rest, values, last, rfl, hdone, hrefused⟩ := ih hw hc
      have hdone' : chain data (read :: done) offset = .ok (value :: values, (last : Int)) :=
        chain_cons_eq_ok_iff.2 ⟨value, _, values, hv, hdone, rfl⟩
      exact ⟨read :: done, refused, rest, value :: values, last, rfl, hdone', hrefused⟩

/-- As long as the reads succeed, what they read is the string up to where they are, never past its
end, and the next read is refused exactly if too few bytes are left for it or they write no scalar.
A chain breaks only at such a read, and then the string is reported as not in its format. -/
theorem chain_partitions (data : Bytes) (reads : List Read) :
    (∀ values stop, chain data reads 0 = .ok (values, stop) →
      ∃ last : ℕ, stop = last ∧ last ≤ data.length
        ∧ (∃ parts, values.mapM Value.encode? = some parts
          ∧ parts.map List.length = reads.map width ∧ parts.flatten = data.take last)
        ∧ ∀ read : Read,
          ((∃ e, read.perform data stop = .error (.codec e)) ↔ read.IsRefused (data.drop last))
          ∧ ((∃ value next, read.perform data stop = .ok (value, next))
            ↔ ¬ read.IsRefused (data.drop last)))
    ∧ ∀ e, chain data reads 0 = .error e →
      ∃ done read rest values, ∃ last : ℕ, reads = done ++ read :: rest
        ∧ chain data done 0 = .ok (values, (last : Int))
        ∧ read.IsRefused (data.drop last) ∧ read.perform data last = .error e
        ∧ ∃ c, e = .codec c := by
  have hstart : 0 ≤ data.length := Nat.zero_le _
  refine ⟨fun values stop h => ?_, fun e => chain_eq_error hstart⟩
  obtain ⟨last, rfl, hle, parts, hparts, hlengths, htake⟩ := chain_eq_ok hstart h
  refine ⟨last, rfl, hle, ⟨parts, hparts, hlengths, htake.symm⟩, fun read => ⟨⟨?_, ?_⟩, ?_, ?_⟩⟩
  · rintro ⟨e, he⟩
    exact (perform_eq_error hle he).1
  · exact perform_of_isRefused hle
  · rintro ⟨value, next, hv⟩
    exact (perform_eq_ok hle hv).1
  · intro hr
    obtain ⟨value, hv, -⟩ := perform_of_not_isRefused hle hr
    exact ⟨value, _, hv⟩

/-- A byte, a word, two bytes and a scalar, and behind them 32 bytes that write no scalar. -/
def sample : Bytes :=
  [7, 0, 0, 1, 0, 9, 9] ++ BigEndian.encode scalarLength 5 ++ List.replicate scalarLength 255

/-- What is left is read as 32 bytes, but not as 33 and not as a scalar. -/
theorem chain_partitions_sample :
    chain sample [.byte, .word, .bytes 2, .scalar] 0
      = .ok ([.byte 7, .word 256, .bytes [9, 9], .scalar 5], 39)
    ∧ (∃ parts, [Value.byte 7, .word 256, .bytes [9, 9], .scalar 5].mapM Value.encode? = some parts
      ∧ parts.map List.length = [1, 4, 2, 32] ∧ parts.flatten = sample.take 39)
    ∧ (∃ value next, (Read.bytes 32).perform sample 39 = .ok (value, next))
    ∧ (∃ e, (Read.bytes 33).perform sample 39 = .error (.codec e))
    ∧ (∃ e, Read.scalar.perform sample 39 = .error (.codec e))
    ∧ chain sample [.bytes 39, .scalar, .byte] 0 = .error (.codec .scalarRange)
    ∧ ∃ done read rest, [.bytes 39, .scalar, .byte] = done ++ read :: rest
      ∧ ∃ values, ∃ last : ℕ, chain sample done 0 = .ok (values, (last : Int))
        ∧ read.IsRefused (sample.drop last) := by
  have h : chain sample [.byte, .word, .bytes 2, .scalar] 0
      = .ok ([.byte 7, .word 256, .bytes [9, 9], .scalar 5], 39) := by rfl
  have hbroken : chain sample [.bytes 39, .scalar, .byte] 0 = .error (.codec .scalarRange) := by rfl
  obtain ⟨last, hlast, -, hparts, hnext⟩ := (chain_partitions sample _).1 _ _ h
  obtain rfl : last = 39 := by omega
  obtain ⟨done, read, rest, values, last, hsplit, hdone, hrefused, -⟩ :=
    (chain_partitions sample _).2 _ hbroken
  refine ⟨h, hparts, (hnext _).2.2 ?_, (hnext _).1.2 ?_, (hnext _).1.2 ?_, hbroken,
    done, read, rest, hsplit, values, last, hdone, hrefused⟩
  · decide
  · decide
  · decide

end Read

end KeyRecovery
