import KeyRecovery.Ethereum.Message

/-!
# What is hashed of a message tells the message

Nothing marks where the length ends and the message begins, and a message may begin with digits. But
a longer message has no fewer digits in its length (`length_decimal_le`), so more bytes are hashed
of it. How many bytes are hashed thus tells how long the message is, and then where it begins
(`flatten_parts_eq_iff`). A text is hashed as the bytes its characters are encoded on, one character
after the other (`toList_toUTF8`), and these are what is counted.
-/

namespace KeyRecovery

namespace Message

/-! ## Lengths in decimal -/

/-- The digits of `n` in base ten as ASCII characters, with no `0` in front of another digit. -/
structure IsNumeral (n : Nat) (data : Bytes) : Prop where
  value_eq : data.foldl (fun m b => 10 * m + (b.toNat - 48)) 0 = n
  isDigit : ∀ b ∈ data, 48 ≤ b.toNat ∧ b.toNat ≤ 57
  ne_nil : data ≠ []
  eq_singleton : data.head? = some 48 → data = [48]

theorem toNat_digitChar : ∀ n < 10, (Nat.digitChar n).toNat = 48 + n := by decide

theorem decimal_of_lt {n : Nat} (h : n < 10) : decimal n = [UInt8.ofNat (48 + n)] := by
  rw [decimal, Nat.toDigits_of_lt_base h, List.map_singleton, toNat_digitChar n h]

theorem decimal_of_le {n : Nat} (h : 10 ≤ n) :
    decimal n = decimal (n / 10) ++ [UInt8.ofNat (48 + n % 10)] := by
  have hn : n % 10 < 10 := Nat.mod_lt n (by decide)
  rw [decimal, Nat.toDigits_of_base_le (by decide) h, List.map_append, List.map_singleton,
    toNat_digitChar _ hn, decimal]

theorem isNumeral_decimal (n : Nat) : IsNumeral n (decimal n) := by
  have hdigit : ∀ m < 10, (UInt8.ofNat (48 + m)).toNat = 48 + m := by decide
  induction n using Nat.strongRecOn with
  | ind n ih =>
    by_cases hn : n < 10
    · rw [decimal_of_lt hn]
      refine ⟨?_, fun b hb => ?_, by simp, fun h => ?_⟩
      · simp only [List.foldl_cons, List.foldl_nil, hdigit n hn]
        omega
      · rw [List.mem_singleton.1 hb, hdigit n hn]
        omega
      · rw [Option.some.inj h]
    · -- The last digit comes behind those of a tenth, which is not `0`.
      obtain ⟨hv, hd, hne, hs⟩ := ih (n / 10) (by omega)
      have hlast := hdigit (n % 10) (Nat.mod_lt n (by decide))
      rw [decimal_of_le (Nat.not_lt.1 hn)]
      refine ⟨?_, fun b hb => ?_, by simp, fun h => ?_⟩
      · rw [List.foldl_append, hv]
        simp only [List.foldl_cons, List.foldl_nil, hlast]
        omega
      · rcases List.mem_append.1 hb with hb | hb
        · exact hd b hb
        · rw [List.mem_singleton.1 hb, hlast]
          omega
      · obtain ⟨b, rest, hb⟩ := List.exists_cons_of_ne_nil hne
        rw [hb] at h hs hv
        rw [hs h] at hv
        simp at hv
        omega

/-- A larger number has no fewer digits. -/
theorem length_decimal_le {m n : Nat} (h : m ≤ n) : (decimal m).length ≤ (decimal n).length := by
  have hn : n < 10 ^ (Nat.toDigits 10 n).length :=
    (Nat.length_toDigits_le_iff (by decide) (Nat.length_toDigits_pos)).1 (Nat.le_refl _)
  rw [decimal, decimal, List.length_map, List.length_map]
  exact (Nat.length_toDigits_le_iff (by decide) (Nat.length_toDigits_pos)).2
    (Nat.lt_of_le_of_lt h hn)

/-! ## Messages -/

theorem length_flatten_parts (message : Bytes) :
    (parts message).flatten.length
      = mark.length + (decimal message.length).length + message.length := by
  simp only [parts, List.flatten_cons, List.flatten_nil, List.append_nil, List.length_append]
  omega

/-- More bytes are hashed of a longer message. -/
theorem length_flatten_parts_lt {message other : Bytes} (h : message.length < other.length) :
    (parts message).flatten.length < (parts other).flatten.length := by
  have hdigits := length_decimal_le (Nat.le_of_lt h)
  rw [length_flatten_parts, length_flatten_parts]
  omega

theorem flatten_parts_eq_iff {message other : Bytes} :
    (parts message).flatten = (parts other).flatten ↔ message = other := by
  refine ⟨fun h => ?_, fun h => by rw [h]⟩
  have hlength : message.length = other.length := by
    rcases Nat.lt_trichotomy message.length other.length with hlt | heq | hlt
    · exact absurd (congrArg List.length h) (Nat.ne_of_lt (length_flatten_parts_lt hlt))
    · exact heq
    · exact absurd (congrArg List.length h.symm) (Nat.ne_of_lt (length_flatten_parts_lt hlt))
  simp only [parts, hlength, List.flatten_cons, List.flatten_nil, List.append_nil] at h
  exact List.append_cancel_left (List.append_cancel_left h)

/-! ## Texts -/

/-- The bytes that the characters of a text are encoded on. -/
def utf8 (text : String) : Bytes := text.toList.flatMap String.utf8EncodeChar

theorem toList_loop (data : ByteArray) (i : Nat) (seen : Bytes) :
    ByteArray.toList.loop data i seen = seen.reverse ++ data.data.toList.drop i := by
  induction i, seen using ByteArray.toList.loop.induct data with
  | case1 i seen hi ih =>
    have hi' : i < data.data.toList.length := hi
    have hget : data.get! i = data.data.toList[i] := getElem!_pos data.data i hi
    rw [ByteArray.toList.loop, if_pos hi, ih, List.drop_eq_getElem_cons hi', hget,
      List.reverse_cons, List.append_assoc, List.singleton_append]
  | case2 i seen hi =>
    rw [ByteArray.toList.loop, if_neg hi, List.drop_of_length_le (Nat.not_lt.1 hi),
      List.append_nil]

theorem toList_toUTF8 (text : String) : text.toUTF8.toList = utf8 text := by
  have hdata : text.toUTF8.data.toList = utf8 text := by
    rw [String.toUTF8_eq_toByteArray, ← String.utf8Encode_toList]
    exact List.toList_data_toByteArray
  rw [ByteArray.toList, toList_loop, hdata]
  rfl

theorem length_utf8 (text : String) : (utf8 text).length = text.utf8ByteSize := by
  rw [← toList_toUTF8, ByteArray.toList, toList_loop]
  rfl

/-! ## Digests -/

/-- What is hashed, with the mark and the length spelled out. -/
theorem exists_flatten_parts_eq (message : Bytes) : ∃ length, IsNumeral message.length length
    ∧ (parts message).flatten
      = 0x19 :: utf8 "Ethereum Signed Message:\n" ++ length ++ message := by
  refine ⟨_, isNumeral_decimal _, ?_⟩
  rw [parts, mark, toList_toUTF8]
  simp only [List.flatten_cons, List.flatten_nil, List.append_nil, List.append_assoc]

/-- Different byte strings that are hashed alike. -/
def IsCollision (hash : Bytes → Bytes) (a b : Bytes) : Prop := a ≠ b ∧ hash a = hash b

theorem digest_eq_iff [Keccak] {message other : Bytes} :
    digest message = digest other ↔ message = other
      ∨ IsCollision Keccak.digest (parts message).flatten (parts other).flatten := by
  rw [digest_eq, digest_eq]
  constructor
  · intro h
    by_cases heq : message = other
    · exact .inl heq
    · exact .inr ⟨mt flatten_parts_eq_iff.1 heq, h⟩
  · rintro (rfl | ⟨-, h⟩)
    · rfl
    · exact h

/-- The digest is the hash of the mark, the length and the message. What is hashed is the same for
no two messages, so only a collision of the hash gives two of them one digest. The digest of a text
is that of its encoding, whose bytes are counted. -/
theorem digest_unambiguous [Keccak] (message other : Bytes) :
    (∃ length, IsNumeral message.length length
      ∧ (parts message).flatten = 0x19 :: utf8 "Ethereum Signed Message:\n" ++ length ++ message
      ∧ digest message
        = Keccak.digest (0x19 :: utf8 "Ethereum Signed Message:\n" ++ length ++ message))
    ∧ ((parts message).flatten = (parts other).flatten ↔ message = other)
    ∧ (digest message = digest other ↔ message = other
      ∨ IsCollision Keccak.digest (parts message).flatten (parts other).flatten)
    ∧ ∀ text, digestText text = digest (utf8 text)
      ∧ digestText text = Keccak.digest (mark ++ decimal text.utf8ByteSize ++ utf8 text) := by
  obtain ⟨length, hl, hparts⟩ := exists_flatten_parts_eq message
  refine ⟨⟨length, hl, hparts, by rw [digest_eq, hparts]⟩, flatten_parts_eq_iff, digest_eq_iff,
    fun text => ?_⟩
  have htext : digestText text = digest (utf8 text) := by rw [digestText, toList_toUTF8]
  refine ⟨htext, ?_⟩
  rw [htext, digest_eq, parts, length_utf8]
  simp only [List.flatten_cons, List.flatten_nil, List.append_nil, List.append_assoc]

end Message

end KeyRecovery
