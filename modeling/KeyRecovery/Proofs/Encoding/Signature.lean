import KeyRecovery.Proofs.Encoding.Reader
import KeyRecovery.Proofs.Secp256k1.Order

/-!
# What is read of a signature is what stands at the places of its fields

`parse_of_isLength` is the whole of `parse` on a signature of one of its two lengths, errors
included. Writing a signature with scalars in range puts its fields at these places
(`encode_eq_ok`).

Reading takes `27` from an indicator that is at least as large, and takes it once. Writing leaves
the indicator as it is, so reading what was written takes `27` again where the first reading left
that much. The scalars come back in any case (`exists_parse_encode`), and the signature does exactly
if the byte it was read from is below `54`.

The byte strings that can be read are told by their length and by the two numbers in front
(`IsFormat`). What is read of one is written with the same bytes in front and a byte for the
indicator, whether that was left out, had `27` added or not (`encode_fields`). Writing loses nothing
(`encode_injective`), so this form is the same for two byte strings exactly if the same signature is
read of them.
-/

namespace KeyRecovery

open Ecdsa (InRange)
open Secp256k1 (curve)

namespace Signature

variable {data : Bytes} {sig sig' : Signature}

/-- What stands at the places of the three fields. -/
def fields (data : Bytes) : Signature :=
  ⟨BigEndian.value (data.take scalarLength),
    BigEndian.value ((data.drop scalarLength).take scalarLength),
    indicator (data.getD (scalarLength + scalarLength) 0)⟩

theorem fields_append {r s : Bytes} (hr : r.length = scalarLength) (hs : s.length = scalarLength)
    (v : UInt8) :
    fields (r ++ s ++ [v]) = ⟨BigEndian.value r, BigEndian.value s, indicator v⟩ := by
  have hv : (r ++ s ++ [v]).getD (scalarLength + scalarLength) 0 = v := by
    rw [List.getD_eq_getElem?_getD, List.getElem?_append_right (by simp [hr, hs])]
    simp [hr, hs]
  unfold fields
  rw [hv, List.append_assoc, List.take_left' hr, List.drop_left' hr, List.take_left' hs]

/-- The length of a signature without its indicator, or with it. -/
def IsLength (length : Nat) : Prop := length = signatureLength - 1 ∨ length = signatureLength

theorem parse_of_not_isLength (h : ¬ IsLength data.length) :
    parse data = .error (.codec (.signatureLength data.length)) := by
  unfold parse
  rw [if_pos (not_or.1 h)]
  rfl

theorem parse_of_isLength (h : IsLength data.length) :
    parse data
      = if curve.n ≤ (fields data).r ∨ curve.n ≤ (fields data).s then .error (.codec .scalarRange)
        else if (fields data).r = 0 ∨ (fields data).s = 0 then .error (.codec .scalarZero)
        else .ok (fields data) := by
  have hl : scalarLength + scalarLength ≤ data.length := by
    rcases h with h | h <;> rw [h] <;> decide
  have hr : readScalar data 0 = if curve.n ≤ (fields data).r then .error (.codec .scalarRange)
      else .ok ((fields data).r, (scalarLength : Int)) :=
    @readScalar_of_le data 0 (by omega)
  have hs : readScalar data (scalarLength : Int)
      = if curve.n ≤ (fields data).s then .error (.codec .scalarRange)
        else .ok ((fields data).s, ((scalarLength + scalarLength : ℕ) : Int)) :=
    readScalar_of_le hl
  unfold parse
  rw [if_neg (not_and_or.2 (h.imp not_not_intro not_not_intro)), hr]
  by_cases hrn : curve.n ≤ (fields data).r
  · rw [if_pos hrn, if_pos (.inl hrn)]
    rfl
  rw [if_neg hrn]
  simp only [ok_bind, hs]
  by_cases hsn : curve.n ≤ (fields data).s
  · rw [if_pos hsn, if_pos (.inr hsn)]
    rfl
  rw [if_neg hsn, if_neg (not_or.2 ⟨hrn, hsn⟩)]
  simp only [ok_bind]
  by_cases hz : (fields data).r = 0 ∨ (fields data).s = 0
  · rw [if_pos hz, if_pos hz]
    rfl
  rw [if_neg hz, if_neg hz]
  by_cases hb : scalarLength + scalarLength < data.length
  · have hv : fields data
        = ⟨(fields data).r, (fields data).s, indicator data[scalarLength + scalarLength]⟩ := by
      rw [fields, List.getD_eq_getElem?_getD, List.getElem?_eq_getElem hb, Option.getD_some]
    rw [if_pos (Int.ofNat_lt.2 hb), readByte_of_lt hb, hv]
    rfl
  · have hv : fields data = ⟨(fields data).r, (fields data).s, 0⟩ := by
      rw [fields, List.getD_eq_getElem?_getD, List.getElem?_eq_none (not_lt.1 hb)]
      rfl
    rw [if_neg (mt Int.ofNat_lt.1 hb), hv]
    rfl

/-- The signatures that can be read are those of one of the two lengths with both scalars in
range. -/
theorem parse_eq_ok_iff :
    parse data = .ok sig ↔ IsLength data.length
      ∧ InRange (fields data).r ∧ InRange (fields data).s ∧ sig = fields data := by
  have hr : 0 ≤ (fields data).r := Int.natCast_nonneg _
  have hs : 0 ≤ (fields data).s := Int.natCast_nonneg _
  by_cases h : IsLength data.length
  · rw [parse_of_isLength h, eq_true h, true_and]
    unfold InRange
    split_ifs with h1 h2
    · refine ⟨fun h => by simp at h, fun h => ?_⟩
      omega
    · refine ⟨fun h => by simp at h, fun h => ?_⟩
      omega
    · rw [Except.ok.injEq]
      refine ⟨fun h => ⟨?_, ?_, h.symm⟩, fun h => h.2.2.symm⟩ <;> omega
  · rw [parse_of_not_isLength h]
    exact ⟨fun hp => by simp at hp, fun hp => absurd hp.1 h⟩

/-- What cannot be read is not in the format. -/
theorem parse_eq_error
    (h : ¬ (IsLength data.length ∧ InRange (fields data).r ∧ InRange (fields data).s)) :
    ∃ e, parse data = .error (.codec e) := by
  by_cases hl : IsLength data.length
  · rcases hp : parse data with e | sig
    · rw [parse_of_isLength hl] at hp
      split_ifs at hp
      all_goals exact ⟨_, hp.symm⟩
    · obtain ⟨-, hr, hs, -⟩ := parse_eq_ok_iff.1 hp
      exact absurd ⟨hl, hr, hs⟩ h
  · exact ⟨_, parse_of_not_isLength hl⟩

theorem indicator_nonneg (b : UInt8) : 0 ≤ indicator b := by
  unfold indicator
  split_ifs <;> omega

theorem indicator_lt (b : UInt8) : indicator b < 256 := by
  have := b.toNat_lt
  unfold indicator
  split_ifs <;> omega

theorem indicator_ofNat {v : Int} (hv : 0 ≤ v ∧ v < 256) :
    indicator (UInt8.ofNat v.toNat) = if 27 ≤ v then v - 27 else v := by
  have hb : (UInt8.ofNat v.toNat).toNat = v.toNat := by
    rw [UInt8.toNat_ofNat']
    exact Nat.mod_eq_of_lt (by omega)
  unfold indicator
  rw [hb]
  split_ifs <;> omega

theorem encode_eq_ok (hr : InRange sig.r) (hs : InRange sig.s) (hv : 0 ≤ sig.v ∧ sig.v < 256) :
    ∃ data, encode sig = .ok data ∧ data.length = signatureLength
      ∧ fields data = ⟨sig.r, sig.s, if 27 ≤ sig.v then sig.v - 27 else sig.v⟩ := by
  obtain ⟨r, hre, hrl, hrv⟩ := encodeScalar_eq_ok hr.fits
  obtain ⟨s, hse, hsl, hsv⟩ := encodeScalar_eq_ok hs.fits
  refine ⟨r ++ s ++ [UInt8.ofNat sig.v.toNat], ?_, ?_, ?_⟩
  · unfold encode
    rw [hre, ok_bind, hse, ok_bind, if_pos hv]
    rfl
  · simp [hrl, hsl]
  · rw [fields_append hrl hsl, indicator_ofNat hv, hrv, hsv]

/-- Below `27` the indicator is read as it was written. -/
theorem fields_encode (hr : InRange sig.r) (hs : InRange sig.s) (hv : 0 ≤ sig.v ∧ sig.v < 27) :
    ∃ data, encode sig = .ok data ∧ data.length = signatureLength ∧ fields data = sig := by
  obtain ⟨data, he, hl, hf⟩ := encode_eq_ok hr hs ⟨hv.1, by omega⟩
  rw [if_neg (by omega)] at hf
  exact ⟨data, he, hl, hf⟩

/-! ## Writing and reading again -/

/-- An indicator from `54` on is read as one that reading would change again. -/
theorem indicator_lt_iff (b : UInt8) : indicator b < 27 ↔ b.toNat < 54 := by
  unfold indicator
  split_ifs <;> omega

/-- What can be read can be written and read again, with the same scalars. -/
theorem exists_parse_encode (h : parse data = .ok sig) :
    ∃ written, encode sig = .ok written
      ∧ parse written = .ok ⟨sig.r, sig.s, if 27 ≤ sig.v then sig.v - 27 else sig.v⟩ := by
  obtain ⟨-, hr, hs, rfl⟩ := parse_eq_ok_iff.1 h
  obtain ⟨written, he, hl, hf⟩ := encode_eq_ok hr hs ⟨indicator_nonneg _, indicator_lt _⟩
  refine ⟨written, he, ?_⟩
  rw [← hf, parse_eq_ok_iff]
  refine ⟨.inr hl, ?_, ?_, rfl⟩
  · rwa [hf]
  · rwa [hf]

/-- A signature that was read comes back the same exactly if its indicator was left out or its byte
was below `54`. -/
theorem parse_encode_eq_self_iff (h : parse data = .ok sig) :
    ∃ written again, encode sig = .ok written ∧ parse written = .ok again
      ∧ again.r = sig.r ∧ again.s = sig.s
      ∧ again.v = (if 27 ≤ sig.v then sig.v - 27 else sig.v)
      ∧ (again = sig ↔ (data.getD (scalarLength + scalarLength) 0).toNat < 54) := by
  obtain ⟨written, he, hp⟩ := exists_parse_encode h
  refine ⟨written, _, he, hp, rfl, rfl, rfl, ?_⟩
  obtain ⟨-, -, -, rfl⟩ := parse_eq_ok_iff.1 h
  have hv : (fields data).v = indicator (data.getD (scalarLength + scalarLength) 0) := rfl
  rw [← indicator_lt_iff, ← hv, mk.injEq]
  split_ifs <;> simp <;> omega

/-- Both scalars `1`, and this byte for the indicator. -/
def ofOnes (b : UInt8) : Bytes :=
  BigEndian.encode scalarLength 1 ++ BigEndian.encode scalarLength 1 ++ [b]

/-- The byte `54` is read as `27`, which is written as it is and read as `0`. -/
theorem parse_encode_fiftyFour :
    parse (ofOnes 54) = .ok ⟨1, 1, 27⟩ ∧ encode ⟨1, 1, 27⟩ = .ok (ofOnes 27)
      ∧ parse (ofOnes 27) = .ok ⟨1, 1, 0⟩ ∧ parse (ofOnes 27) ≠ parse (ofOnes 54) := by
  have h54 : parse (ofOnes 54) = .ok ⟨1, 1, 27⟩ := rfl
  have h27 : parse (ofOnes 27) = .ok ⟨1, 1, 0⟩ := rfl
  refine ⟨h54, rfl, h27, ?_⟩
  rw [h54, h27]
  simp

theorem parse_encode_fiftyThree :
    parse (ofOnes 53) = .ok ⟨1, 1, 26⟩
      ∧ ∃ written, encode ⟨1, 1, 26⟩ = .ok written ∧ parse written = .ok ⟨1, 1, 26⟩ := by
  have h : parse (ofOnes 53) = .ok ⟨1, 1, 26⟩ := rfl
  obtain ⟨written, again, he, hp, -, -, -, hself⟩ := parse_encode_eq_self_iff h
  refine ⟨h, written, he, ?_⟩
  rw [hp, hself.2 (by decide)]

/-! ## The canonical form -/

/-- Of one of the two lengths, with two numbers in range in front. -/
def IsFormat (data : Bytes) : Prop :=
  IsLength data.length ∧ InRange (BigEndian.value (data.take scalarLength))
    ∧ InRange (BigEndian.value ((data.drop scalarLength).take scalarLength))

instance (data : Bytes) : Decidable (IsFormat data) :=
  inferInstanceAs (Decidable ((_ = _ ∨ _ = _) ∧ _ ∧ _))

/-- The byte behind the two scalars, less `27` if it is at least as large; `0` if there is none. -/
def indicatorByte (data : Bytes) : UInt8 :=
  match data[scalarLength + scalarLength]? with
  | none => 0
  | some b => if 27 ≤ b then b - 27 else b

/-- The two scalars as they stand, and a byte for the indicator. -/
def canonical (data : Bytes) : Bytes :=
  data.take (scalarLength + scalarLength) ++ [indicatorByte data]

theorem exists_of_encode (h : encode sig = .ok data) :
    ∃ r s : Bytes, encodeScalar sig.r = .ok r ∧ encodeScalar sig.s = .ok s
      ∧ (0 ≤ sig.v ∧ sig.v < 256) ∧ data = r ++ s ++ [UInt8.ofNat sig.v.toNat] := by
  unfold encode at h
  obtain ⟨r, hr, h⟩ := bind_eq_ok_iff.1 h
  obtain ⟨s, hs, h⟩ := bind_eq_ok_iff.1 h
  split_ifs at h with hv
  exact ⟨r, s, hr, hs, hv, (Except.ok.inj h).symm⟩

/-- The fields stand at the same places in all that is written. -/
theorem encode_injective (h : encode sig = .ok data) (h' : encode sig' = .ok data) :
    sig = sig' := by
  obtain ⟨r, s, hr, hs, hv, rfl⟩ := exists_of_encode h
  obtain ⟨r', s', hr', hs', hv', he⟩ := exists_of_encode h'
  rw [encodeScalar_eq_ok_iff] at hr hs hr' hs'
  obtain ⟨hrs, hb⟩ := List.append_inj' he rfl
  obtain ⟨rfl, rfl⟩ := List.append_inj hrs (hr.1.trans hr'.1.symm)
  have hnat : sig.v.toNat = sig'.v.toNat := by
    have hmod := congrArg UInt8.toNat (List.singleton_inj.1 hb)
    rw [UInt8.toNat_ofNat', UInt8.toNat_ofNat'] at hmod
    omega
  obtain ⟨_, _, v⟩ := sig
  obtain ⟨_, _, v'⟩ := sig'
  simp only at hr hs hr' hs' hv hv' hnat
  rw [mk.injEq]
  exact ⟨hr.2.symm.trans hr'.2, hs.2.symm.trans hs'.2, by omega⟩

theorem ofNat_indicator (b : UInt8) :
    UInt8.ofNat (indicator b).toNat = if 27 ≤ b then b - 27 else b := by
  have hle : 27 ≤ b ↔ 27 ≤ b.toNat := UInt8.le_iff_toNat_le
  unfold indicator
  by_cases h : 27 ≤ b.toNat
  · have hsub : (b - 27).toNat = b.toNat - 27 := UInt8.toNat_sub_of_le b 27 (hle.2 h)
    have hnat : ((b.toNat : Int) - 27).toNat = (b - 27).toNat := by omega
    rw [if_pos h, if_pos (hle.2 h), hnat, UInt8.ofNat_toNat]
  · rw [if_neg h, if_neg (mt hle.1 h), Int.toNat_natCast, UInt8.ofNat_toNat]

theorem ofNat_fields_v : UInt8.ofNat (fields data).v.toNat = indicatorByte data := by
  unfold fields indicatorByte
  rw [List.getD_eq_getElem?_getD]
  rcases data[scalarLength + scalarLength]? with _ | b
  · rfl
  · exact ofNat_indicator b

theorem parse_eq_ok_iff_isFormat :
    parse data = .ok sig ↔ IsFormat data ∧ sig = fields data := by
  rw [parse_eq_ok_iff, IsFormat, and_assoc, and_assoc]
  rfl

/-- What is read is written in the canonical form. -/
theorem encode_fields (h : IsFormat data) : encode (fields data) = .ok (canonical data) := by
  obtain ⟨hl, hr, hs⟩ := h
  have hlength : scalarLength + scalarLength ≤ data.length := by
    rcases hl with hl | hl <;> rw [hl] <;> decide
  have hr : encodeScalar (fields data).r = .ok (data.take scalarLength) :=
    encodeScalar_eq_ok_iff.2 ⟨List.length_take_of_le (by omega), rfl⟩
  have hs : encodeScalar (fields data).s = .ok ((data.drop scalarLength).take scalarLength) := by
    refine encodeScalar_eq_ok_iff.2 ⟨List.length_take_of_le ?_, rfl⟩
    rw [List.length_drop]
    omega
  have hv : 0 ≤ (fields data).v ∧ (fields data).v < 256 := ⟨indicator_nonneg _, indicator_lt _⟩
  unfold encode canonical
  rw [hr, hs, ok_bind, ok_bind, if_pos hv, ofNat_fields_v, List.take_add]
  rfl

/-- Exactly the byte strings in the format are read, and written in their canonical form; all others
are refused as not in it. The same is read of two exactly if they have one canonical form. -/
theorem parse_canonical (data : Bytes) :
    ((∃ sig, parse data = .ok sig) ↔ IsFormat data)
    ∧ (∀ sig, parse data = .ok sig → encode sig = .ok (canonical data))
    ∧ (¬ IsFormat data → ∃ e, parse data = .error (.codec e))
    ∧ ∀ other sig sig', parse data = .ok sig → parse other = .ok sig' →
      (sig = sig' ↔ canonical data = canonical other) := by
  have hwritten : ∀ {data sig}, parse data = .ok sig → encode sig = .ok (canonical data) := by
    intro data sig h
    obtain ⟨hf, rfl⟩ := parse_eq_ok_iff_isFormat.1 h
    exact encode_fields hf
  refine ⟨⟨?_, ?_⟩, fun sig => hwritten, parse_eq_error, ?_⟩
  · rintro ⟨sig, h⟩
    exact (parse_eq_ok_iff_isFormat.1 h).1
  · intro h
    exact ⟨fields data, parse_eq_ok_iff_isFormat.2 ⟨h, rfl⟩⟩
  · intro other sig sig' h h'
    have hsig := hwritten h
    have hsig' := hwritten h'
    constructor
    · rintro rfl
      exact Except.ok.inj (hsig.symm.trans hsig')
    · intro hc
      rw [← hc] at hsig'
      exact encode_injective hsig hsig'

/-- Both spellings of the indicator `1` are read as one signature. -/
theorem parse_canonical_twentyEight :
    (parse (ofOnes 28) = .ok ⟨1, 1, 1⟩ ∧ parse (ofOnes 1) = .ok ⟨1, 1, 1⟩)
    ∧ encode ⟨1, 1, 1⟩ = .ok (canonical (ofOnes 28))
    ∧ canonical (ofOnes 28) = canonical (ofOnes 1)
    ∧ ¬ IsFormat (ofOnes 1 ++ [0]) ∧ ∃ e, parse (ofOnes 1 ++ [0]) = .error (.codec e) := by
  have h28 : parse (ofOnes 28) = .ok ⟨1, 1, 1⟩ := rfl
  have h1 : parse (ofOnes 1) = .ok ⟨1, 1, 1⟩ := rfl
  have hlong : ¬ IsFormat (ofOnes 1 ++ [0]) := by decide
  obtain ⟨-, hwritten, -, hsame⟩ := parse_canonical (ofOnes 28)
  obtain ⟨-, -, hrefused, -⟩ := parse_canonical (ofOnes 1 ++ [0])
  exact ⟨⟨h28, h1⟩, hwritten _ h28, (hsame _ _ _ h28 h1).1 rfl, hlong, hrefused hlong⟩

end Signature

/-- A signature with its indicator and with both scalars in range, and a digest. -/
structure IsInput (signature digest : Bytes) : Prop where
  signature_length : signature.length = signatureLength
  digest_length : digest.length = digestLength
  r_inRange : InRange (Signature.fields signature).r
  s_inRange : InRange (Signature.fields signature).s

theorem isInput_iff {signature digest : Bytes} :
    IsInput signature digest ↔ signature.length = signatureLength ∧ digest.length = digestLength
      ∧ InRange (Signature.fields signature).r ∧ InRange (Signature.fields signature).s :=
  ⟨fun ⟨hl, hd, hr, hs⟩ => ⟨hl, hd, hr, hs⟩, fun ⟨hl, hd, hr, hs⟩ => ⟨hl, hd, hr, hs⟩⟩

instance (signature digest : Bytes) : Decidable (IsInput signature digest) :=
  decidable_of_iff' _ isInput_iff

end KeyRecovery
