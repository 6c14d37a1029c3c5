import Wiretap.Proofs.Text.Ascii
import Wiretap.Proofs.Text.Encoded
import Wiretap.Text.Percent

/-!
# Percent encoding is decoded

A text is encoded byte by byte: a percent sign and two hexadecimal digits stand for any byte, and
ASCII letters and digits, hyphens, dots, underscores and tildes may stand for themselves
(`Escapes`). Decoding gives the bytes back, and so the text (`percentDecoded_of_escapes`), and what
is encoded holds no delimiter of a URL (`mem_escapes`).
-/

namespace Wiretap.Text

def isUnreserved (c : Char) : Bool := c.isAlphanum || "-._~".toList.contains c

/-- The texts that bytes are encoded as. -/
inductive Escapes : Bytes → List Char → Prop
  | nil : Escapes [] []
  | unreserved {b : UInt8} {s : Bytes} {cs : List Char} (free : isUnreserved (Char.ofNat b.toNat))
      (rest : Escapes s cs) : Escapes (b :: s) (Char.ofNat b.toNat :: cs)
  | percent {b : UInt8} {x y : Char} {s : Bytes} {cs : List Char}
      (high : Number.digit? 16 x = some (b.toNat / 16))
      (low : Number.digit? 16 y = some (b.toNat % 16)) (rest : Escapes s cs) :
      Escapes (b :: s) ('%' :: x :: y :: cs)

/-- The usual one of these texts, with as few percent signs as there can be. -/
def escape (s : Bytes) : List Char :=
  s.flatMap fun b =>
    if isUnreserved (Char.ofNat b.toNat) then [Char.ofNat b.toNat]
    else ['%', (Nat.digitChar (b.toNat / 16)).toUpper, (Nat.digitChar (b.toNat % 16)).toUpper]

theorem digit?_range :
    ∀ n ∈ List.range 16, Number.digit? 16 (Nat.digitChar n).toUpper = some n := by
  decide +kernel

theorem escapes_escape (s : Bytes) : Escapes s (escape s) := by
  induction s with
  | nil => exact .nil
  | cons b rest ih =>
    have hb := b.toNat_lt
    rw [escape, List.flatMap_cons, ← escape]
    split
    · exact .unreserved ‹_› ih
    · exact .percent (digit?_range _ (List.mem_range.mpr (by omega)))
        (digit?_range _ (List.mem_range.mpr (by omega))) ih

/-! ## Characters -/

theorem isAlphanum_iff_toNat {c : Char} : c.isAlphanum = true ↔
    (65 ≤ c.toNat ∧ c.toNat ≤ 90 ∨ 97 ≤ c.toNat ∧ c.toNat ≤ 122) ∨
      48 ≤ c.toNat ∧ c.toNat ≤ 57 := by
  delta Char.isAlphanum Char.isAlpha Char.isUpper Char.isLower Char.isDigit
  simp [UInt32.le_iff_toNat_le]

theorem isAlphanum_of_digit? {c : Char} {n : Nat} (h : Number.digit? 16 c = some n) :
    c.isAlphanum = true := by
  have hlt : Number.digitValue c < 16 := by
    unfold Number.digit? at h
    split at h
    · assumption
    · cases h
  unfold Number.digitValue at hlt
  simp only at hlt
  rw [isAlphanum_iff_toNat]
  split_ifs at hlt <;> omega

theorem isUnreserved_of_digit? {c : Char} {n : Nat} (h : Number.digit? 16 c = some n) :
    isUnreserved c = true := by
  rw [isUnreserved, isAlphanum_of_digit? h, Bool.true_or]

theorem lt_of_isUnreserved {c : Char} (h : isUnreserved c = true) : c.toNat < 0x80 := by
  rw [isUnreserved, Bool.or_eq_true, isAlphanum_iff_toNat, List.contains_iff_mem] at h
  rcases h with h | h
  · omega
  · have hcases : c = '-' ∨ c = '.' ∨ c = '_' ∨ c = '~' := by simpa using h
    rcases hcases with rfl | rfl | rfl | rfl <;> decide

/-- What is encoded is unreserved, but for the percent signs. -/
theorem mem_escapes {s : Bytes} {cs : List Char} (h : Escapes s cs) {c : Char} (hc : c ∈ cs) :
    isUnreserved c = true ∨ c = '%' := by
  induction h with
  | nil => cases hc
  | unreserved free _ ih =>
    rcases List.mem_cons.mp hc with rfl | hc
    · exact .inl free
    · exact ih hc
  | percent high low _ ih =>
    simp only [List.mem_cons] at hc
    rcases hc with rfl | rfl | rfl | hc
    · exact .inr rfl
    · exact .inl (isUnreserved_of_digit? high)
    · exact .inl (isUnreserved_of_digit? low)
    · exact ih hc

theorem notMem_escapes {s : Bytes} {cs : List Char} (h : Escapes s cs) {c : Char}
    (hfree : isUnreserved c = false) (hne : c ≠ '%') : c ∉ cs := fun hc =>
  (mem_escapes h hc).elim (fun ht => by simp [hfree] at ht) hne

/-! ## Decoding -/

theorem encodeChar_of_lt {c : Char} (h : c.toNat < 0x80) : Utf8.encodeChar c = [c.toNat.toUInt8] :=
  if_pos h

theorem ofNat_toUInt8 {c : Char} (h : c.toNat < 0x80) : Char.ofNat c.toNat.toUInt8.toNat = c := by
  rw [Utf8.toNat_toUInt8 (by omega), Char.ofNat_toNat]

theorem percentDecode_cons_of_ne {a : UInt8} (h : a ≠ percent) (rest : Bytes) :
    percentDecode (a :: rest) = a :: percentDecode rest := by
  match rest with
  | [] => rfl
  | [_] => rfl
  | _ :: _ :: _ => rw [percentDecode, if_neg h]

theorem percentDecode_hex {a b d : UInt8} (h : hexByte? a b = some d) (rest : Bytes) :
    percentDecode (percent :: a :: b :: rest) = d :: percentDecode rest := by
  rw [percentDecode, if_pos rfl, h]

theorem percentDecode_of_escapes {s : Bytes} {cs : List Char} (h : Escapes s cs) :
    percentDecode (Utf8.encodeChars cs) = s := by
  induction h with
  | nil => rfl
  | @unreserved b s cs free _ ih =>
    have hlt : (Char.ofNat b.toNat).toNat < 0x80 := lt_of_isUnreserved free
    have hbyte : (Char.ofNat b.toNat).toNat.toUInt8 = b := by
      rw [Utf8.toNat_ofNat_byte]
      exact UInt8.ofNat_toNat
    have hne : b ≠ percent := by
      rintro rfl
      exact absurd free (by decide)
    rw [Utf8.encodeChars, List.flatMap_cons, encodeChar_of_lt hlt, hbyte, ← Utf8.encodeChars]
    rw [List.cons_append, List.nil_append, percentDecode_cons_of_ne hne, ih]
  | @percent b x y s cs high low _ ih =>
    have hx := lt_of_isUnreserved (isUnreserved_of_digit? high)
    have hy := lt_of_isUnreserved (isUnreserved_of_digit? low)
    have hdecoded : hexByte? x.toNat.toUInt8 y.toNat.toUInt8 = some b := by
      unfold hexByte?
      rw [ofNat_toUInt8 hx, ofNat_toUInt8 hy, high, low]
      simp only [Nat.div_add_mod]
      exact congrArg some UInt8.ofNat_toNat
    have hencoded : Utf8.encodeChars ('%' :: x :: y :: cs) =
        percent :: x.toNat.toUInt8 :: y.toNat.toUInt8 :: Utf8.encodeChars cs := by
      simp only [Utf8.encodeChars, List.flatMap_cons, encodeChar_of_lt hx, encodeChar_of_lt hy]
      rfl
    rw [hencoded, percentDecode_hex hdecoded, ih]

/-- Any text is read back from what it is encoded as. -/
theorem percentDecoded_of_escapes {text : String} {cs : List Char}
    (h : Escapes (Utf8.encode text) cs) : percentDecoded (String.ofList cs) = text := by
  rw [percentDecoded, Utf8.encode, String.toList_ofList, percentDecode_of_escapes h,
    Utf8.textLossy_encode]

end Wiretap.Text
