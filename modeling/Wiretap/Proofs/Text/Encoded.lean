import Wiretap.Text.Utf8

/-!
# A text is decoded from its own bytes

Whatever its characters, a text is read back from its UTF-8 bytes (`text?_encode`), and a byte
below 0x80 stands for its own character alone (`notMem_encode`).
-/

namespace Wiretap.Utf8

theorem decodeFrom_more {q : Option Partial} {b : UInt8} {p : Partial} (h : step q b = .more p)
    (acc : List Char) (rest : Bytes) :
    decodeFrom q acc (b :: rest) = decodeFrom (some p) acc rest := by
  rw [decodeFrom, h]

theorem decodeFrom_char {q : Option Partial} {b : UInt8} {c : Char} (h : step q b = .char c)
    (acc : List Char) (rest : Bytes) :
    decodeFrom q acc (b :: rest) = decodeFrom none (c :: acc) rest := by
  rw [decodeFrom, h]

theorem toNat_toUInt8 {n : Nat} (h : n < 256) : n.toUInt8.toNat = n := UInt8.toNat_ofNat_of_lt' h

section

variable {d low high value : Nat}

theorem step_last (hd : d < 64) (hlow : low ≤ 0x80 + d) (hhigh : 0x80 + d ≤ high) :
    step (some ⟨1, low, high, value⟩) (0x80 + d).toUInt8 = .char (Char.ofNat (value * 64 + d)) := by
  have hb : (0x80 + d).toUInt8.toNat = 0x80 + d := toNat_toUInt8 (by omega)
  simp only [step, Partial.feed, hb]
  rw [if_pos ⟨hlow, hhigh⟩, if_pos (Nat.le_refl 1), Nat.add_sub_cancel_left]

theorem step_middle {owed : Nat} (hd : d < 64) (hlow : low ≤ 0x80 + d) (hhigh : 0x80 + d ≤ high) :
    step (some ⟨owed + 2, low, high, value⟩) (0x80 + d).toUInt8 =
      .more ⟨owed + 1, 0x80, 0xBF, value * 64 + d⟩ := by
  have hb : (0x80 + d).toUInt8.toNat = 0x80 + d := toNat_toUInt8 (by omega)
  simp only [step, Partial.feed, hb]
  rw [if_pos ⟨hlow, hhigh⟩, if_neg (by omega), Nat.add_sub_cancel_left]
  rfl

end

theorem step_lead_two {n : Nat} (hlow : 0x80 ≤ n) (hhigh : n < 0x800) :
    step none (0xC0 + n / 0x40).toUInt8 = .more ⟨1, 0x80, 0xBF, n / 0x40⟩ := by
  have hb : (0xC0 + n / 0x40).toUInt8.toNat = 0xC0 + n / 0x40 := toNat_toUInt8 (by omega)
  simp only [step, lead, hb]
  rw [if_neg (by omega), if_neg (by omega), if_pos (by omega), Nat.add_sub_cancel_left]

/-- The second byte of a character keeps out surrogates and needless lengths. -/
theorem step_lead_three {n : Nat} (hlow : 0x800 ≤ n) (hhigh : n < 0x10000)
    (hvalid : n < 0xD800 ∨ 0xDFFF < n) :
    ∃ low high, step none (0xE0 + n / 0x1000).toUInt8 = .more ⟨2, low, high, n / 0x1000⟩ ∧
      low ≤ 0x80 + n / 0x40 % 0x40 ∧ 0x80 + n / 0x40 % 0x40 ≤ high := by
  have hb : (0xE0 + n / 0x1000).toUInt8.toNat = 0xE0 + n / 0x1000 := toNat_toUInt8 (by omega)
  simp only [step, lead, hb]
  rw [if_neg (by omega), if_neg (by omega), if_neg (by omega)]
  by_cases hzero : n / 0x1000 = 0
  · rw [if_pos (by omega), hzero]
    exact ⟨_, _, rfl, by omega, by omega⟩
  rw [if_neg (by omega)]
  by_cases hsurrogate : n / 0x1000 = 0xD
  · rw [if_pos (by omega), hsurrogate]
    exact ⟨_, _, rfl, by omega, by omega⟩
  rw [if_neg (by omega), if_pos (by omega), Nat.add_sub_cancel_left]
  exact ⟨_, _, rfl, by omega, by omega⟩

theorem step_lead_four {n : Nat} (hlow : 0x10000 ≤ n) (hhigh : n < 0x110000) :
    ∃ low high, step none (0xF0 + n / 0x40000).toUInt8 = .more ⟨3, low, high, n / 0x40000⟩ ∧
      low ≤ 0x80 + n / 0x1000 % 0x40 ∧ 0x80 + n / 0x1000 % 0x40 ≤ high := by
  have hb : (0xF0 + n / 0x40000).toUInt8.toNat = 0xF0 + n / 0x40000 := toNat_toUInt8 (by omega)
  simp only [step, lead, hb]
  rw [if_neg (by omega), if_neg (by omega), if_neg (by omega), if_neg (by omega),
    if_neg (by omega), if_neg (by omega)]
  by_cases hzero : n / 0x40000 = 0
  · rw [if_pos (by omega), hzero]
    exact ⟨_, _, rfl, by omega, by omega⟩
  rw [if_neg (by omega)]
  by_cases hlast : n / 0x40000 = 4
  · rw [if_neg (by omega), if_pos (by omega), hlast]
    exact ⟨_, _, rfl, by omega, by omega⟩
  rw [if_pos (by omega), Nat.add_sub_cancel_left]
  exact ⟨_, _, rfl, by omega, by omega⟩

/-- A character is decoded from its own bytes. -/
theorem decodeFrom_encodeChar (c : Char) (acc : List Char) (rest : Bytes) :
    decodeFrom none acc (encodeChar c ++ rest) = decodeFrom none (c :: acc) rest := by
  have hvalid : c.toNat < 0xD800 ∨ 0xDFFF < c.toNat ∧ c.toNat < 0x110000 := c.valid
  have hchar {n : Nat} (h : n = c.toNat) : Char.ofNat n = c := by rw [h, Char.ofNat_toNat]
  unfold encodeChar
  simp only
  split
  · have hb : c.toNat.toUInt8.toNat = c.toNat := toNat_toUInt8 (by omega)
    refine decodeFrom_char ?_ acc rest
    simp only [step, lead, hb]
    rw [if_pos (by assumption), Char.ofNat_toNat]
  split
  · simp only [List.cons_append, List.nil_append]
    rw [decodeFrom_more (step_lead_two (by omega) (by omega)),
      decodeFrom_char (step_last (by omega) (by omega) (by omega)), hchar (by omega)]
  split
  · obtain ⟨low, high, hlead, hlow, hhigh⟩ :=
      step_lead_three (n := c.toNat) (by omega) (by omega) (by omega)
    simp only [List.cons_append, List.nil_append]
    rw [decodeFrom_more hlead, decodeFrom_more (step_middle (by omega) hlow hhigh),
      decodeFrom_char (step_last (by omega) (by omega) (by omega)), hchar (by omega)]
  · obtain ⟨low, high, hlead, hlow, hhigh⟩ :=
      step_lead_four (n := c.toNat) (by omega) (by omega)
    simp only [List.cons_append, List.nil_append]
    rw [decodeFrom_more hlead, decodeFrom_more (step_middle (by omega) hlow hhigh),
      decodeFrom_more (step_middle (by omega) (by omega) (by omega)),
      decodeFrom_char (step_last (by omega) (by omega) (by omega)), hchar (by omega)]

theorem decodeFrom_encodeChars (cs acc : List Char) :
    decodeFrom none acc (encodeChars cs) = some (acc.reverse ++ cs) := by
  induction cs generalizing acc with
  | nil => simp [encodeChars, decodeFrom]
  | cons c cs ih =>
    rw [encodeChars, List.flatMap_cons, decodeFrom_encodeChar, ← encodeChars, ih]
    simp

theorem decode?_encode (s : String) : decode? (encode s) = some s.toList := by
  rw [decode?, encode, decodeFrom_encodeChars, List.reverse_nil, List.nil_append]

theorem encode_ne_nil {s : String} (h : s.toList ≠ []) : encode s ≠ [] := by
  intro hnil
  have hdecoded := decode?_encode s
  rw [hnil] at hdecoded
  exact h (Option.some.inj hdecoded).symm

theorem text?_encode (s : String) : text? (encode s) = some s := by
  rw [text?, decode?_encode, Option.map_some, String.ofList_toList]

/-- Reading leniently changes nothing in a valid text. -/
theorem decodeLossyFrom_of_decodeFrom {q : Option Partial} {acc : List Char} {s : Bytes}
    {cs : List Char} (h : decodeFrom q acc s = some cs) : decodeLossyFrom q acc s = cs := by
  induction s generalizing q acc with
  | nil =>
    rw [decodeFrom] at h
    split at h
    · rename_i hq
      rw [decodeLossyFrom, Option.isNone_iff_eq_none.mp hq]
      exact Option.some.inj h
    · cases h
  | cons b rest ih =>
    rw [decodeFrom] at h
    rw [decodeLossyFrom]
    cases hs : step q b with
    | char c => simp only [hs] at h; exact ih h
    | more p => simp only [hs] at h; exact ih h
    | refused => simp only [hs] at h; cases h

theorem textLossy_encode (s : String) : textLossy (encode s) = s := by
  rw [textLossy, decodeLossy, decodeLossyFrom_of_decodeFrom (decode?_encode s),
    String.ofList_toList]

/-! ## ASCII -/

theorem notMem_encodeChar {a : UInt8} (ha : a < 0x80) {c : Char} (hc : c.toNat ≠ a.toNat) :
    a ∉ encodeChar c := by
  have hvalid : c.toNat < 0xD800 ∨ 0xDFFF < c.toNat ∧ c.toNat < 0x110000 := c.valid
  have hlow : a.toNat < 128 := UInt8.lt_iff_toNat_lt.mp ha
  have hbyte {n : Nat} (hn : n < 256) (hne : n ≠ a.toNat) : a ≠ n.toUInt8 := fun heq => by
    have := congrArg UInt8.toNat heq
    rw [toNat_toUInt8 hn] at this
    exact hne this.symm
  unfold encodeChar
  simp only
  split
  · simp only [List.mem_singleton]
    exact hbyte (by omega) hc
  -- the bytes of all other characters are above 0x7f
  split
  · simp only [List.mem_cons, List.not_mem_nil, or_false, not_or]
    exact ⟨hbyte (by omega) (by omega), hbyte (by omega) (by omega)⟩
  split
  · simp only [List.mem_cons, List.not_mem_nil, or_false, not_or]
    exact ⟨hbyte (by omega) (by omega), hbyte (by omega) (by omega), hbyte (by omega) (by omega)⟩
  · simp only [List.mem_cons, List.not_mem_nil, or_false, not_or]
    exact ⟨hbyte (by omega) (by omega), hbyte (by omega) (by omega), hbyte (by omega) (by omega),
      hbyte (by omega) (by omega)⟩

theorem notMem_encode {a : UInt8} (ha : a < 0x80) {s : String}
    (h : ∀ c ∈ s.toList, c.toNat ≠ a.toNat) : a ∉ encode s := by
  intro hmem
  obtain ⟨c, hc, hbyte⟩ := List.mem_flatMap.mp hmem
  exact notMem_encodeChar ha (h c hc) hbyte

theorem lf_notMem_encode {s : String} (h : '\n' ∉ s.toList) : Bytes.lf ∉ encode s :=
  notMem_encode (by decide) fun c hc heq =>
    h ((Char.toNat_inj.mp heq : c = '\n') ▸ hc)

theorem cr_notMem_encode {s : String} (h : '\r' ∉ s.toList) : Bytes.cr ∉ encode s :=
  notMem_encode (by decide) fun c hc heq =>
    h ((Char.toNat_inj.mp heq : c = '\r') ▸ hc)

end Wiretap.Utf8
