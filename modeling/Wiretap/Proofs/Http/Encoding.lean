import Mathlib.Data.List.TakeWhile
import Wiretap.Proofs.Http.Growth
import Wiretap.Proofs.Http.Heads
import Wiretap.Proofs.Text.Ascii

/-!
# Chunked bodies as they are written

A chunk is written as a size line, its data and CR LF. A size line holds hexadecimal
digits with blanks around them and perhaps an extension (`IsSizeLine`), and its size
is read back (`chunkSize?_of_isSizeLine`). Chunks that were written one after another
are decoded to their data, and a body ends behind a line of size zero
(`decodeChunked_of_written`), from which on it is complete (`unframe_done_iff`).
-/

namespace Wiretap

namespace Http

/-! ## Size lines -/

/-- The value of a hexadecimal digit, in either case. -/
def hexDigit? (b : UInt8) : Option Nat :=
  let n := b.toNat
  if 0x30 ≤ n ∧ n ≤ 0x39 then some (n - 0x30)
  else if 0x61 ≤ n ∧ n ≤ 0x66 then some (n - 0x61 + 10)
  else if 0x41 ≤ n ∧ n ≤ 0x46 then some (n - 0x41 + 10)
  else none

/-- The value of hexadecimal digits behind a number. -/
def hexFrom (value : Nat) : Bytes → Option Nat
  | [] => some value
  | b :: rest => (hexDigit? b).bind fun d => hexFrom (value * 16 + d) rest

structure IsSizeLine (line : Bytes) (size : Nat) : Prop where
  single : ¬ Bytes.crlf <:+: line
  parts : ∃ before digits after extension, line = before ++ digits ++ after ++ extension ∧
    (∀ b ∈ before, Bytes.isBlank b) ∧ (∀ b ∈ after, Bytes.isBlank b) ∧
    digits ≠ [] ∧ hexFrom 0 digits = some size ∧
    (extension = [] ∨ ∃ rest, extension = semicolon :: rest)

theorem digit?_eq_hexDigit? (b : UInt8) :
    Number.digit? 16 (Char.ofNat b.toNat) = hexDigit? b := by
  unfold Number.digit? Number.digitValue hexDigit?
  simp only [Utf8.toNat_ofNat_byte]
  split_ifs <;> first | rfl | omega

theorem digitsFrom_eq_hexFrom (value : Nat) (s : Bytes) :
    Number.digitsFrom 16 value (s.map fun b => Char.ofNat b.toNat) = hexFrom value s := by
  induction s generalizing value with
  | nil => rfl
  | cons b rest ih =>
    rw [List.map_cons, Number.digitsFrom, hexFrom, digit?_eq_hexDigit?]
    cases hexDigit? b with
    | none => rfl
    | some d => exact ih _

theorem hexDigit?_isSome_of_hexFrom {value size : Nat} {s : Bytes}
    (h : hexFrom value s = some size) : ∀ b ∈ s, (hexDigit? b).isSome := by
  induction s generalizing value with
  | nil => simp
  | cons b rest ih =>
    obtain ⟨d, hd, hrest⟩ := Option.bind_eq_some_iff.mp h
    intro b' hb'
    rcases List.mem_cons.mp hb' with rfl | hb'
    · rw [hd]; rfl
    · exact ih hrest b' hb'

theorem lt_of_hexDigit? {b : UInt8} (h : (hexDigit? b).isSome) : b < 0x80 := by
  rw [UInt8.lt_iff_toNat_lt, show (0x80 : UInt8).toNat = 128 from rfl]
  simp only [hexDigit?] at h
  split_ifs at h <;> first | omega | simp at h

theorem not_isBlank_of_hexDigit? {b : UInt8} (h : (hexDigit? b).isSome) :
    ¬ Bytes.isBlank b := by
  intro hb
  simp only [Bytes.isBlank, Bool.or_eq_true, beq_iff_eq] at hb
  rcases hb with (((rfl | rfl) | rfl) | rfl) | rfl <;> cases h

theorem takeWhile_of_isSizeLine {number extension : Bytes} (hn : semicolon ∉ number)
    (he : extension = [] ∨ ∃ rest, extension = semicolon :: rest) :
    (number ++ extension).takeWhile (· != semicolon) = number := by
  rcases he with rfl | ⟨rest, rfl⟩
  · rw [List.append_nil, List.takeWhile_eq_self_iff]
    exact fun b hb => bne_iff_ne.mpr (ne_of_mem_of_not_mem hb hn)
  · exact Bytes.takeWhile_of_notMem hn rest

theorem unsigned?_of_hexFrom {digits : Bytes} {size : Nat} (hne : digits ≠ [])
    (h : hexFrom 0 digits = some size) :
    Number.unsigned? 16 Number.word64 (digits.map fun b => Char.ofNat b.toNat) =
      if size ≤ Number.word64 then some size else none := by
  obtain ⟨b, rest, rfl⟩ := List.exists_cons_of_ne_nil hne
  have hplus : Char.ofNat b.toNat ≠ '+' := by
    intro heq
    have := congrArg (Number.digit? 16) heq
    rw [digit?_eq_hexDigit?] at this
    exact absurd (hexDigit?_isSome_of_hexFrom h b List.mem_cons_self) (by rw [this]; decide)
  have hdigits := digitsFrom_eq_hexFrom 0 (b :: rest)
  rw [h] at hdigits
  unfold Number.unsigned?
  rw [List.map_cons] at hdigits ⊢
  split
  · rename_i heq
    exact absurd (List.cons.inj heq).1 hplus
  · simp only [Number.digits?, hdigits]

theorem chunkSize?_of_isSizeLine {line : Bytes} {size : Nat} (h : IsSizeLine line size) :
    chunkSize? line = if size ≤ Number.word64 then some size else none := by
  obtain ⟨before, digits, after, extension, rfl, hb, ha, hne, hsize, hext⟩ := h.parts
  have hdigit := hexDigit?_isSome_of_hexFrom hsize
  have hnumber : semicolon ∉ before ++ digits ++ after := by
    intro hmem
    rcases List.mem_append.mp hmem with hmem | hmem
    · rcases List.mem_append.mp hmem with hmem | hmem
      · exact absurd (hb _ hmem) (by decide)
      · exact absurd (hdigit _ hmem) (by decide)
    · exact absurd (ha _ hmem) (by decide)
  rw [chunkSize?, takeWhile_of_isSizeLine hnumber hext,
    Bytes.trim_of_blanks hb ha
      (fun b hb' => not_isBlank_of_hexDigit? (hdigit b (List.mem_of_head? hb')))
      (fun b hb' => not_isBlank_of_hexDigit? (hdigit b (List.mem_of_getLast? hb'))),
    Utf8.decode?_ascii fun b hb' => lt_of_hexDigit? (hdigit b hb')]
  exact unsigned?_of_hexFrom hne hsize

/-- Digits alone are a size line. -/
theorem isSizeLine_of_digits {digits : Bytes} {size : Nat} (hne : digits ≠ [])
    (h : hexFrom 0 digits = some size) : IsSizeLine digits size := by
  refine ⟨fun hin => ?_, [], digits, [], [], by simp, by simp, by simp, hne, h, .inl rfl⟩
  have hlf := hexDigit?_isSome_of_hexFrom h Bytes.lf (hin.mem (by decide))
  exact absurd hlf (by decide)

/-! ## Bodies -/

theorem sizeLine?_of_isSizeLine {line : Bytes} {size : Nat} (h : IsSizeLine line size)
    (hfit : size ≤ Number.word64) (rest : Bytes) :
    sizeLine? (line ++ Bytes.crlf ++ rest) = some (line.length + 2, size) := by
  refine sizeLine?_eq_some_iff.mpr ⟨line.length, rfl, Bytes.find_crlf h.single rest, ?_⟩
  rw [List.append_assoc, List.take_left, chunkSize?_of_isSizeLine h, if_pos hfit]

theorem sizeLine?_of_large {line : Bytes} {size : Nat} (h : IsSizeLine line size)
    (hlarge : Number.word64 < size) (rest : Bytes) :
    sizeLine? (line ++ Bytes.crlf ++ rest) = none := by
  rw [sizeLine?, Bytes.find_crlf h.single, Option.bind_some, List.append_assoc, List.take_left,
    chunkSize?_of_isSizeLine h, if_neg (Nat.not_le_of_lt hlarge)]
  rfl

theorem sizeLine?_of_part {line p : Bytes} {size : Nat} (h : IsSizeLine line size)
    (hp : p <+: line ++ Bytes.crlf) (hlt : p.length < line.length + 2) : sizeLine? p = none := by
  rw [sizeLine?, Bytes.find_crlf_of_part h.single hp hlt]
  rfl

/-- A byte of a body as it is written, and whether it is one of the data. -/
structure Tagged where
  byte : UInt8
  isData : Bool

namespace Tagged

def framing (s : Bytes) : List Tagged := s.map fun b => ⟨b, false⟩

def payload (s : Bytes) : List Tagged := s.map fun b => ⟨b, true⟩

def bytes (text : List Tagged) : Bytes := text.map Tagged.byte

/-- Those of the bytes that are data. -/
def data (text : List Tagged) : Bytes := (text.filter Tagged.isData).map Tagged.byte

section

variable (s : Bytes) (text text' : List Tagged)

@[simp] theorem bytes_framing : bytes (framing s) = s := by simp [bytes, framing, Function.comp_def]

@[simp] theorem bytes_payload : bytes (payload s) = s := by simp [bytes, payload, Function.comp_def]

@[simp] theorem bytes_append : bytes (text ++ text') = bytes text ++ bytes text' :=
  List.map_append

@[simp] theorem bytes_take (n : Nat) : bytes (text.take n) = (bytes text).take n := List.map_take

@[simp] theorem length_bytes : (bytes text).length = text.length := List.length_map _

@[simp] theorem data_framing : data (framing s) = [] := by simp [data, framing]

@[simp] theorem data_payload : data (payload s) = s := by
  simp [data, payload, List.filter_map, Function.comp_def]

@[simp] theorem data_append : data (text ++ text') = data text ++ data text' := by simp [data]

@[simp] theorem framing_take (n : Nat) : (framing s).take n = framing (s.take n) :=
  List.map_take.symm

@[simp] theorem payload_take (n : Nat) : (payload s).take n = payload (s.take n) :=
  List.map_take.symm

@[simp] theorem length_framing : (framing s).length = s.length := List.length_map _

@[simp] theorem length_payload : (payload s).length = s.length := List.length_map _

end

end Tagged

/-- A chunk as it is written: its size line and its data. -/
structure Written where
  line : Bytes
  data : Bytes

namespace Written

def bytes (c : Written) : Bytes := c.line ++ Bytes.crlf ++ c.data ++ Bytes.crlf

def tagged (c : Written) : List Tagged :=
  Tagged.framing (c.line ++ Bytes.crlf) ++ Tagged.payload c.data ++ Tagged.framing Bytes.crlf

@[simp] theorem bytes_tagged (c : Written) : Tagged.bytes c.tagged = c.bytes := by
  simp [tagged, bytes]

@[simp] theorem length_tagged (c : Written) : c.tagged.length = c.bytes.length := by
  rw [← bytes_tagged, Tagged.length_bytes]

@[simp] theorem data_tagged (c : Written) : Tagged.data c.tagged = c.data := by
  simp [tagged]

theorem data_take_tagged (c : Written) (n : Nat) :
    Tagged.data (c.tagged.take n) = c.data.take (n - (c.line.length + 2)) := by
  simp [tagged, List.take_append, Bytes.crlf]

theorem bytes_flatMap_tagged (chunks : List Written) :
    Tagged.bytes (chunks.flatMap tagged) = chunks.flatMap bytes := by
  induction chunks with
  | nil => rfl
  | cons c chunks ih => rw [List.flatMap_cons, Tagged.bytes_append, bytes_tagged, ih, List.flatMap_cons]

/-- The line gives the size of the data, of which there are some, and as many as can be
counted. -/
structure Proper (c : Written) : Prop where
  size : IsSizeLine c.line c.data.length
  nonempty : c.data ≠ []
  fits : c.line.length + 2 + c.data.length ≤ Number.word64

theorem chunk_bytes {c : Written} (h : c.Proper) (rest : Bytes) :
    chunk (c.bytes ++ rest) = .whole c.data rest := by
  have hpos := List.length_pos_iff.mpr h.nonempty
  have hfit := h.fits
  have hsize := sizeLine?_of_isSizeLine h.size (by omega) (c.data ++ Bytes.crlf ++ rest)
  have hdrop : (c.line ++ Bytes.crlf ++ (c.data ++ Bytes.crlf ++ rest)).drop (c.line.length + 2) =
      c.data ++ Bytes.crlf ++ rest := by
    rw [show c.line.length + 2 = (c.line ++ Bytes.crlf).length by simp [Bytes.crlf], List.drop_left]
  rw [← Nat.sub_add_cancel hpos] at hsize hfit
  have heq : c.bytes ++ rest = c.line ++ Bytes.crlf ++ (c.data ++ Bytes.crlf ++ rest) := by
    simp [bytes]
  rw [heq, chunk_eq_sized hsize hfit, hdrop, Nat.sub_add_cancel hpos, List.append_assoc,
    List.drop_left, List.take_left]
  rfl

theorem take_of_isPrefix_append {s t p : Bytes} (h : p <+: s ++ t) :
    p.take s.length = s.take p.length := by
  obtain ⟨u, hu⟩ := h
  have htake := congrArg (List.take (min s.length p.length)) hu
  rw [List.take_append_of_le_length (Nat.min_le_right _ _),
    List.take_append_of_le_length (Nat.min_le_left _ _)] at htake
  rwa [List.take_eq_take_min, List.take_eq_take_min (l := s), Nat.min_comm p.length]

/-- Of a chunk that is not all there, the data that are. -/
theorem chunk_of_part {c : Written} (h : c.Proper) {p : Bytes} (hp : p <+: c.bytes)
    (hlt : p.length < c.bytes.length) :
    chunk p = .cut (c.data.take (p.length - (c.line.length + 2))) := by
  have hpos := List.length_pos_iff.mpr h.nonempty
  have hfit := h.fits
  have heq : c.bytes = c.line ++ Bytes.crlf ++ (c.data ++ Bytes.crlf) := by simp [bytes]
  rw [heq] at hp hlt
  have hline : (c.line ++ Bytes.crlf).length = c.line.length + 2 := List.length_append
  by_cases hle : (c.line ++ Bytes.crlf).length ≤ p.length
  · obtain ⟨q, rfl⟩ := List.prefix_of_prefix_length_le (List.prefix_append _ _) hp hle
    have hsize := sizeLine?_of_isSizeLine h.size (by omega) q
    rw [← Nat.sub_add_cancel hpos] at hsize hfit
    have hq : q.length < c.data.length + 2 := by
      simp only [List.length_append] at hlt
      exact Nat.lt_of_add_lt_add_left hlt
    have hdrop : (c.line ++ Bytes.crlf ++ q).drop (c.line.length + 2) = q := by
      rw [← hline, List.drop_left]
    have htake := take_of_isPrefix_append ((List.prefix_append_right_inj _).mp hp)
    rw [chunk_eq_sized hsize hfit, hdrop, Nat.sub_add_cancel hpos, htake, List.length_append, hline,
      Nat.add_sub_cancel_left]
    split
    · rename_i hd
      have := congrArg List.length hd
      simp only [List.length_drop, List.length_cons] at this
      omega
    · rfl
  · have hp' := List.prefix_of_prefix_length_le hp (List.prefix_append _ _) (Nat.le_of_not_le hle)
    rw [chunk_eq_cut_of_none (sizeLine?_of_part h.size hp' (by omega)),
      Nat.sub_eq_zero_of_le (by omega), List.take_zero]

end Written

theorem chunk_of_last {line : Bytes} (h : IsSizeLine line 0) (rest : Bytes) :
    chunk (line ++ Bytes.crlf ++ rest) = .last :=
  chunk_eq_last (sizeLine?_of_isSizeLine h (Nat.zero_le _) rest)

/-- What is written is what is decoded, whatever stands behind the last size line. -/
theorem decodeChunked_of_written {chunks : List Written} (h : ∀ c ∈ chunks, c.Proper)
    {line : Bytes} (hlast : IsSizeLine line 0) (rest : Bytes) :
    decodeChunked (chunks.flatMap Written.bytes ++ (line ++ Bytes.crlf ++ rest)) =
      (chunks.flatMap Written.data, true) := by
  induction chunks with
  | nil => exact decodeChunked_of_last (chunk_of_last hlast rest)
  | cons c chunks ih =>
    rw [List.flatMap_cons, List.append_assoc,
      decodeChunked_of_whole (Written.chunk_bytes (h c List.mem_cons_self) _),
      ih fun c' hc' => h c' (List.mem_cons_of_mem c hc')]
    rfl

/-- Before the last size line is complete, what is decoded is the data that are there, and the
body is not complete. -/
theorem decodeChunked_of_part {chunks : List Written} (h : ∀ c ∈ chunks, c.Proper)
    {line : Bytes} (hlast : IsSizeLine line 0) {p : Bytes}
    (hp : p <+: chunks.flatMap Written.bytes ++ (line ++ Bytes.crlf))
    (hlt : p.length < (chunks.flatMap Written.bytes ++ (line ++ Bytes.crlf)).length) :
    decodeChunked p = (Tagged.data ((chunks.flatMap Written.tagged).take p.length), false) := by
  induction chunks generalizing p with
  | nil =>
    have hnone := sizeLine?_of_part hlast hp (by simpa [Bytes.crlf] using hlt)
    rw [decodeChunked_of_cut (chunk_eq_cut_of_none hnone)]
    simp [Tagged.data]
  | cons c rest ih =>
    have hc := h c List.mem_cons_self
    rw [List.flatMap_cons, List.append_assoc] at hp hlt
    by_cases hle : c.bytes.length ≤ p.length
    · obtain ⟨q, rfl⟩ := List.prefix_of_prefix_length_le (List.prefix_append _ _) hp hle
      have hq := ih (fun c' hc' => h c' (List.mem_cons_of_mem c hc'))
        ((List.prefix_append_right_inj _).mp hp) (by simpa using hlt)
      rw [decodeChunked_of_whole (Written.chunk_bytes hc q), hq, List.length_append,
        List.flatMap_cons, ← Written.length_tagged, List.take_length_add_append,
        Tagged.data_append, Written.data_tagged]
    · have hle' := Nat.le_of_not_le hle
      have hp' := List.prefix_of_prefix_length_le hp (List.prefix_append _ _) hle'
      rw [decodeChunked_of_cut (Written.chunk_of_part hc hp' (Nat.lt_of_not_le hle)),
        List.flatMap_cons, List.take_append_of_le_length (by rwa [Written.length_tagged]),
        Written.data_take_tagged]

/-- A body has arrived in full: the line that ends its chunks, or as many bytes as were
announced. -/
inductive Complete (body : Bytes) (h : Headers) : Prop
  | chunked (hc : h.isChunked = true) (chunks : List Written) (hp : ∀ c ∈ chunks, c.Proper)
      (line rest : Bytes) (hl : IsSizeLine line 0)
      (heq : body = chunks.flatMap Written.bytes ++ (line ++ Bytes.crlf ++ rest))
  | counted (hc : h.isChunked = false) (n : Nat) (hn : h.length? = some n) (hle : n ≤ body.length)

theorem unframe_of_complete {body : Bytes} {h : Headers} (hc : Complete body h) :
    (unframe body h).2 = true := by
  cases hc with
  | chunked hc chunks hp line rest hl heq =>
    rw [unframe, if_pos hc, heq, decodeChunked_of_written hp hl]
  | counted hc n hn hle =>
    rw [unframe, if_neg (by rw [hc]; decide), hn]
    exact decide_eq_true hle

/-- The bytes with which a body becomes complete: all up to the line that ends its chunks, or
as many as were announced. -/
inductive Closes (h : Headers) : Bytes → Prop
  | chunked (hc : h.isChunked = true) (chunks : List Written) (hp : ∀ c ∈ chunks, c.Proper)
      (line : Bytes) (hl : IsSizeLine line 0) :
      Closes h (chunks.flatMap Written.bytes ++ (line ++ Bytes.crlf))
  | counted (hc : h.isChunked = false) (body : Bytes) (hn : h.length? = some body.length) :
      Closes h body

theorem complete_of_closes {full : Bytes} {h : Headers} (hc : Closes h full) (rest : Bytes) :
    Complete (full ++ rest) h := by
  cases hc with
  | chunked hc chunks hp line hl =>
    exact .chunked hc chunks hp line rest hl (by rw [List.append_assoc, List.append_assoc])
  | counted hc full hn => exact .counted hc full.length hn (by simp)

theorem unframe_of_part {full : Bytes} {h : Headers} (hc : Closes h full) {p : Bytes}
    (hp : p <+: full) (hlt : p.length < full.length) : (unframe p h).2 = false := by
  cases hc with
  | chunked hc chunks hproper line hl =>
    rw [unframe, if_pos hc, decodeChunked_of_part hproper hl hp hlt]
  | counted hc full hn =>
    rw [unframe, if_neg (by rw [hc]; decide), hn]
    exact decide_eq_false (Nat.not_le_of_lt hlt)

/-- A body is complete exactly from its closing bytes on. -/
theorem unframe_done_iff {full rest : Bytes} {h : Headers} (hc : Closes h full) {p : Bytes}
    (hp : p <+: full ++ rest) : (unframe p h).2 = true ↔ full.length ≤ p.length := by
  constructor
  · intro hdone
    by_contra hlt
    have hp' := List.prefix_of_prefix_length_le hp (List.prefix_append _ _) (Nat.le_of_not_le hlt)
    rw [unframe_of_part hc hp' (Nat.lt_of_not_le hlt)] at hdone
    cases hdone
  · intro hle
    obtain ⟨q, rfl⟩ := List.prefix_of_prefix_length_le (List.prefix_append _ _) hp hle
    exact unframe_of_complete (complete_of_closes hc q)

end Http

end Wiretap
