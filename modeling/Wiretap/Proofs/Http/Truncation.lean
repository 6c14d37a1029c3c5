import Wiretap.Proofs.Http.Encoding

/-!
# Chunked bodies that are cut

A chunked body is decoded to its data, whatever follows it, and one that is cut before the line
that ends it is complete to the data that have arrived (`decodeChunked_truncated`). That takes
chunks whose last byte has a number within 64 bits, counted from the first byte of their size
line: of a larger one no byte is decoded, even if some have arrived (`not_decoded_vast`).
-/

namespace Wiretap.Http

/-- Chunks as they are written, and the line that ends them. -/
def written (chunks : List Written) (line : Bytes) : List Tagged :=
  chunks.flatMap Written.tagged ++ Tagged.framing (line ++ Bytes.crlf)

theorem bytes_written (chunks : List Written) (line : Bytes) :
    Tagged.bytes (written chunks line) =
      chunks.flatMap Written.bytes ++ (line ++ Bytes.crlf) := by
  rw [written, Tagged.bytes_append, Written.bytes_flatMap_tagged, Tagged.bytes_framing]

theorem data_take_written (chunks : List Written) (line : Bytes) (n : Nat) :
    Tagged.data ((written chunks line).take n) =
      Tagged.data ((chunks.flatMap Written.tagged).take n) := by
  simp [written, List.take_append]

/-- The whole of a body gives all data, and what comes before its end gives the data in it. -/
theorem decodeChunked_truncated {chunks : List Written} (h : ∀ c ∈ chunks, c.Proper)
    {line : Bytes} (hl : IsSizeLine line 0) (rest : Bytes) :
    decodeChunked (Tagged.bytes (written chunks line) ++ rest) =
      (chunks.flatMap Written.data, true) ∧
    ∀ n < (written chunks line).length,
      decodeChunked (Tagged.bytes ((written chunks line).take n)) =
        (Tagged.data ((written chunks line).take n), false) := by
  constructor
  · rw [bytes_written, List.append_assoc]
    exact decodeChunked_of_written h hl rest
  · intro n hn
    rw [← Tagged.length_bytes, bytes_written] at hn
    have hpart := decodeChunked_of_part h hl (List.take_prefix n _)
      (by rw [List.length_take]; omega)
    rw [List.length_take_of_le (Nat.le_of_lt hn)] at hpart
    rw [Tagged.bytes_take, bytes_written, data_take_written, hpart]

/-- Chunks with blanks, zeros, letters of either case and an extension in their size lines, and
with a line end, a size and a last size line in their data. -/
def lookalikes : List Written :=
  [⟨Utf8.encode " 0A\t;name=\"v\"", Utf8.encode "5\r\nab\r\n0\r\n"⟩,
    ⟨Utf8.encode "0000b", Utf8.encode "0\r\n\r\n3\r\nabc"⟩]

def lastLine : Bytes := Utf8.encode "00;end"

theorem proper_lookalikes : ∀ c ∈ lookalikes, c.Proper := by
  have hfirst : IsSizeLine (Utf8.encode " 0A\t;name=\"v\"") 10 :=
    ⟨by decide +kernel, Utf8.encode " ", Utf8.encode "0A", Utf8.encode "\t",
      Utf8.encode ";name=\"v\"", by decide +kernel, by decide +kernel, by decide +kernel,
      by decide +kernel, by decide +kernel, .inr ⟨_, rfl⟩⟩
  have hsecond : IsSizeLine (Utf8.encode "0000b") 11 :=
    isSizeLine_of_digits (by decide +kernel) (by decide +kernel)
  refine List.forall_mem_cons.mpr ⟨⟨hfirst, by decide +kernel, by decide +kernel⟩, ?_⟩
  exact List.forall_mem_singleton.mpr ⟨hsecond, by decide +kernel, by decide +kernel⟩

theorem isSizeLine_lastLine : IsSizeLine lastLine 0 :=
  ⟨by decide +kernel, [], Utf8.encode "00", [], Utf8.encode ";end", by decide +kernel,
    nofun, nofun, by decide +kernel, by decide +kernel, .inr ⟨_, rfl⟩⟩

theorem decodeChunked_truncated_lookalikes :
    (∀ c ∈ lookalikes, c.Proper) ∧ IsSizeLine lastLine 0 ∧
    decodeChunked (Tagged.bytes (written lookalikes lastLine) ++ Utf8.encode "X: y\r\n\r\n") =
      (lookalikes.flatMap Written.data, true) ∧
    ∀ n < (written lookalikes lastLine).length,
      decodeChunked (Tagged.bytes ((written lookalikes lastLine).take n)) =
        (Tagged.data ((written lookalikes lastLine).take n), false) :=
  ⟨proper_lookalikes, isSizeLine_lastLine,
    decodeChunked_truncated proper_lookalikes isSizeLine_lastLine _⟩

/-! ## Sizes that cannot be counted -/

/-- Of a chunk whose last byte has a number beyond 64 bits nothing is decoded. -/
theorem decodeChunked_of_large {line : Bytes} {size : Nat} (h : IsSizeLine line (size + 1))
    (hlarge : Number.word64 < line.length + 2 + (size + 1)) (p : Bytes) :
    decodeChunked (line ++ Bytes.crlf ++ p) = ([], false) := by
  by_cases hfit : size + 1 ≤ Number.word64
  · exact decodeChunked_of_cut (chunk_eq_cut_of_large (sizeLine?_of_isSizeLine h hfit p) hlarge)
  · exact decodeChunked_of_cut
      (chunk_eq_cut_of_none (sizeLine?_of_large h (Nat.lt_of_not_le hfit) p))

/-- The size line and the first data of the first chunk. -/
theorem take_written (c : Written) (chunks : List Written) (line : Bytes) {n : Nat}
    (hn : n ≤ c.data.length) :
    (written (c :: chunks) line).take (c.line.length + 2 + n) =
      Tagged.framing (c.line ++ Bytes.crlf) ++ Tagged.payload (c.data.take n) := by
  have hline : (Tagged.framing (c.line ++ Bytes.crlf)).length = c.line.length + 2 := by
    simp [Bytes.crlf]
  rw [written, List.flatMap_cons, Written.tagged, ← hline]
  simp only [List.append_assoc]
  rw [List.take_length_add_append, List.take_append_of_le_length (by simpa using hn),
    Tagged.payload_take]

theorem lt_length_written (c : Written) (chunks : List Written) (line : Bytes) {n : Nat}
    (hn : n ≤ c.data.length) : c.line.length + 2 + n < (written (c :: chunks) line).length := by
  rw [← Tagged.length_bytes, bytes_written]
  simp only [List.flatMap_cons, Written.bytes, List.length_append, Bytes.crlf, List.length_cons,
    List.length_nil]
  omega

theorem not_decoded_of_large {c : Written} (h : IsSizeLine c.line c.data.length)
    (hlarge : Number.word64 < c.line.length + 2 + c.data.length) (chunks : List Written)
    (line : Bytes) {n : Nat} (hpos : 0 < n) (hn : n ≤ c.data.length) :
    decodeChunked (Tagged.bytes ((written (c :: chunks) line).take (c.line.length + 2 + n))) ≠
      (Tagged.data ((written (c :: chunks) line).take (c.line.length + 2 + n)), false) := by
  rw [← Nat.sub_add_cancel (Nat.lt_of_lt_of_le hpos hn)] at h hlarge
  simp only [take_written c chunks line hn, Tagged.bytes_append, Tagged.bytes_framing,
    Tagged.bytes_payload, Tagged.data_append, Tagged.data_framing, Tagged.data_payload,
    decodeChunked_of_large h hlarge, List.nil_append]
  intro heq
  have hlen := congrArg (List.length ∘ Prod.fst) heq
  simp only [Function.comp, List.length_nil, List.length_take] at hlen
  omega

/-- A chunk with the largest size that fits 64 bits, so that its last byte has a number that
does not. -/
def vast : Written := ⟨List.replicate 16 0x66, List.replicate Number.word64 0x61⟩

theorem length_data_vast : vast.data.length = Number.word64 := List.length_replicate

/-- Three of its bytes have arrived, and none is decoded. -/
theorem not_decoded_vast :
    IsSizeLine vast.line vast.data.length ∧ vast.data ≠ [] ∧ IsSizeLine lastLine 0 ∧
    vast.line.length + 2 + 3 < (written [vast] lastLine).length ∧
    decodeChunked (Tagged.bytes ((written [vast] lastLine).take (vast.line.length + 2 + 3))) ≠
      (Tagged.data ((written [vast] lastLine).take (vast.line.length + 2 + 3)), false) := by
  have hsize : IsSizeLine vast.line vast.data.length := by
    rw [length_data_vast]
    exact isSizeLine_of_digits (by decide) (by decide)
  have hlen : 3 ≤ vast.data.length := by
    rw [length_data_vast]
    decide
  refine ⟨hsize, List.ne_nil_of_length_pos (by omega), isSizeLine_lastLine,
    lt_length_written vast [] lastLine hlen, ?_⟩
  exact not_decoded_of_large hsize (by rw [length_data_vast]; decide) [] lastLine (by decide) hlen

end Wiretap.Http
