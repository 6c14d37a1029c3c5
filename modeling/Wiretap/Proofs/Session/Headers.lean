import Wiretap.Proofs.Session.Opening

/-!
# The headers of a request

Headers are skipped line by line (`skipFrom_lines`), whatever ends the lines have, up to the empty
line: what is sent behind it is kept, unless the last header ends in LF alone and the empty line in
CR LF (`leaves_tail_iff`). Such an empty line is not seen, and what follows it is skipped as headers
too.
-/

namespace Wiretap.Tunnel

open Http (Line Eol linesBytes)

/-- Header lines and an empty line, each with its own end. -/
structure Preamble where
  headers : List Line
  empty : Eol

namespace Preamble

def bytes (p : Preamble) : Bytes := linesBytes p.headers ++ p.empty.bytes

/-- The last header ends in LF alone, and the empty line behind it in CR LF. -/
def Uneven (p : Preamble) : Prop := p.headers.getLast?.map Line.eol = some .lf ∧ p.empty = .crlf

instance (p : Preamble) : Decidable p.Uneven := inferInstanceAs (Decidable (_ ∧ _))

end Preamble

/-! ## Where headers end -/

theorem endsHeaders_cons_of_ne {b : UInt8} (h : b ≠ Bytes.lf) (before : Bytes) :
    endsHeaders (b :: before) = false := by
  unfold endsHeaders
  split
  · rename_i heq
    cases heq
    exact absurd rfl h
  · rename_i heq
    cases heq
    exact absurd rfl h
  · rfl

theorem endsHeaders_of_notMem {u : Bytes} (hu : Bytes.lf ∉ u) {before : Bytes}
    (h : endsHeaders before = false) : endsHeaders (u.reverse ++ before) = false := by
  cases hr : u.reverse with
  | nil => exact h
  | cons b rest =>
    refine endsHeaders_cons_of_ne (fun hb => hu ?_) _
    rw [← List.mem_reverse, hr, hb]
    exact List.mem_cons_self

/-- Read backwards, a line is its end and then a byte that is neither CR nor LF. -/
theorem exists_reverse_line (l : Line) :
    ∃ b rest, l.bytes.reverse = l.eol.bytes.reverse ++ b :: rest ∧ b ≠ Bytes.cr ∧ b ≠ Bytes.lf := by
  obtain ⟨b, rest, hr⟩ := List.exists_cons_of_ne_nil (List.reverse_ne_nil_iff.mpr l.isLine.nonempty)
  have hb : b ∈ l.content := List.mem_reverse.mp (hr ▸ List.mem_cons_self)
  exact ⟨b, rest, by rw [Line.bytes, List.reverse_append, hr],
    ne_of_mem_of_not_mem hb l.isLine.cr, ne_of_mem_of_not_mem hb l.isLine.lf⟩

/-- Only an empty line ends the headers. -/
theorem endsHeaders_line (l : Line) (before : Bytes) :
    endsHeaders (l.bytes.reverse ++ before) = false := by
  obtain ⟨b, rest, hr, hcr, hlf⟩ := exists_reverse_line l
  unfold Bytes.cr at hcr
  unfold Bytes.lf at hlf
  rw [hr]
  cases l.eol <;> simp [endsHeaders, Eol.bytes, Eol.front, Bytes.cr, Bytes.lf, hcr, hlf]

theorem endsHeaders_lines (lines : List Line) {before : Bytes} (h : endsHeaders before = false) :
    endsHeaders ((linesBytes lines).reverse ++ before) = false := by
  rcases List.eq_nil_or_concat' lines with rfl | ⟨first, last, rfl⟩
  · exact h
  · rw [Http.linesBytes_append, List.reverse_append, List.append_assoc]
    exact (congrArg (fun u => endsHeaders (u.reverse ++ _)) (List.append_nil _)).trans
      (endsHeaders_line last _)

/-- Behind the end of the request's line, an empty line ends the headers if it is seen. -/
theorem endsHeaders_preamble (p : Preamble) :
    endsHeaders (p.bytes.reverse ++ Bytes.crlf.reverse) = true ↔ ¬ p.Uneven := by
  obtain ⟨headers, empty⟩ := p
  rw [Preamble.bytes, Preamble.Uneven]
  simp only
  rcases List.eq_nil_or_concat' headers with rfl | ⟨first, last, rfl⟩
  · cases empty <;> simp [linesBytes, endsHeaders, Eol.bytes, Eol.front, Bytes.crlf, Bytes.cr,
      Bytes.lf]
  · obtain ⟨b, rest, hr, hcr, hlf⟩ := exists_reverse_line last
    unfold Bytes.cr at hcr
    have hbytes : (linesBytes (first ++ [last])).reverse =
        last.eol.bytes.reverse ++ b :: (rest ++ (linesBytes first).reverse) := by
      rw [Http.linesBytes_append, List.reverse_append]
      simp [linesBytes, hr]
    rw [List.reverse_append, hbytes, List.getLast?_concat, Option.map_some]
    cases last.eol <;> cases empty <;>
      simp [endsHeaders, Eol.bytes, Eol.front, Bytes.crlf, Bytes.cr, Bytes.lf, hcr]

/-! ## Skipping -/

theorem skipFrom_byte {before : Bytes} {n : Nat} (h : endsHeaders before = false)
    (hn : n < chunkSize) (closed : Bool) (b : UInt8) (rest : Bytes) :
    skipFrom closed before n (b :: rest) = skipFrom closed (b :: before) (n + 1) rest := by
  rw [skipFrom, if_neg]
  simp only [h, Bool.false_or, decide_eq_true_eq]
  omega

theorem skipFrom_of_notMem {u : Bytes} (hu : Bytes.lf ∉ u) {before : Bytes} {n : Nat}
    (h : endsHeaders before = false) (hn : n + u.length ≤ chunkSize) (closed : Bool)
    (rest : Bytes) :
    skipFrom closed before n (u ++ rest) =
      skipFrom closed (u.reverse ++ before) (n + u.length) rest := by
  induction u generalizing before n with
  | nil => rfl
  | cons b u ih =>
    rw [List.mem_cons, not_or] at hu
    rw [List.length_cons] at hn ⊢
    rw [List.cons_append, skipFrom_byte h (by omega),
      ih hu.2 (endsHeaders_cons_of_ne (Ne.symm hu.1) before) (by omega)]
    rw [List.reverse_cons, List.append_assoc, Nat.add_right_comm, Nat.add_assoc]
    rfl

/-- What is read up to a line feed. -/
theorem skipFrom_concat_lf {u : Bytes} (hu : Bytes.lf ∉ u) {before : Bytes} {n : Nat}
    (h : endsHeaders before = false) (hn : n + (u ++ [Bytes.lf]).length ≤ chunkSize) (closed : Bool)
    (rest : Bytes) :
    skipFrom closed before n (u ++ [Bytes.lf] ++ rest) =
      skipFrom closed ((u ++ [Bytes.lf]).reverse ++ before) (n + (u ++ [Bytes.lf]).length)
        rest := by
  rw [List.length_append, List.length_singleton] at hn ⊢
  rw [List.append_assoc, skipFrom_of_notMem hu h (by omega), List.singleton_append,
    skipFrom_byte (endsHeaders_of_notMem hu h) (by omega), List.reverse_concat, Nat.add_assoc]
  rfl

/-- Header lines are skipped one after another. -/
theorem skipFrom_lines (lines : List Line) {before : Bytes} {n : Nat}
    (h : endsHeaders before = false) (hn : n + (linesBytes lines).length ≤ chunkSize)
    (closed : Bool) (rest : Bytes) :
    skipFrom closed before n (linesBytes lines ++ rest) =
      skipFrom closed ((linesBytes lines).reverse ++ before) (n + (linesBytes lines).length)
        rest := by
  induction lines generalizing before n with
  | nil => rfl
  | cons l lines ih =>
    rw [Http.linesBytes_cons, List.length_append] at hn
    rw [Http.linesBytes_cons, List.append_assoc, l.bytes_eq,
      skipFrom_concat_lf l.lf_notMem_front h (by rw [← l.bytes_eq]; omega), ← l.bytes_eq,
      ih (endsHeaders_line l before) (by omega), List.reverse_append, List.append_assoc,
      List.length_append, Nat.add_assoc]

theorem skipFrom_of_ends {before : Bytes} (h : endsHeaders before = true) (closed : Bool) (n : Nat)
    (rest : Bytes) : skipFrom closed before n rest = some rest := by
  cases rest <;> simp [skipFrom, h]

theorem skipFrom_of_full {n : Nat} (h : chunkSize ≤ n) (closed : Bool) (before rest : Bytes) :
    skipFrom closed before n rest = some rest := by
  cases rest <;> simp [skipFrom, h]

theorem skipFrom_suffix {closed : Bool} {before : Bytes} {n : Nat} {s rest : Bytes}
    (h : skipFrom closed before n s = some rest) : rest <:+ s := by
  induction s generalizing before n with
  | nil =>
    rw [skipFrom] at h
    split at h
    · cases h
      exact List.suffix_rfl
    · cases h
  | cons b s ih =>
    rw [skipFrom] at h
    split at h
    · cases h
      exact List.suffix_rfl
    · exact (ih h).trans (List.suffix_cons b s)

/-- All of a preamble is read; what is skipped behind it depends on whether its end is seen. -/
theorem skipHeaders_preamble (p : Preamble) (hlength : p.bytes.length ≤ chunkSize) (closed : Bool)
    (tail : Bytes) :
    skipHeaders closed (p.bytes ++ tail) =
      skipFrom closed (p.bytes.reverse ++ Bytes.crlf.reverse) p.bytes.length tail := by
  have hstart : endsHeaders Bytes.crlf.reverse = false := by decide
  rw [Preamble.bytes, List.length_append] at hlength
  rw [skipHeaders, Preamble.bytes, List.append_assoc, skipFrom_lines p.headers hstart (by omega),
    Eol.bytes, skipFrom_concat_lf p.empty.lf_notMem_front (endsHeaders_lines p.headers hstart)
      (by unfold Eol.bytes at hlength; omega), @List.reverse_append _ (linesBytes p.headers),
    List.append_assoc, @List.length_append _ (linesBytes p.headers), Nat.zero_add]

theorem skipHeaders_of_seen {p : Preamble} (h : ¬ p.Uneven) (hlength : p.bytes.length ≤ chunkSize)
    (closed : Bool) (tail : Bytes) : skipHeaders closed (p.bytes ++ tail) = some tail := by
  rw [skipHeaders_preamble p hlength]
  exact skipFrom_of_ends ((endsHeaders_preamble p).mpr h) closed _ tail

/-- Behind a preamble whose end is not seen, nothing is skipped only where no more could be. -/
theorem skipHeaders_eq_tail_iff {p : Preamble} (hlength : p.bytes.length ≤ chunkSize)
    (closed : Bool) (tail : Bytes) :
    skipHeaders closed (p.bytes ++ tail) = some tail ↔
      ¬ p.Uneven ∨ p.bytes.length = chunkSize ∨ closed = true ∧ tail = [] := by
  by_cases h : p.Uneven
  · have hends : endsHeaders (p.bytes.reverse ++ Bytes.crlf.reverse) = false :=
      Bool.eq_false_iff.mpr fun hends => (endsHeaders_preamble p).mp hends h
    rw [skipHeaders_preamble p hlength]
    rcases hlength.lt_or_eq with hlt | heq
    · cases tail with
      | nil => simp [skipFrom, hends, h, hlt.ne, Nat.not_le_of_lt hlt]
      | cons b more =>
        have hshort (before : Bytes) (n : Nat) :
            skipFrom closed before n more ≠ some (b :: more) := fun hskip =>
          absurd (skipFrom_suffix hskip).length_le (Nat.not_succ_le_self more.length)
        rw [skipFrom_byte hends hlt]
        simp [h, hlt.ne, hshort]
    · rw [skipFrom_of_full heq.ge]
      simp [heq]
  · simp [skipHeaders_of_seen h hlength, h]

/-! ## Behind the headers -/

/-- What is left of a stream when its first line has been read and the headers skipped. -/
def Leaves (closed : Bool) (stream left : Bytes) : Prop :=
  ∃ line rest, readLine closed stream = .ok (line, rest) ∧ skipHeaders closed rest = some left

theorem leaves_line_iff {closed : Bool} {request : Line} {rest left : Bytes} :
    Leaves closed (request.bytes ++ rest) left ↔
      request.front.length ≤ maxLine ∧ skipHeaders closed rest = some left := by
  unfold Leaves
  rw [request.bytes_eq, List.append_assoc, List.singleton_append,
    readLine_cons closed request.lf_notMem_front]
  split
  · rename_i hlong
    simp [Nat.not_le_of_lt hlong]
  · rename_i hshort
    simp [Nat.le_of_not_lt hshort]

/-- A tail that is sent behind the headers is left, unless their end is not seen; then bytes of the
tail are skipped with them. -/
theorem leaves_tail_iff (request : Line) (p : Preamble) (hlength : p.bytes.length ≤ 8192)
    (closed : Bool) (tail : Bytes) :
    (Leaves closed (request.bytes ++ p.bytes ++ tail) tail ↔ request.front.length ≤ 8192 ∧
      (¬ p.Uneven ∨ p.bytes.length = 8192 ∨ closed = true ∧ tail = [])) ∧
    ∀ left, Leaves closed (request.bytes ++ p.bytes ++ tail) left → left <:+ tail := by
  rw [List.append_assoc]
  simp only [leaves_line_iff]
  refine ⟨and_congr_right fun _ => skipHeaders_eq_tail_iff hlength closed tail, ?_⟩
  rintro left ⟨-, hskip⟩
  rw [skipHeaders_preamble p hlength] at hskip
  exact skipFrom_suffix hskip

/-- Behind an empty line in LF alone the beginning of a TLS handshake is left. -/
theorem leaves_tail_hello :
    let headers : List Line := [⟨Utf8.encode "Host: a.test", .crlf, by decide +kernel⟩,
      ⟨Utf8.encode "X: y", .lf, by decide +kernel⟩]
    let p : Preamble := ⟨headers, .lf⟩
    p.bytes.length ≤ 8192 ∧
    Leaves false (Utf8.encode "CONNECT a.test:443 HTTP/1.1\nHost: a.test\r\nX: y\n\n" ++
      [0x16, 0x03, 0x01]) [0x16, 0x03, 0x01] := by
  intro headers p
  let request : Line := ⟨Utf8.encode "CONNECT a.test:443 HTTP/1.1", .lf, by decide +kernel⟩
  have hlength : p.bytes.length ≤ 8192 := by decide +kernel
  obtain ⟨hleaves, -⟩ := leaves_tail_iff request p hlength false [0x16, 0x03, 0x01]
  have hbytes : request.bytes ++ p.bytes =
      Utf8.encode "CONNECT a.test:443 HTTP/1.1\nHost: a.test\r\nX: y\n\n" := by decide +kernel
  rw [hbytes] at hleaves
  exact ⟨hlength, hleaves.mpr ⟨by decide +kernel, .inl (by decide)⟩⟩

/-- Behind a header in LF alone and an empty line in CR LF it is not. -/
theorem not_leaves_uneven :
    let request : Line := ⟨Utf8.encode "CONNECT a.test:1 HTTP/1.1", .crlf, by decide +kernel⟩
    let headers : List Line := [⟨Utf8.encode "Host: a.test", .lf, by decide +kernel⟩]
    let p : Preamble := ⟨headers, .crlf⟩
    p.bytes.length ≤ 8192 ∧ ¬ Leaves false (request.bytes ++ p.bytes ++ Utf8.encode "abc")
      (Utf8.encode "abc") := by
  intro request headers p
  have hlength : p.bytes.length ≤ 8192 := by decide +kernel
  refine ⟨hlength, fun hleaves => ?_⟩
  rw [List.append_assoc, leaves_line_iff, skipHeaders_eq_tail_iff hlength] at hleaves
  exact absurd hleaves.2 (by decide +kernel)

end Wiretap.Tunnel
