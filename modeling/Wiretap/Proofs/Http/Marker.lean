import Wiretap.Proofs.Http.Encoding

/-!
# The marker in a chunked response

The bytes that end a chunked body, `lastChunk`, are looked for as plain bytes. In a
response whose payload does not hold them they can still come about where the parts
of the response meet (`marker_infix_bytes_iff`): at the end of a head whose last line
ends in `0`, of a size line that ends in `0` before data that begin with CR LF, of
data that end with `0` CR LF, and of the last line, which has to end in `0` for the
marker to be there at all (`marker_at_end_iff`).
-/

namespace Wiretap.Http

open Bytes (cr lf crlf)

def zero : UInt8 := 0x30

/-- The last byte is the digit zero. -/
def EndsInZero (s : Bytes) : Prop := s.getLast? = some zero

theorem marker_prefix_cons {b : UInt8} {s : Bytes} :
    lastChunk <+: b :: s ↔ b = zero ∧ headerTerminator <+: s := by
  rw [show lastChunk = zero :: headerTerminator from rfl, List.cons_prefix_cons, eq_comm]

theorem marker_infix_crlf (s : Bytes) : lastChunk <:+: crlf ++ s ↔ lastChunk <:+: s := by
  simp [crlf, List.infix_cons_iff, marker_prefix_cons, zero]

theorem endsInZero_cons_cons {a b : UInt8} {s : Bytes} :
    EndsInZero (a :: b :: s) ↔ EndsInZero (b :: s) := by
  rw [EndsInZero, EndsInZero, List.getLast?_cons_cons]

theorem marker_infix_line {line : Bytes} (h : cr ∉ line) (s : Bytes) :
    lastChunk <:+: line ++ crlf ++ s ↔ EndsInZero line ∧ crlf <+: s ∨ lastChunk <:+: s := by
  induction line with
  | nil => simp [marker_infix_crlf, EndsInZero]
  | cons b rest ih =>
    have hrest : cr ∉ rest := fun hm => h (List.mem_cons_of_mem b hm)
    rw [List.cons_append, List.cons_append, List.infix_cons_iff, ih hrest, marker_prefix_cons]
    cases rest with
    | nil =>
      rw [List.nil_append, headerTerminator_prefix_crlf]
      simp [EndsInZero]
    | cons b' rest =>
      have hterm : ¬ headerTerminator <+: b' :: rest ++ crlf ++ s := by
        intro hp
        have hb' : b' = cr := (List.cons_prefix_cons.mp hp).1.symm
        exact hrest (hb' ▸ List.mem_cons_self)
      rw [endsInZero_cons_cons]
      simp only [hterm, and_false, false_or]

/-- Lines one after another, and what follows them. -/
theorem marker_infix_lines {lines : List Bytes} (h : ∀ l ∈ lines, IsLine l) {s : Bytes} :
    lastChunk <:+: lines.flatMap (· ++ crlf) ++ s ↔
      (∃ l ∈ lines.getLast?, EndsInZero l) ∧ crlf <+: s ∨ lastChunk <:+: s := by
  induction lines with
  | nil => simp
  | cons line rest ih =>
    have hrest : ∀ l ∈ rest, IsLine l := fun l hl => h l (List.mem_cons_of_mem line hl)
    rw [List.flatMap_cons, List.append_assoc, marker_infix_line (h line List.mem_cons_self).cr,
      ih hrest]
    cases rest with
    | nil => simp
    | cons next rest =>
      have hnext : ¬ crlf <+: (next :: rest).flatMap (· ++ crlf) ++ s := by
        rw [List.flatMap_cons, List.append_assoc, List.append_assoc]
        exact not_crlf_prefix_line (hrest next List.mem_cons_self) _
      rw [List.getLast?_cons_cons]
      simp only [hnext, and_false, false_or]

theorem headerTerminator_prefix_data {data s : Bytes} (h : ¬ headerTerminator <+: data)
    (hs : s.head? ≠ some cr) : headerTerminator <+: data ++ crlf ++ s ↔ data = [cr, lf] := by
  rcases data with _ | ⟨a, _ | ⟨b, _ | ⟨c, _ | ⟨d, rest⟩⟩⟩⟩
  · rw [List.nil_append, headerTerminator_prefix_crlf]
    refine iff_of_false (fun hp => hs ?_) (List.cons_ne_nil _ _).symm
    obtain ⟨t, rfl⟩ := hp
    rfl
  · simp [headerTerminator, crlf]
  · simp [headerTerminator, crlf, cr, lf, eq_comm]
  · simp [headerTerminator, crlf]
  · have hp : headerTerminator <+: a :: b :: c :: d :: rest ++ crlf ++ s ↔
        headerTerminator <+: a :: b :: c :: d :: rest := by
      rw [List.append_assoc]
      exact List.isPrefix_append_of_length (by simp [headerTerminator])
    exact iff_of_false (fun hin => h (hp.mp hin)) (by simp)

/-- Data behind which a line begins. -/
theorem marker_infix_data {data s : Bytes} (h : ¬ lastChunk <:+: data) (hs : s.head? ≠ some cr) :
    lastChunk <:+: data ++ crlf ++ s ↔ [zero, cr, lf] <:+ data ∨ lastChunk <:+: s := by
  induction data with
  | nil => simp [marker_infix_crlf]
  | cons b rest ih =>
    rw [List.infix_cons_iff, marker_prefix_cons, not_or, not_and] at h
    rw [List.cons_append, List.cons_append, List.infix_cons_iff, marker_prefix_cons, ih h.2,
      List.suffix_cons_iff, ← or_assoc]
    have hfirst : b = zero ∧ headerTerminator <+: rest ++ crlf ++ s ↔
        [zero, cr, lf] = b :: rest := by
      rw [List.cons.injEq, eq_comm, @eq_comm _ _ rest]
      exact and_congr_right fun hb => headerTerminator_prefix_data (h.1 hb.symm) hs
    rw [hfirst]

/-! ## Chunks -/

namespace Written

/-- The marker comes about at an end of the data. -/
def Misleads (c : Written) : Prop :=
  EndsInZero c.line ∧ crlf <+: c.data ∨ [zero, cr, lf] <:+ c.data

theorem crlf_prefix_data {data s : Bytes} (h : data ≠ []) :
    crlf <+: data ++ crlf ++ s ↔ crlf <+: data := by
  rcases data with _ | ⟨a, _ | ⟨b, rest⟩⟩
  · exact absurd rfl h
  · simp [crlf]
  · simp [crlf]

theorem marker_infix_chunk {c : Written} (hl : IsLine c.line) (hd : c.data ≠ [])
    (hu : ¬ lastChunk <:+: c.data) {s : Bytes} (hs : s.head? ≠ some cr) :
    lastChunk <:+: c.bytes ++ s ↔ c.Misleads ∨ lastChunk <:+: s := by
  have heq : c.bytes ++ s = c.line ++ crlf ++ (c.data ++ crlf ++ s) := by simp [bytes]
  rw [heq, marker_infix_line hl.cr, marker_infix_data hu hs, crlf_prefix_data hd, Misleads,
    or_assoc]

theorem head?_bytes {c : Written} (hl : IsLine c.line) (s : Bytes) :
    (c.bytes ++ s).head? ≠ some cr := by
  obtain ⟨b, rest, hb⟩ := List.exists_cons_of_ne_nil hl.nonempty
  simp only [bytes, hb, List.cons_append, List.head?_cons, ne_eq, Option.some.injEq]
  rintro rfl
  exact hl.cr (hb ▸ List.mem_cons_self)

end Written

theorem head?_chunks {chunks : List Written} (h : ∀ c ∈ chunks, IsLine c.line) {s : Bytes}
    (hs : s.head? ≠ some cr) : (chunks.flatMap Written.bytes ++ s).head? ≠ some cr := by
  cases chunks with
  | nil => exact hs
  | cons c rest =>
    rw [List.flatMap_cons, List.append_assoc]
    exact Written.head?_bytes (h c List.mem_cons_self) _

theorem marker_infix_chunks {chunks : List Written} (hl : ∀ c ∈ chunks, IsLine c.line)
    (hd : ∀ c ∈ chunks, c.data ≠ []) (hu : ¬ lastChunk <:+: chunks.flatMap Written.data)
    {s : Bytes} (hs : s.head? ≠ some cr) :
    lastChunk <:+: chunks.flatMap Written.bytes ++ s ↔
      (∃ c ∈ chunks, c.Misleads) ∨ lastChunk <:+: s := by
  induction chunks with
  | nil => simp
  | cons c rest ih =>
    rw [List.flatMap_cons] at hu
    have hrest : ∀ c ∈ rest, IsLine c.line := fun c' hc => hl c' (List.mem_cons_of_mem c hc)
    rw [List.flatMap_cons, List.append_assoc,
      Written.marker_infix_chunk (hl c List.mem_cons_self) (hd c List.mem_cons_self)
        (fun hin => hu (hin.trans List.infix_append_left)) (head?_chunks hrest hs),
      ih hrest (fun c' hc => hd c' (List.mem_cons_of_mem c hc))
        (fun hin => hu (hin.trans List.infix_append_right))]
    simp [or_assoc]

/-! ## Responses -/

/-- A chunked response as it is written. -/
structure ChunkedResponse where
  status : Bytes
  fields : List Bytes
  chunks : List Written
  lastLine : Bytes
  trailers : List Bytes

namespace ChunkedResponse

variable (r : ChunkedResponse)

def head : Bytes := (r.status :: r.fields).flatMap (· ++ crlf) ++ crlf

/-- The line that ends the chunks, the trailer fields and an empty line. -/
def tail : Bytes := (r.lastLine :: r.trailers).flatMap (· ++ crlf) ++ crlf

def body : Bytes := r.chunks.flatMap Written.bytes ++ r.tail

def bytes : Bytes := r.head ++ r.body

def payload : Bytes := r.chunks.flatMap Written.data

structure WellFormed : Prop where
  status : IsLine r.status
  fields : ∀ l ∈ r.fields, IsLine l
  lines : ∀ c ∈ r.chunks, IsLine c.line
  sizes : ∀ c ∈ r.chunks, IsSizeLine c.line c.data.length
  nonempty : ∀ c ∈ r.chunks, c.data ≠ []
  last : IsLine r.lastLine
  zero : IsSizeLine r.lastLine 0
  trailers : ∀ l ∈ r.trailers, IsLine l

/-- The marker does not come about before the end, and the last line ends in a zero. -/
structure Clean : Prop where
  head : ¬ EndsInZero (r.fields.getLastD r.status)
  chunks : ∀ c ∈ r.chunks, ¬ c.Misleads
  tail : EndsInZero (r.trailers.getLastD r.lastLine)

variable {r}

theorem marker_infix_head (h : r.WellFormed) (hu : ¬ lastChunk <:+: r.payload) {s : Bytes}
    (hs : s.head? ≠ some cr) :
    lastChunk <:+: r.head ++ (r.chunks.flatMap Written.bytes ++ s) ↔
      EndsInZero (r.fields.getLastD r.status) ∨ (∃ c ∈ r.chunks, c.Misleads) ∨
        lastChunk <:+: s := by
  have hlines : ∀ l ∈ r.status :: r.fields, IsLine l := by
    rintro l (_ | ⟨_, hl⟩)
    · exact h.status
    · exact h.fields l hl
  rw [head, List.append_assoc, marker_infix_lines hlines, marker_infix_crlf,
    marker_infix_chunks h.lines h.nonempty hu hs]
  simp [List.getLast?_cons, List.getLastD_eq_getLast?]

theorem isLine_tail (h : r.WellFormed) : ∀ l ∈ r.lastLine :: r.trailers, IsLine l := by
  rintro l (_ | ⟨_, hl⟩)
  · exact h.last
  · exact h.trailers l hl

theorem head?_tail (h : r.WellFormed) (s : Bytes) :
    ((r.lastLine :: r.trailers).flatMap (· ++ crlf) ++ s).head? ≠ some cr := by
  obtain ⟨b, rest, hb⟩ := List.exists_cons_of_ne_nil h.last.nonempty
  simp only [List.flatMap_cons, hb, List.cons_append, List.head?_cons, ne_eq, Option.some.injEq]
  rintro rfl
  exact h.last.cr (hb ▸ List.mem_cons_self)

variable (r) in
theorem bytes_eq_concat : r.bytes = r.head ++ (r.chunks.flatMap Written.bytes ++
    ((r.lastLine :: r.trailers).flatMap (· ++ crlf) ++ [cr])) ++ [lf] := by
  simp [bytes, body, tail, crlf, cr, lf]

/-- What comes before the last byte. -/
theorem dropLast_bytes : r.bytes.dropLast = r.head ++ (r.chunks.flatMap Written.bytes ++
    ((r.lastLine :: r.trailers).flatMap (· ++ crlf) ++ [cr])) := by
  rw [bytes_eq_concat, List.dropLast_concat]

variable (r) in
theorem dropLast_concat_bytes : r.bytes.dropLast ++ [lf] = r.bytes := by
  rw [dropLast_bytes, ← bytes_eq_concat]

variable (r) in
theorem dropLast_bytes_ne_nil : r.bytes.dropLast ≠ [] := by
  rw [dropLast_bytes]
  simp

theorem marker_infix_bytes_iff (h : r.WellFormed) (hu : ¬ lastChunk <:+: r.payload) :
    lastChunk <:+: r.bytes ↔ EndsInZero (r.fields.getLastD r.status) ∨
      (∃ c ∈ r.chunks, c.Misleads) ∨ EndsInZero (r.trailers.getLastD r.lastLine) := by
  have hno : ¬ lastChunk <:+: crlf := by decide
  rw [bytes, body, tail, marker_infix_head h hu (head?_tail h crlf),
    marker_infix_lines (isLine_tail h)]
  simp [hno, List.getLast?_cons, List.getLastD_eq_getLast?]

theorem marker_infix_dropLast_iff (h : r.WellFormed) (hu : ¬ lastChunk <:+: r.payload) :
    lastChunk <:+: r.bytes.dropLast ↔ EndsInZero (r.fields.getLastD r.status) ∨
      ∃ c ∈ r.chunks, c.Misleads := by
  have hno : ¬ lastChunk <:+: [cr] := by decide
  have hno' : ¬ crlf <+: [cr] := by decide
  rw [dropLast_bytes, marker_infix_head h hu (head?_tail h [cr]),
    marker_infix_lines (isLine_tail h)]
  simp [hno, hno']

/-- The marker is there at the end and nowhere before it exactly if the response is clean. -/
theorem marker_at_end_iff (h : r.WellFormed) (hu : ¬ lastChunk <:+: r.payload) :
    lastChunk <:+: r.bytes ∧ ¬ lastChunk <:+: r.bytes.dropLast ↔ r.Clean := by
  rw [marker_infix_bytes_iff h hu, marker_infix_dropLast_iff h hu]
  constructor
  · rintro ⟨hin, hnot⟩
    obtain ⟨hhead, hchunks⟩ := not_or.mp hnot
    refine ⟨hhead, fun c hc hm => hchunks ⟨c, hc, hm⟩, ?_⟩
    exact (hin.resolve_left hhead).resolve_left hchunks
  · rintro ⟨hhead, hchunks, htail⟩
    exact ⟨.inr (.inr htail), not_or.mpr ⟨hhead, fun ⟨c, hc, hm⟩ => hchunks c hc hm⟩⟩

end ChunkedResponse

end Wiretap.Http
