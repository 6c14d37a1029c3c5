import Wiretap.Proofs.Http.Growth

/-!
# Decoding any bytes

Whatever the bytes of a body, well formed or not, decoding computes no offset beyond 64 bits and
cuts nothing out of the body that is not in it: `Checked.decode` does the same with a check at
every sum and at every cut, and no check fails (`Checked.decode_eq`). More bytes add data behind
those that were decoded, and none to a body that is complete (`decodeChunked_monotone`).
-/

namespace Wiretap.Http

namespace Checked

/-- What is wrong with an offset. -/
inductive Fault where
  | tooLarge
  | outside
  deriving DecidableEq, Repr

/-- The sum of two offsets, if it fits 64 bits. -/
def sum (a b : Nat) : Except Fault Nat :=
  if a + b ≤ Number.word64 then .ok (a + b) else .error .tooLarge

/-- The bytes from one offset up to another, if both lie in the body in this order. -/
def cut (body : Bytes) (first last : Nat) : Except Fault Bytes :=
  if first ≤ last ∧ last ≤ body.length then .ok ((body.take last).drop first)
  else .error .outside

/-- The data of a chunk from where they begin on, and what stands behind its line end. -/
def dataAt (body : Bytes) (start size : Nat) : Except Fault Chunk := do
  if body.length < start + size then return .cut (← cut body start body.length)
  let data ← cut body start (start + size)
  let next ← sum (start + size) 2
  if body.length < next then return .cut data
  return .whole data (← cut body next body.length)

/-- `Http.chunk`, with its offsets checked. -/
def chunk (body : Bytes) : Except Fault Chunk :=
  match Bytes.find body Bytes.crlf with
  | none => .ok (.cut [])
  | some lineEnd => do
    match chunkSize? (← cut body 0 lineEnd) with
    | none => return .cut []
    | some size =>
      let start ← sum lineEnd 2
      if size = 0 then return .last
      if Number.word64 < start + size then return .cut []
      dataAt body start size

/-- The chunks of a body, no more than `turns` of them; none if there is more to do. -/
def decodeFrom (acc : List Bytes) (body : Bytes) (turns : Nat) :
    Except Fault (Option (Bytes × Bool)) :=
  match turns with
  | 0 => .ok none
  | turns + 1 => do
    match ← chunk body with
    | .last => return some (acc.reverse.flatten, true)
    | .cut data => return some ((data :: acc).reverse.flatten, false)
    | .whole data rest => decodeFrom (data :: acc) rest turns

/-- `decodeChunked` in at most as many turns as the body has bytes and one more. -/
def decode (body : Bytes) : Except Fault (Option (Bytes × Bool)) :=
  decodeFrom [] body (body.length + 1)

/-- No byte string in memory is longer. -/
def maxLength : Nat := 0x7fffffffffffffff

theorem sum_eq {a b : Nat} (h : a + b ≤ Number.word64) : sum a b = .ok (a + b) := if_pos h

theorem cut_eq {body : Bytes} {first last : Nat} (h : first ≤ last) (hl : last ≤ body.length) :
    cut body first last = .ok ((body.take last).drop first) := if_pos ⟨h, hl⟩

theorem ok_bind {α β : Type} (x : α) (f : α → Except Fault β) : (Except.ok x >>= f) = f x := rfl

section

variable {body : Bytes} (h : body.length ≤ maxLength)

include h

theorem sum_two_eq {n : Nat} (hn : n ≤ body.length) : sum n 2 = .ok (n + 2) :=
  sum_eq (Nat.le_trans (Nat.add_le_add_right (hn.trans h) 2) (by decide))

theorem dataAt_eq {start : Nat} (hs : start ≤ body.length) (size : Nat) :
    dataAt body start size = .ok (match (body.drop start).drop size with
      | _ :: _ :: rest => .whole ((body.drop start).take size) rest
      | _ => .cut ((body.drop start).take size)) := by
  have hbehind := List.length_drop (i := start + size) (l := body)
  unfold dataAt
  rw [List.drop_drop]
  by_cases hlarge : body.length < start + size
  · rw [if_pos hlarge, cut_eq hs (Nat.le_refl _), List.take_length, ok_bind,
      List.drop_eq_nil_iff.mpr (Nat.le_of_lt hlarge),
      List.take_of_length_le (by rw [List.length_drop]; omega)]
    rfl
  · have hle := Nat.le_of_not_lt hlarge
    have hdata : (body.take (start + size)).drop start = (body.drop start).take size := by
      rw [List.drop_take, Nat.add_sub_cancel_left]
    rw [if_neg hlarge, cut_eq (Nat.le_add_right _ _) hle, sum_two_eq h hle, ok_bind, ok_bind, hdata]
    rcases hd : body.drop (start + size) with _ | ⟨b₁, _ | ⟨b₂, rest⟩⟩ <;> rw [hd] at hbehind
    · rw [if_pos (by rw [List.length_nil] at hbehind; omega)]
      rfl
    · rw [if_pos (by rw [List.length_singleton] at hbehind; omega)]
      rfl
    · rw [List.length_cons, List.length_cons] at hbehind
      have hrest : body.drop (start + size + 2) = rest := by
        rw [← List.drop_drop, hd]
        rfl
      rw [if_neg (by omega), cut_eq (by omega) (Nat.le_refl _), List.take_length, hrest]
      rfl

/-- No check fails, since a line end lies in the body. -/
theorem chunk_eq : chunk body = .ok (Http.chunk body) := by
  unfold chunk Http.chunk
  cases hf : Bytes.find body Bytes.crlf with
  | none => rfl
  | some lineEnd =>
    have hle : lineEnd + 2 ≤ body.length := Bytes.add_length_le_of_find crlf_ne_nil hf
    have hline : lineEnd ≤ body.length := Nat.le_of_add_right_le hle
    simp only [cut_eq (Nat.zero_le _) hline, sum_two_eq h hline, List.drop_zero, ok_bind]
    cases chunkSize? (body.take lineEnd) with
    | none => rfl
    | some size =>
      cases size with
      | zero => rfl
      | succ size =>
        simp only [if_neg (Nat.succ_ne_zero size), dataAt_eq h hle]
        split <;> rfl

theorem decodeFrom_eq (acc : List Bytes) {turns : Nat} (ht : body.length < turns) :
    decodeFrom acc body turns = .ok (some (decodeChunkedFrom acc body)) := by
  induction turns generalizing acc body with
  | zero => exact absurd ht (Nat.not_lt_zero _)
  | succ turns ih =>
    rw [decodeFrom, chunk_eq h, ok_bind]
    cases hc : Http.chunk body with
    | last => rw [decodeChunkedFrom_of_last hc]; rfl
    | cut data => rw [decodeChunkedFrom_of_cut hc]; simp; rfl
    | whole data rest =>
      have hlt := length_lt_of_chunk hc
      rw [decodeChunkedFrom_of_whole hc]
      exact ih (by omega) (data :: acc) (by omega)

theorem decode_eq : decode body = .ok (some (decodeChunked body)) :=
  decodeFrom_eq h [] (Nat.lt_succ_self _)

end

end Checked

/-- Decoding any bytes ends without a fault, keeps what was decoded of fewer bytes, and adds
nothing to a body that is complete. -/
theorem decodeChunked_monotone (a b : Bytes) :
    (a.length ≤ Checked.maxLength → Checked.decode a = .ok (some (decodeChunked a))) ∧
    (decodeChunked a).1 <+: (decodeChunked (a ++ b)).1 ∧
    ((decodeChunked a).2 = true → decodeChunked (a ++ b) = decodeChunked a) :=
  ⟨Checked.decode_eq, decodeChunked_isPrefix a b, fun h => decodeChunked_append_of_done h b⟩

/-- A body with stray bytes for a line end and, behind its last line, a size near 2^64. -/
def stray : Bytes := Utf8.encode "3\r\nabcXY+0;\r\nfffffffffffffffe\r\n"

theorem decodeChunked_monotone_stray :
    stray.length ≤ Checked.maxLength ∧ (decodeChunked stray).2 = true ∧
    Checked.decode stray = .ok (some (decodeChunked stray)) ∧
    (decodeChunked stray).1 <+: (decodeChunked (stray ++ stray)).1 ∧
    decodeChunked (stray ++ stray) = decodeChunked stray := by
  have hlen : stray.length ≤ Checked.maxLength := by decide +kernel
  have hdone : (decodeChunked stray).2 = true := by decide +kernel
  obtain ⟨hchecked, hprefix, hstays⟩ := decodeChunked_monotone stray stray
  exact ⟨hlen, hdone, hchecked hlen, hprefix, hstays hdone⟩

end Wiretap.Http
