import Wiretap.Http.Body
import Wiretap.Proofs.Occurrence

/-!
# Bodies that grow

What a chunk says is settled once all of it is there (`chunk_append_of_whole`,
`chunk_append_of_last`), so that data that has been decoded stays decoded when more
of the body arrives (`decodeChunked_isPrefix`), and a body that is complete stays as
it is (`decodeChunked_append_of_done`). The same holds of bodies of a given length
(`unframe_isPrefix`, `unframe_append_of_done`).
-/

namespace Wiretap.Http

theorem crlf_ne_nil : Bytes.crlf ≠ [] := by decide

/-- Where the data of a chunk begins, and its size. -/
def sizeLine? (body : Bytes) : Option (Nat × Nat) :=
  (Bytes.find body Bytes.crlf).bind fun lineEnd =>
    (chunkSize? (body.take lineEnd)).map fun size => (lineEnd + 2, size)

theorem sizeLine?_eq_some_iff {body : Bytes} {start size : Nat} :
    sizeLine? body = some (start, size) ↔ ∃ lineEnd, start = lineEnd + 2 ∧
      Bytes.find body Bytes.crlf = some lineEnd ∧ chunkSize? (body.take lineEnd) = some size := by
  unfold sizeLine?
  rw [Option.bind_eq_some_iff]
  constructor
  · rintro ⟨lineEnd, hf, hs⟩
    obtain ⟨size', hs, heq⟩ := Option.map_eq_some_iff.mp hs
    cases heq
    exact ⟨lineEnd, rfl, hf, hs⟩
  · rintro ⟨lineEnd, rfl, hf, hs⟩
    exact ⟨lineEnd, hf, by rw [hs]; rfl⟩

theorem sizeLine?_le {body : Bytes} {start size : Nat} (h : sizeLine? body = some (start, size)) :
    start ≤ body.length := by
  obtain ⟨lineEnd, rfl, hf, -⟩ := sizeLine?_eq_some_iff.mp h
  exact Bytes.add_length_le_of_find crlf_ne_nil hf

theorem sizeLine?_append {body : Bytes} {start size : Nat}
    (h : sizeLine? body = some (start, size)) (t : Bytes) :
    sizeLine? (body ++ t) = some (start, size) := by
  have hle := sizeLine?_le h
  obtain ⟨lineEnd, rfl, hf, hs⟩ := sizeLine?_eq_some_iff.mp h
  refine sizeLine?_eq_some_iff.mpr ⟨lineEnd, rfl, Bytes.find_append crlf_ne_nil hf, ?_⟩
  rwa [List.take_append_of_le_length (by omega)]

/-- A chunk by its size line. -/
theorem chunk_eq (body : Bytes) :
    chunk body = match sizeLine? body with
      | none => .cut []
      | some (_, 0) => .last
      | some (start, size) =>
        if Number.word64 < start + size then .cut []
        else
          match (body.drop start).drop size with
          | _ :: _ :: rest => .whole ((body.drop start).take size) rest
          | _ => .cut ((body.drop start).take size) := by
  unfold chunk sizeLine?
  cases Bytes.find body Bytes.crlf with
  | none => rfl
  | some lineEnd =>
    simp only [Option.bind_some]
    cases chunkSize? (body.take lineEnd) with
    | none => rfl
    | some size => cases size <;> rfl

theorem chunk_eq_cut_of_none {body : Bytes} (h : sizeLine? body = none) : chunk body = .cut [] := by
  rw [chunk_eq, h]

theorem chunk_eq_last {body : Bytes} {start : Nat} (h : sizeLine? body = some (start, 0)) :
    chunk body = .last := by
  rw [chunk_eq, h]
  rfl

theorem chunk_eq_sized {body : Bytes} {start size : Nat}
    (h : sizeLine? body = some (start, size + 1)) (hfit : start + (size + 1) ≤ Number.word64) :
    chunk body = match (body.drop start).drop (size + 1) with
      | _ :: _ :: rest => .whole ((body.drop start).take (size + 1)) rest
      | _ => .cut ((body.drop start).take (size + 1)) := by
  rw [chunk_eq, h]
  exact if_neg (by omega)

theorem chunk_eq_cut_of_large {body : Bytes} {start size : Nat}
    (h : sizeLine? body = some (start, size + 1)) (hfit : Number.word64 < start + (size + 1)) :
    chunk body = .cut [] := by
  rw [chunk_eq, h]
  exact if_pos hfit

/-- What the front of a body can be. -/
theorem chunk_cases (body : Bytes) :
    (chunk body = .cut []) ∨ (∃ start, sizeLine? body = some (start, 0) ∧ chunk body = .last) ∨
      ∃ start size, sizeLine? body = some (start, size + 1) ∧ start + (size + 1) ≤ Number.word64 ∧
        ((∃ b₁ b₂ rest, (body.drop start).drop (size + 1) = b₁ :: b₂ :: rest ∧
            chunk body = .whole ((body.drop start).take (size + 1)) rest) ∨
          ((body.drop start).drop (size + 1)).length < 2 ∧
            chunk body = .cut ((body.drop start).take (size + 1))) := by
  cases h : sizeLine? body with
  | none => exact .inl (chunk_eq_cut_of_none h)
  | some p =>
    obtain ⟨start, size⟩ := p
    cases size with
    | zero => exact .inr (.inl ⟨start, rfl, chunk_eq_last h⟩)
    | succ size =>
      by_cases hfit : start + (size + 1) ≤ Number.word64
      · refine .inr (.inr ⟨start, size, rfl, hfit, ?_⟩)
        have hc := chunk_eq_sized h hfit
        rcases hd : (body.drop start).drop (size + 1) with _ | ⟨b₁, _ | ⟨b₂, rest⟩⟩ <;>
          rw [hd] at hc
        · exact .inr ⟨Nat.zero_lt_two, hc⟩
        · exact .inr ⟨Nat.one_lt_two, hc⟩
        · exact .inl ⟨b₁, b₂, rest, rfl, hc⟩
      · exact .inl (chunk_eq_cut_of_large h (by omega))

theorem chunk_append_of_last {body : Bytes} (h : chunk body = .last) (t : Bytes) :
    chunk (body ++ t) = .last := by
  rcases chunk_cases body with hc | ⟨start, hs, -⟩ | ⟨_, _, _, _, ⟨_, _, _, _, hc⟩ | ⟨_, hc⟩⟩
  · rw [hc] at h; cases h
  · exact chunk_eq_last (sizeLine?_append hs t)
  · rw [hc] at h; cases h
  · rw [hc] at h; cases h

theorem chunk_append_of_whole {body data rest : Bytes} (h : chunk body = .whole data rest)
    (t : Bytes) : chunk (body ++ t) = .whole data (rest ++ t) := by
  rcases chunk_cases body with
    hc | ⟨_, _, hc⟩ | ⟨start, size, hs, hfit, ⟨b₁, b₂, r, hd, hc⟩ | ⟨_, hc⟩⟩
  · rw [hc] at h; cases h
  · rw [hc] at h; cases h
  · rw [hc] at h
    cases h
    have hle := sizeLine?_le hs
    have hlen := congrArg List.length hd
    simp only [List.length_drop, List.length_cons] at hlen
    rw [chunk_eq_sized (sizeLine?_append hs t) hfit, List.drop_append_of_le_length hle,
      List.drop_append_of_le_length (by rw [List.length_drop]; omega), hd,
      List.take_append_of_le_length (by rw [List.length_drop]; omega)]
    rfl
  · rw [hc] at h; cases h

/-- The data of a chunk that is cut are where those of the chunk begin. -/
theorem chunk_append_of_cut {body data : Bytes} (h : chunk body = .cut data) (t : Bytes) :
    data = [] ∨ ∃ data', data <+: data' ∧
      (chunk (body ++ t) = .cut data' ∨ ∃ rest, chunk (body ++ t) = .whole data' rest) := by
  rcases chunk_cases body with hc | ⟨_, _, hc⟩ | ⟨start, size, hs, hfit, ⟨_, _, _, _, hc⟩ | ⟨_, hc⟩⟩
  · rw [hc] at h; cases h; exact .inl rfl
  · rw [hc] at h; cases h
  · rw [hc] at h; cases h
  · rw [hc] at h
    cases h
    right
    refine ⟨((body ++ t).drop start).take (size + 1), ?_, ?_⟩
    · rw [List.drop_append_of_le_length (sizeLine?_le hs), List.take_append]
      exact List.prefix_append _ _
    · rw [chunk_eq_sized (sizeLine?_append hs t) hfit]
      split
      · exact .inr ⟨_, rfl⟩
      · exact .inl rfl

theorem decodeChunkedFrom_of_last {body : Bytes} (h : chunk body = .last) (acc : List Bytes) :
    decodeChunkedFrom acc body = (acc.reverse.flatten, true) := by
  rw [decodeChunkedFrom]
  split <;> simp_all

theorem decodeChunkedFrom_of_cut {body data : Bytes} (h : chunk body = .cut data)
    (acc : List Bytes) :
    decodeChunkedFrom acc body = (acc.reverse.flatten ++ data, false) := by
  rw [decodeChunkedFrom]
  split <;> simp_all

theorem decodeChunkedFrom_of_whole {body data rest : Bytes} (h : chunk body = .whole data rest)
    (acc : List Bytes) : decodeChunkedFrom acc body = decodeChunkedFrom (data :: acc) rest := by
  rw [decodeChunkedFrom]
  split <;> simp_all

theorem decodeChunkedFrom_eq (acc : List Bytes) (body : Bytes) :
    decodeChunkedFrom acc body =
      (acc.reverse.flatten ++ (decodeChunked body).1, (decodeChunked body).2) := by
  induction hn : body.length using Nat.strong_induction_on generalizing acc body with
  | _ n ih =>
    subst hn
    unfold decodeChunked
    cases h : chunk body with
    | last => simp [decodeChunkedFrom_of_last h]
    | cut data => simp [decodeChunkedFrom_of_cut h]
    | whole data rest =>
      rw [decodeChunkedFrom_of_whole h, decodeChunkedFrom_of_whole h,
        ih _ (length_lt_of_chunk h) _ rest rfl, ih _ (length_lt_of_chunk h) [data] rest rfl]
      simp

theorem decodeChunked_of_last {body : Bytes} (h : chunk body = .last) :
    decodeChunked body = ([], true) := by
  rw [decodeChunked, decodeChunkedFrom_of_last h]
  rfl

theorem decodeChunked_of_cut {body data : Bytes} (h : chunk body = .cut data) :
    decodeChunked body = (data, false) := by
  rw [decodeChunked, decodeChunkedFrom_of_cut h]
  rfl

theorem decodeChunked_of_whole {body data rest : Bytes} (h : chunk body = .whole data rest) :
    decodeChunked body = (data ++ (decodeChunked rest).1, (decodeChunked rest).2) := by
  rw [decodeChunked, decodeChunkedFrom_of_whole h, decodeChunkedFrom_eq]
  simp

theorem decodeChunked_isPrefix (body t : Bytes) :
    (decodeChunked body).1 <+: (decodeChunked (body ++ t)).1 := by
  induction hn : body.length using Nat.strong_induction_on generalizing body with
  | _ n ih =>
    subst hn
    cases h : chunk body with
    | last => simp [decodeChunked_of_last h]
    | cut data =>
      rw [decodeChunked_of_cut h]
      rcases chunk_append_of_cut h t with rfl | ⟨data', hp, hc | ⟨rest, hc⟩⟩
      · exact List.nil_prefix
      · rwa [decodeChunked_of_cut hc]
      · rw [decodeChunked_of_whole hc]
        exact hp.trans (List.prefix_append _ _)
    | whole data rest =>
      rw [decodeChunked_of_whole h, decodeChunked_of_whole (chunk_append_of_whole h t)]
      exact (List.prefix_append_right_inj data).mpr (ih _ (length_lt_of_chunk h) rest rfl)

theorem decodeChunked_append_of_done {body : Bytes} (h : (decodeChunked body).2 = true)
    (t : Bytes) : decodeChunked (body ++ t) = decodeChunked body := by
  induction hn : body.length using Nat.strong_induction_on generalizing body with
  | _ n ih =>
    subst hn
    cases hc : chunk body with
    | last => rw [decodeChunked_of_last hc, decodeChunked_of_last (chunk_append_of_last hc t)]
    | cut data => rw [decodeChunked_of_cut hc] at h; cases h
    | whole data rest =>
      rw [decodeChunked_of_whole hc] at h ⊢
      rw [decodeChunked_of_whole (chunk_append_of_whole hc t),
        ih _ (length_lt_of_chunk hc) h rfl]

/-! ## Either framing -/

theorem unframe_isPrefix (body t : Bytes) (h : Headers) :
    (unframe body h).1 <+: (unframe (body ++ t) h).1 := by
  unfold unframe
  split
  · exact decodeChunked_isPrefix body t
  · cases h.length? with
    | none => exact List.prefix_append body t
    | some n =>
      simp only [List.take_append]
      exact List.prefix_append _ _

theorem unframe_append_of_done {body : Bytes} {h : Headers} (hd : (unframe body h).2 = true)
    (t : Bytes) : unframe (body ++ t) h = unframe body h := by
  unfold unframe at hd ⊢
  split at hd
  · rename_i hc
    rw [if_pos hc, if_pos hc, decodeChunked_append_of_done hd]
  · rename_i hc
    rw [if_neg hc, if_neg hc]
    cases hl : h.length? with
    | none => rw [hl] at hd; cases hd
    | some n =>
      rw [hl] at hd
      have hle : n ≤ body.length := of_decide_eq_true hd
      simp only [List.take_append_of_le_length hle, List.length_append]
      simp [hle, Nat.le_add_right_of_le hle]

end Wiretap.Http
