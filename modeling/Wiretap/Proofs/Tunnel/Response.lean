import Wiretap.Proofs.Http.Heads
import Wiretap.Tunnel.Exchange

/-!
# What is kept of a response

The head of a response is found once and kept, and the marker that ends a chunked
body is looked for in the last bytes only. Both come to the same as looking at
everything gathered since the buffer was last emptied (`append_eq`, `ends_iff`): the
head in hand is always that of the buffer, and the marker is never in a buffer that
is kept (`Sound`).
-/

namespace Wiretap.Http

/-- The status is one of 400 or above. -/
def ResponseHead.isError (h : ResponseHead) : Bool := 400 ≤ h.status.code

end Wiretap.Http

namespace Wiretap.Tunnel

namespace Response

/-- The head at the front of a buffer, if it is all there. -/
def headOf (buffer : Bytes) : Except Crash (Option Http.ResponseHead) :=
  match Http.headerEnd buffer with
  | none => .ok none
  | some n => (Http.ResponseHead.parse (buffer.take n)).map some

structure Sound (r : Response) : Prop where
  head : headOf r.buffer = .ok r.head
  unmarked : ¬ Http.lastChunk <:+: r.buffer

theorem sound_fresh : Sound fresh := ⟨rfl, by decide⟩

theorem headOf_eq_none {s : Bytes} (h : Http.headerEnd s = none) : headOf s = .ok none := by
  rw [headOf, h]

theorem headOf_eq_parse {s : Bytes} {n : Nat} (h : Http.headerEnd s = some n) :
    headOf s = (Http.ResponseHead.parse (s.take n)).map some := by
  rw [headOf, h]

theorem headOf_append {s : Bytes} (t : Bytes) {n : Nat} (h : Http.headerEnd s = some n) :
    headOf (s ++ t) = headOf s := by
  rw [headOf_eq_parse h, headOf_eq_parse (Http.headerEnd_append h),
    List.take_append_of_le_length (Http.headerEnd_le h)]

theorem headerEnd_of_headOf {s : Bytes} {h : Http.ResponseHead} (hs : headOf s = .ok (some h)) :
    ∃ n, Http.headerEnd s = some n ∧ Http.ResponseHead.parse (s.take n) = .ok h := by
  unfold headOf at hs
  split at hs
  · cases hs
  · rename_i n hn
    cases hp : Http.ResponseHead.parse (s.take n) with
    | error => rw [hp] at hs; cases hs
    | ok h' => rw [hp] at hs; cases hs; exact ⟨n, hn, hp⟩

theorem headOf_ok_of_append {s t : Bytes} {head : Option Http.ResponseHead}
    (h : headOf (s ++ t) = .ok head) : ∃ head', headOf s = .ok head' := by
  cases hn : Http.headerEnd s with
  | none => exact ⟨none, headOf_eq_none hn⟩
  | some n => exact ⟨head, (headOf_append t hn) ▸ h⟩

theorem headOf_eq_error_iff {s : Bytes} {crash : Crash} :
    headOf s = .error crash ↔ crash = .crowdedHead ∧ Http.Crowded s := by
  unfold headOf Http.Crowded
  cases hn : Http.headerEnd s with
  | none => simp
  | some n =>
    simp only [Option.some.injEq, exists_eq_left']
    rw [← Http.parse_eq_error_iff]
    cases Http.ResponseHead.parse (s.take n) <;> simp [Except.map]

theorem bodyStart_of_parse {head : Bytes} {h : Http.ResponseHead}
    (hp : Http.ResponseHead.parse head = .ok h) : h.bodyStart = head.length := by
  rw [Http.eq_stated_of_parse hp]
  rfl

/-- The head that is kept is the one that would be found anew. -/
theorem append_eq {r : Response} (hr : r.Sound) (chunk : Bytes) :
    r.append chunk = (headOf (r.buffer ++ chunk)).map fun head =>
      { r with buffer := r.buffer ++ chunk, head } := by
  cases hh : r.head with
  | none =>
    simp only [append, findHead, headOf, hh]
    cases Http.headerEnd (r.buffer ++ chunk) with
    | none => rfl
    | some n =>
      simp only
      cases Http.ResponseHead.parse ((r.buffer ++ chunk).take n) <;> rfl
  | some h =>
    obtain ⟨n, hn, -⟩ := headerEnd_of_headOf (hh ▸ hr.head)
    rw [headOf_append chunk hn, hr.head]
    unfold append findHead
    rw [hh]
    rfl

/-- Looking at the last bytes finds the marker wherever it stands. -/
theorem ends_iff {r : Response} (hr : ¬ Http.lastChunk <:+: r.buffer) (chunk : Bytes)
    (head : Option Http.ResponseHead) (reported : Bool) :
    ends ⟨r.buffer ++ chunk, head, reported⟩ chunk.length ↔
      Http.lastChunk <:+: r.buffer ++ chunk := by
  unfold ends
  rw [Bytes.isSome_find_iff Http.lastChunk_ne_nil]
  exact Bytes.infix_recent_iff hr

end Response

/-- The bytes of a response: a head that is read as `h`, and what follows it. -/
structure Headed (head body : Bytes) (h : Http.ResponseHead) : Prop where
  ends : Http.headerEnd (head ++ body) = some head.length
  parses : Http.ResponseHead.parse head = .ok h

namespace Headed

variable {head body : Bytes} {h : Http.ResponseHead}

/-- A head for whose fields there is room is read as what it says. -/
theorem of_not_crowded (hend : Http.headerEnd (head ++ body) = some head.length)
    (hroom : ¬ Http.Crowded (head ++ body)) : Headed head body (.stated head) where
  ends := hend
  parses := by
    cases hfits : Http.Headers.fits (Http.headFields head) with
    | true => rw [Http.parse_eq, if_pos hfits]
    | false => exact absurd ⟨head.length, hend, by rwa [List.take_left]⟩ hroom

theorem head_ne_nil (hd : Headed head body h) : head ≠ [] := by
  have hlen := Http.le_of_headerEnd hd.ends
  rintro rfl
  exact absurd hlen (by decide)

theorem headerEnd_of_isPrefix (hd : Headed head body h) {seen : Bytes}
    (hp : seen <+: head ++ body) :
    Http.headerEnd seen = if head.length ≤ seen.length then some head.length else none :=
  Http.headerEnd_of_isPrefix hp hd.ends

theorem headOf_of_isPrefix (hd : Headed head body h) {seen : Bytes} (hp : seen <+: head ++ body) :
    Response.headOf seen = .ok (if head.length ≤ seen.length then some h else none) := by
  split
  · rename_i hle
    have htake : seen.take head.length = head := by
      rw [← List.prefix_iff_eq_take.mp (List.prefix_of_prefix_length_le _ hp hle)]
      exact List.prefix_append head body
    have hend := hd.headerEnd_of_isPrefix hp
    rw [if_pos hle] at hend
    rw [Response.headOf_eq_parse hend, htake, hd.parses]
    rfl
  · rename_i hlt
    refine Response.headOf_eq_none ?_
    rw [hd.headerEnd_of_isPrefix hp, if_neg hlt]

theorem headOf_of_lt (hd : Headed head body h) {seen : Bytes} (hp : seen <+: head ++ body)
    (hlt : seen.length < head.length) : Response.headOf seen = .ok none := by
  rw [hd.headOf_of_isPrefix hp, if_neg (Nat.not_le_of_lt hlt)]

theorem headOf_of_le (hd : Headed head body h) {seen : Bytes} (hp : seen <+: head ++ body)
    (hle : head.length ≤ seen.length) : Response.headOf seen = .ok (some h) := by
  rw [hd.headOf_of_isPrefix hp, if_pos hle]

end Headed

end Wiretap.Tunnel
