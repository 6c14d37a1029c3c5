import Wiretap.Proofs.Http.Marker
import Wiretap.Proofs.Tunnel.Receive
import Wiretap.Tap.Stream

/-!
# When a response is forgotten

What was gathered of a response is forgotten at the first read with which the marker
comes that ends a chunked body (`resetsAtEnd_iff`). However a chunked response without
the marker in its payload is cut, this is the read that brings its last byte exactly
if the parts of the response do not form the marker by chance (`resetsAtEnd_iff_clean`).
-/

namespace Wiretap.Tunnel

namespace Exchange

variable {σ : Type}

/-- Until the last read all that was read is kept, and after it nothing is. -/
def ResetsAtEnd (i : Interceptor σ) (e : Exchange σ) (chunks : List Bytes) : Prop :=
  (∀ before after, chunks = before ++ after → after ≠ [] → ∃ outs e',
    e.receive i before = .ok (outs, e') ∧ e'.response.buffer = before.flatten) ∧
  ∃ outs e', e.receive i chunks = .ok (outs, e') ∧ e'.response = .fresh

/-- What one more read makes of the response. -/
theorem receive_concat (i : Interceptor σ) {e e₁ : Exchange σ} (hs : e.response.Sound)
    {before : List Bytes} {outs : List (List Envelope)} (hr : e.receive i before = .ok (outs, e₁))
    (last : Bytes) {head : Option Http.ResponseHead}
    (hh : Response.headOf (e₁.response.buffer ++ last) = .ok head) :
    ∃ outs' e' reported, e.receive i (before ++ [last]) = .ok (outs', e') ∧
      e'.response = Response.keep (e₁.response.buffer ++ last) head reported := by
  obtain ⟨published, e', reported, hstep, hresp⟩ :=
    fromOrigin_response i (receive_sound hs hr) last hh
  exact ⟨_, e', reported, receive_append_ok.mpr ⟨_, _, _, hr,
    receive_cons_ok.mpr ⟨_, _, _, hstep, rfl, rfl⟩, rfl⟩, hresp⟩

/-- While no marker comes all is kept. -/
theorem receive_kept (i : Interceptor σ) {e : Exchange σ} (hf : e.response = .fresh)
    {before after : List Bytes} (hu : Response.marked (before ++ after).flatten = false) {t : Bytes}
    {head : Option Http.ResponseHead}
    (hh : Response.headOf ((before ++ after).flatten ++ t) = .ok head) :
    ∃ outs e', e.receive i before = .ok (outs, e') ∧ e'.response.buffer = before.flatten := by
  have hempty : e.response.buffer = [] := by rw [hf]; rfl
  rw [List.flatten_append, List.append_assoc] at hh
  rw [List.flatten_append] at hu
  obtain ⟨head', hh'⟩ := Response.headOf_ok_of_append hh
  have hu' := Response.marked_eq_false_of_append hu
  rw [← List.nil_append before.flatten, ← hempty] at hh' hu' ⊢
  exact receive_unmarked i (hf ▸ Response.sound_fresh) hu' hh'

theorem resetsAtEnd_concat_iff (i : Interceptor σ) {e : Exchange σ} (hf : e.response = .fresh)
    (before : List Bytes) {last : Bytes} (hlast : last ≠ [])
    (hfit : ¬ Http.Crowded (before.flatten ++ last)) :
    ResetsAtEnd i e (before ++ [last]) ↔
      Response.marked (before.flatten ++ last) = true ∧ Response.marked before.flatten = false := by
  have hsound : e.response.Sound := hf ▸ Response.sound_fresh
  obtain ⟨head, hh⟩ : ∃ head, Response.headOf (before.flatten ++ last) = .ok head := by
    cases hh : Response.headOf (before.flatten ++ last) with
    | error crash => exact absurd (Response.headOf_eq_error_iff.mp hh).2 hfit
    | ok head => exact ⟨head, rfl⟩
  constructor
  · rintro ⟨hkept, outs, e', hall, hfresh⟩
    obtain ⟨outs₁, e₁, hr, hbuf⟩ := hkept before [last] rfl (by simp)
    obtain ⟨outs₂, e₂, reported, hall₂, hresp⟩ := receive_concat i hsound hr last (hbuf ▸ hh)
    cases hall.symm.trans hall₂
    rw [hfresh, hbuf] at hresp
    refine ⟨?_, ?_⟩
    · by_contra hm
      rw [Bool.not_eq_true] at hm
      rw [Response.keep_of_unmarked hm] at hresp
      have hnil := congrArg Response.buffer hresp
      simp [Response.fresh, hlast] at hnil
    · rw [Response.marked_eq_false_iff, ← hbuf]
      exact (receive_sound hsound hr).unmarked
  · rintro ⟨hm, hu⟩
    refine ⟨fun b a hsplit hne => ?_, ?_⟩
    · obtain rfl | ⟨a', x, rfl⟩ := List.eq_nil_or_concat' a
      · exact absurd rfl hne
      · rw [← List.append_assoc] at hsplit
        obtain rfl := (List.append_inj' hsplit rfl).1
        exact receive_kept i hf hu hh
    · rw [← List.append_nil before] at hu hh
      obtain ⟨outs₁, e₁, hr, hbuf⟩ := receive_kept i hf hu hh
      rw [List.append_nil] at hh
      obtain ⟨outs, e', reported, hall, hresp⟩ := receive_concat i hsound hr last (hbuf ▸ hh)
      exact ⟨outs, e', hall, by rw [hresp, Response.keep_of_marked (hbuf ▸ hm)]⟩

/-- The read that brings the last byte of a chunked response is the one after which the response
is forgotten, however it is cut, exactly if the response is clean. -/
theorem resetsAtEnd_iff_clean {r : Http.ChunkedResponse} (h : r.WellFormed)
    (hu : ¬ Http.lastChunk <:+: r.payload) (hfit : ¬ Http.Crowded r.bytes) (i : Interceptor σ)
    {e : Exchange σ} (hf : e.response = .fresh) :
    (∀ chunks, (∀ c ∈ chunks, c ≠ []) → chunks.flatten = r.bytes → ResetsAtEnd i e chunks) ↔
      r.Clean := by
  rw [← Http.ChunkedResponse.marker_at_end_iff h hu]
  constructor
  · intro hall
    -- cut before its last byte, a response that is not clean ends too early or not at all
    have hconcat := r.dropLast_concat_bytes
    have hne := r.dropLast_bytes_ne_nil
    have hresets := hall ([r.bytes.dropLast] ++ [[Bytes.lf]]) (by simp [hne]) (by simp [hconcat])
    rw [resetsAtEnd_concat_iff i hf _ (by simp) (by simpa [hconcat] using hfit),
      List.flatten_singleton, hconcat, Response.marked_iff, Response.marked_eq_false_iff] at hresets
    exact hresets
  · rintro ⟨hin, hnot⟩ chunks hne hall
    obtain rfl | ⟨before, last, rfl⟩ := List.eq_nil_or_concat' chunks
    · exact absurd (hall ▸ rfl) r.dropLast_bytes_ne_nil
    · have hlast := hne last (by simp)
      rw [List.flatten_append, List.flatten_singleton] at hall
      rw [resetsAtEnd_concat_iff i hf before hlast (hall ▸ hfit), hall, Response.marked_iff,
        Response.marked_eq_false_iff]
      refine ⟨hin, fun hin' => hnot (hin'.trans ?_)⟩
      rw [← hall, List.dropLast_append_of_ne_nil hlast]
      exact List.infix_append_left

def okLine : Bytes := Utf8.encode "HTTP/1.1 200 OK"

def hello : Http.Written := ⟨Utf8.encode "5", Utf8.encode "hello"⟩

def zeroLine : Bytes := Utf8.encode "0"

/-- A response of one chunk with these fields. -/
def oneChunk (fields : List Bytes) : Http.ChunkedResponse := ⟨okLine, fields, [hello], zeroLine, []⟩

theorem wellFormed_oneChunk {fields : List Bytes} (h : ∀ l ∈ fields, Http.IsLine l) :
    (oneChunk fields).WellFormed where
  status := show Http.IsLine okLine by decide +kernel
  fields := h
  lines := List.forall_mem_singleton.mpr (by decide +kernel)
  sizes := List.forall_mem_singleton.mpr
    (Http.isSizeLine_of_digits (by decide +kernel) (by decide +kernel))
  nonempty := List.forall_mem_singleton.mpr (by decide +kernel)
  last := show Http.IsLine zeroLine by decide +kernel
  zero := show Http.IsSizeLine zeroLine 0 from
    Http.isSizeLine_of_digits (by decide +kernel) (by decide +kernel)
  trailers := nofun

def announced : Bytes := Utf8.encode "Transfer-Encoding: chunked"

def aged : Bytes := Utf8.encode "Age: 10"

/-- A connection on which nothing has been read. -/
def untouched : Exchange Tap.Stream :=
  .fresh (Tap.Stream.interceptor false false) "localhost" []

theorem resetsAtEnd_iff_clean_announced :
    (oneChunk [announced]).WellFormed ∧ ¬ Http.lastChunk <:+: (oneChunk [announced]).payload ∧
    ¬ Http.Crowded (oneChunk [announced]).bytes ∧
    ((∀ chunks, (∀ c ∈ chunks, c ≠ []) → chunks.flatten = (oneChunk [announced]).bytes →
      ResetsAtEnd (Tap.Stream.interceptor false false) untouched chunks) ↔
        (oneChunk [announced]).Clean) := by
  have hw : (oneChunk [announced]).WellFormed := wellFormed_oneChunk (by decide +kernel)
  have hu : ¬ Http.lastChunk <:+: (oneChunk [announced]).payload := by decide +kernel
  have hfit : ¬ Http.Crowded (oneChunk [announced]).bytes := by decide +kernel
  exact ⟨hw, hu, hfit, resetsAtEnd_iff_clean hw hu hfit _ rfl⟩

/-- Behind a head whose last value ends in a zero all is forgotten before the body comes. -/
theorem not_resetsAtEnd_aged :
    (oneChunk [announced, aged]).WellFormed ∧
    ¬ Http.lastChunk <:+: (oneChunk [announced, aged]).payload ∧
    ¬ Http.Crowded (oneChunk [announced, aged]).bytes ∧
    [(oneChunk [announced, aged]).head, (oneChunk [announced, aged]).body].flatten =
      (oneChunk [announced, aged]).bytes ∧
    ¬ ResetsAtEnd (Tap.Stream.interceptor false false) untouched
      [(oneChunk [announced, aged]).head, (oneChunk [announced, aged]).body] := by
  refine ⟨wellFormed_oneChunk (by decide +kernel), by decide +kernel, by decide +kernel,
    by decide +kernel, ?_⟩
  rintro ⟨hkept, -⟩
  obtain ⟨outs, e', hr, hbuf⟩ := hkept [_] [_] rfl (by simp)
  have hforgot : (untouched.receive (Tap.Stream.interceptor false false)
      [(oneChunk [announced, aged]).head]).toOption.map (·.2.response.buffer) = some [] := by
    decide +kernel
  rw [hr] at hforgot
  cases (Option.some.inj hforgot).symm.trans hbuf

end Exchange

end Wiretap.Tunnel
