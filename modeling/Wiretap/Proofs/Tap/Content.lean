import Wiretap.Proofs.Http.Growth
import Wiretap.Proofs.Tap.Reading

/-!
# Texts of bodies that grow

A body that is cut gives a text with which the reading of the whole text can begin
(`content_continues`). Of the way in which a payload is compressed this takes that a
payload that is cut yields where the whole one begins (`Expands`); one that is not
compressed always does (`expands_plain`). How a payload is compressed may not be
known before its second byte, and until then no frame has come.
-/

namespace Wiretap

namespace Http

/-- A payload without a compression. -/
def Coding.expand : Coding → Bytes → Bytes
  | .gzip => Inflate.gunzip
  | .zlib => Inflate.unzlib
  | .plain => id

theorem decompress_eq (payload : Bytes) (h : Headers) :
    decompress payload h = (coding payload h).expand payload := by
  unfold decompress
  cases coding payload h <;> rfl

/-- What comes of a payload that is cut is where what comes of it begins. -/
def Expands (c : Coding) (payload : Bytes) : Prop :=
  ∀ p q, p <+: q → q <+: payload → c.expand p <+: c.expand q

theorem expands_plain (payload : Bytes) : Expands .plain payload := fun _ _ h _ => h

theorem isGzip_of_isPrefix {p payload : Bytes} (hp : p <+: payload) :
    Inflate.isGzip p = Inflate.isGzip payload ∨ p.length < 2 := by
  obtain ⟨t, rfl⟩ := hp
  rcases p with _ | ⟨a, _ | ⟨b, rest⟩⟩
  · exact .inr Nat.zero_lt_two
  · exact .inr Nat.one_lt_two
  · left
    unfold Inflate.isGzip
    split <;> simp_all

/-- The first two bytes tell the compression. -/
theorem coding_of_isPrefix {p payload : Bytes} (hp : p <+: payload) (h : Headers) :
    coding p h = coding payload h ∨ coding p h = .plain ∧ p.length < 2 := by
  unfold coding
  cases (h.first? contentEncoding).bind Headers.visible? with
  | some _ => exact .inl rfl
  | none =>
    rcases isGzip_of_isPrefix hp with heq | hlen
    · exact .inl (by simp only [heq])
    · have hplain : Inflate.isGzip p = false := by
        rcases p with _ | ⟨a, _ | ⟨b, rest⟩⟩
        · rfl
        · simp [Inflate.isGzip]
        · exact absurd hlen (by simp)
      exact .inr ⟨by simp [hplain], hlen⟩

theorem coding_between {p p' payload : Bytes} (hp : p <+: p') (hp' : p' <+: payload) {h : Headers}
    (heq : coding p h = coding payload h) : coding p' h = coding payload h := by
  rcases coding_of_isPrefix hp' h with heq' | ⟨hplain, -⟩
  · exact heq'
  · rcases coding_of_isPrefix hp h with hpp | ⟨hplain', -⟩
    · exact hpp.symm.trans heq
    · rw [hplain, ← hplain', heq]

end Http

namespace Tap

theorem scan_of_short {text : Bytes} (h : text.length < opening.length + closing.length) :
    scan text = ⟨[], 0⟩ := by
  cases hn : next text with
  | none => exact scan_of_none hn
  | some f =>
    obtain ⟨before, heq, -, -, hlen⟩ := next_eq_some hn
    rw [heq, List.length_append, List.length_append] at h
    omega

namespace Stream

open Http

/-- The text of a body that is cut is where that of a longer one begins, or too short for
a frame. -/
theorem content_of_isPrefix {body : Bytes} {h : Headers}
    (hexp : Expands (coding (unframe body h).1 h) (unframe body h).1) {b b' : Bytes}
    (hb : b <+: b') (hb' : b' <+: body) :
    (content b h).1 <+: (content b' h).1 ∨ (content b h).1.length < 2 := by
  obtain ⟨t, rfl⟩ := hb
  obtain ⟨t', rfl⟩ := hb'
  have hp := unframe_isPrefix b t h
  have hp' := unframe_isPrefix (b ++ t) t' h
  simp only [content, decompress_eq]
  rcases coding_of_isPrefix (hp.trans hp') h with heq | ⟨hplain, hlen⟩
  · left
    rw [coding_between hp hp' heq, heq]
    obtain ⟨u, hu⟩ := hexp _ _ hp hp'
    rw [← hu]
    exact Utf8.validPart_isPrefix _ u
  · right
    rw [hplain]
    exact Nat.lt_of_le_of_lt (List.length_take_le' _ _) hlen

/-- The text of a complete body stays as it is. -/
theorem content_append_of_done {body : Bytes} {h : Headers} (hd : (unframe body h).2 = true)
    (t : Bytes) : content (body ++ t) h = content body h := by
  simp only [content, unframe_append_of_done hd]

theorem content_continues {body : Bytes} {h : Headers}
    (hexp : Expands (coding (unframe body h).1 h) (unframe body h).1) {b b' : Bytes}
    (hb : b <+: b') (hb' : b' <+: body) : Continues (content b h).1 (content b' h).1 := by
  rcases content_of_isPrefix hexp hb hb' with hp | hlen
  · exact .inl hp
  · exact .inr (scan_of_short (Nat.lt_trans hlen (by decide)))

theorem content_length_le {body : Bytes} {h : Headers}
    (hexp : Expands (coding (unframe body h).1 h) (unframe body h).1) {b : Bytes}
    (hb : b <+: body) (hfit : (content body h).1.length ≤ maxBacklog) :
    (content b h).1.length ≤ maxBacklog := by
  rcases content_of_isPrefix hexp hb List.prefix_rfl with hp | hlen
  · exact hp.length_le.trans hfit
  · exact (Nat.le_of_lt hlen).trans (by decide)

end Stream

end Tap

end Wiretap
