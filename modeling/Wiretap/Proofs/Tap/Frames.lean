import Mathlib.Data.List.TakeWhile
import Wiretap.Proofs.Occurrence
import Wiretap.Tap.Frame

/-!
# Frames of a text that grows

A frame that has been found stays where it is when the text grows (`next_append`), so
the frames of a longer text are those of the shorter one and then those that begin
behind them (`scan_append`).
-/

namespace Wiretap.Tap

theorem lf_notMem_closing : Bytes.lf ∉ closing := by decide

theorem lf_notMem_opening : Bytes.lf ∉ opening := by decide

theorem closeFrom_le {n k : Nat} {text : Bytes} (h : closeFrom n text = some k) :
    n + closing.length ≤ k ∧ k ≤ n + text.length := by
  induction text generalizing n with
  | nil => cases h
  | cons b rest ih =>
    simp only [closeFrom, List.isPrefixOf_iff_prefix] at h
    split at h
    · rename_i hp
      cases h
      exact ⟨Nat.le_refl _, Nat.add_le_add_left hp.length_le n⟩
    · split at h
      · cases h
      · have := ih h
        rw [List.length_cons]
        omega

theorem closeFrom_append {n k : Nat} {text : Bytes} (h : closeFrom n text = some k) (t : Bytes) :
    closeFrom n (text ++ t) = some k := by
  induction text generalizing n with
  | nil => cases h
  | cons b rest ih =>
    have hlen : closing.length ≤ (b :: rest).length := by
      have := closeFrom_le h
      omega
    have hp : closing <+: b :: (rest ++ t) ↔ closing <+: b :: rest :=
      List.isPrefix_append_of_length hlen
    simp only [List.cons_append, closeFrom, List.isPrefixOf_iff_prefix, hp] at h ⊢
    split at h
    · rw [if_pos ‹_›, h]
    · rw [if_neg ‹_›]
      split at h
      · cases h
      · rw [if_neg ‹_›]
        exact ih h

/-- A line that has ended without a closing will not get one. -/
theorem closeFrom_append_of_line {n : Nat} {text : Bytes} (hlf : Bytes.lf ∈ text)
    (h : closeFrom n text = none) (t : Bytes) : closeFrom n (text ++ t) = none := by
  induction text generalizing n with
  | nil => cases hlf
  | cons b rest ih =>
    rw [List.cons_append]
    simp only [closeFrom, List.isPrefixOf_iff_prefix] at h ⊢
    split at h
    · cases h
    · rename_i hp
      have hp' : ¬ closing <+: b :: (rest ++ t) := by
        intro hq
        rcases List.prefix_or_prefix_of_prefix hq (List.prefix_append (b :: rest) t) with hc | hc
        · exact hp hc
        · exact lf_notMem_closing (hc.mem hlf)
      rw [if_neg hp']
      split at h
      · rename_i hb
        rw [if_pos hb]
      · rename_i hb
        rw [if_neg hb]
        exact ih ((List.mem_cons.mp hlf).resolve_left (Ne.symm hb)) h

theorem frameLength_of_opening {text : Bytes} (h : opening <+: text) :
    frameLength text = closeFrom opening.length (text.drop opening.length) :=
  if_pos (List.isPrefixOf_iff_prefix.mpr h)

theorem frameLength_le {n : Nat} {text : Bytes} (h : frameLength text = some n) :
    opening.length + closing.length ≤ n ∧ n ≤ text.length := by
  simp only [frameLength, List.isPrefixOf_iff_prefix] at h
  split at h
  · rename_i hp
    have := closeFrom_le h
    have := hp.length_le
    rw [List.length_drop] at *
    omega
  · cases h

theorem frameLength_append {n : Nat} {text : Bytes} (h : frameLength text = some n) (t : Bytes) :
    frameLength (text ++ t) = some n := by
  simp only [frameLength, List.isPrefixOf_iff_prefix] at h ⊢
  split at h
  · rename_i hp
    rw [if_pos (hp.trans (List.prefix_append text t)), List.drop_append_of_le_length hp.length_le]
    exact closeFrom_append h t
  · cases h

theorem frameLength_append_of_line {text : Bytes} (hlf : Bytes.lf ∈ text) (ho : opening <+: text)
    (h : frameLength text = none) (t : Bytes) : frameLength (text ++ t) = none := by
  obtain ⟨line, rfl⟩ := ho
  have hline : Bytes.lf ∈ line :=
    (List.mem_append.mp hlf).resolve_left lf_notMem_opening
  rw [frameLength_of_opening (List.prefix_append _ _), List.drop_left] at h
  rw [List.append_assoc, frameLength_of_opening (List.prefix_append _ _), List.drop_left]
  exact closeFrom_append_of_line hline h t

/-- A frame ends as a closing does. -/
theorem closing_suffix_of_closeFrom {n k : Nat} {text : Bytes} (h : closeFrom n text = some k) :
    closing <:+ text.take (k - n) := by
  induction text generalizing n with
  | nil => cases h
  | cons b rest ih =>
    have hk := closeFrom_le h
    simp only [closeFrom, List.isPrefixOf_iff_prefix] at h
    split at h
    · rename_i hp
      cases h
      rw [Nat.add_sub_cancel_left, ← List.prefix_iff_eq_take.mp hp]
    · split at h
      · cases h
      · have hk' := closeFrom_le h
        rw [show k - n = k - (n + 1) + 1 by omega, List.take_succ_cons]
        exact (ih h).trans (List.suffix_cons b _)

/-- Where a line has a closing, the first one is found. -/
theorem closeFrom_of_closing {body : Bytes} (hclose : closing <:+ body) (hlf : Bytes.lf ∉ body)
    (n : Nat) (t : Bytes) : ∃ k, closeFrom n (body ++ t) = some k ∧ k ≤ n + body.length := by
  induction body generalizing n with
  | nil => exact absurd (List.suffix_nil.mp hclose) (by decide)
  | cons b rest ih =>
    rw [List.mem_cons, not_or] at hlf
    rw [List.cons_append]
    simp only [closeFrom, List.isPrefixOf_iff_prefix, if_neg (Ne.symm hlf.1)]
    split
    · exact ⟨_, rfl, Nat.add_le_add_left hclose.length_le n⟩
    · rename_i hp
      have hbehind : closing <:+ rest := by
        refine (List.suffix_cons_iff.mp hclose).resolve_left fun heq => hp ?_
        rw [heq]
        exact List.prefix_append (b :: rest) t
      obtain ⟨k, hk, hle⟩ := ih hbehind hlf.2 (n + 1)
      exact ⟨k, hk, by rw [List.length_cons]; omega⟩

theorem closing_suffix_of_frameLength {n : Nat} {text : Bytes} (h : frameLength text = some n) :
    closing <:+ text.take n := by
  simp only [frameLength, List.isPrefixOf_iff_prefix] at h
  split at h
  · have hs := closing_suffix_of_closeFrom h
    rw [← List.drop_take] at hs
    exact hs.trans (List.drop_suffix _ _)
  · cases h

/-! ## The next frame -/

theorem nextFrom_of_frame {b : UInt8} {rest : Bytes} {n : Nat} (ho : opening <+: b :: rest)
    (h : frameLength (b :: rest) = some n) (skipped : Nat) :
    nextFrom skipped (b :: rest) = some ⟨skipped, (b :: rest).take n, (b :: rest).drop n⟩ := by
  rw [nextFrom, if_pos (List.isPrefixOf_iff_prefix.mpr ho), h]

theorem nextFrom_of_line {b : UInt8} {rest : Bytes} (ho : opening <+: b :: rest)
    (h : frameLength (b :: rest) = none) (skipped : Nat) :
    nextFrom skipped (b :: rest) =
      nextFrom (skipped + 1 + (rest.takeWhile (· != Bytes.lf)).length)
        (rest.dropWhile (· != Bytes.lf)) := by
  rw [nextFrom, if_pos (List.isPrefixOf_iff_prefix.mpr ho), h]

theorem nextFrom_of_other {b : UInt8} {rest : Bytes} (ho : ¬ opening <+: b :: rest)
    (skipped : Nat) : nextFrom skipped (b :: rest) = nextFrom (skipped + 1) rest := by
  rw [nextFrom, if_neg (mt List.isPrefixOf_iff_prefix.mp ho)]

theorem nextFrom_eq_some {skipped : Nat} {text : Bytes} {f : Found}
    (h : nextFrom skipped text = some f) :
    ∃ before, text = before ++ f.frame ++ f.rest ∧ f.skipped = skipped + before.length ∧
      closing <:+ f.frame ∧ opening.length + closing.length ≤ f.frame.length := by
  fun_induction nextFrom skipped text with
  | case1 => cases h
  | case2 skipped b rest ho n hn =>
    cases h
    refine ⟨[], (List.take_append_drop n _).symm, rfl, closing_suffix_of_frameLength hn, ?_⟩
    have := frameLength_le hn
    rw [List.length_take]
    omega
  | case3 skipped b rest ho hn ih =>
    obtain ⟨before, heq, hskip, hclose, hlen⟩ := ih h
    refine ⟨b :: rest.takeWhile (· != Bytes.lf) ++ before, ?_, ?_, hclose, hlen⟩
    · rw [List.append_assoc, List.append_assoc, ← List.append_assoc before, ← heq,
        List.cons_append, List.takeWhile_append_dropWhile]
    · rw [hskip, List.length_append, List.length_cons]
      omega
  | case4 skipped b rest ho ih =>
    obtain ⟨before, heq, hskip, hclose, hlen⟩ := ih h
    refine ⟨b :: before, by rw [heq]; rfl, ?_, hclose, hlen⟩
    rw [hskip, List.length_cons]
    omega

theorem nextFrom_append {skipped : Nat} {text : Bytes} {f : Found}
    (h : nextFrom skipped text = some f) (t : Bytes) :
    nextFrom skipped (text ++ t) = some { f with rest := f.rest ++ t } := by
  fun_induction nextFrom skipped text with
  | case1 => cases h
  | case2 skipped b rest ho n hn =>
    cases h
    have ho' : opening <+: b :: (rest ++ t) :=
      (List.isPrefixOf_iff_prefix.mp ho).trans (List.prefix_append (b :: rest) t)
    have hle := (frameLength_le hn).2
    rw [List.cons_append, nextFrom_of_frame ho' (frameLength_append hn t), ← List.cons_append,
      List.take_append_of_le_length hle, List.drop_append_of_le_length hle]
  | case3 skipped b rest ho hn ih =>
    rw [List.isPrefixOf_iff_prefix] at ho
    have ho' : opening <+: b :: (rest ++ t) := ho.trans (List.prefix_append (b :: rest) t)
    by_cases hlf : Bytes.lf ∈ rest
    · obtain ⟨line, more, rfl, hline⟩ := List.eq_append_cons_of_mem hlf
      have hn' := frameLength_append_of_line (by simp) ho hn t
      rw [List.cons_append, nextFrom_of_line ho' hn', List.append_assoc, List.cons_append,
        Bytes.takeWhile_of_notMem hline, Bytes.dropWhile_of_notMem hline]
      rw [Bytes.takeWhile_of_notMem hline, Bytes.dropWhile_of_notMem hline] at h ih
      exact ih h
    · -- nothing is found on a line that goes on
      rw [List.dropWhile_eq_nil_iff.mpr fun b hb => bne_iff_ne.mpr (ne_of_mem_of_not_mem hb hlf),
        nextFrom] at h
      cases h
  | case4 skipped b rest ho ih =>
    rw [List.isPrefixOf_iff_prefix] at ho
    obtain ⟨before, heq, -, -, hlen⟩ := nextFrom_eq_some h
    have hle : opening.length ≤ (b :: rest).length := by
      rw [heq, List.length_cons, List.length_append, List.length_append]
      omega
    have ho' : ¬ opening <+: b :: (rest ++ t) :=
      mt (List.isPrefix_append_of_length hle).mp ho
    rw [List.cons_append, nextFrom_of_other ho']
    exact ih h

theorem next_eq_some {text : Bytes} {f : Found} (h : next text = some f) :
    ∃ before, text = before ++ f.frame ++ f.rest ∧ f.skipped = before.length ∧
      closing <:+ f.frame ∧ opening.length + closing.length ≤ f.frame.length := by
  obtain ⟨before, heq, hskip, hclose, hlen⟩ := nextFrom_eq_some h
  exact ⟨before, heq, by rw [hskip, Nat.zero_add], hclose, hlen⟩

theorem next_append {text : Bytes} {f : Found} (h : next text = some f) (t : Bytes) :
    next (text ++ t) = some { f with rest := f.rest ++ t } := nextFrom_append h t

/-! ## All frames -/

theorem scanFrom_of_none {text : Bytes} (h : next text = none) (frames : List Bytes)
    (consumed : Nat) : scanFrom frames consumed text = ⟨frames.reverse, consumed⟩ := by
  rw [scanFrom]
  split <;> simp_all

theorem scanFrom_of_some {text : Bytes} {f : Found} (h : next text = some f) (frames : List Bytes)
    (consumed : Nat) :
    scanFrom frames consumed text =
      scanFrom (f.frame :: frames) (consumed + f.skipped + f.frame.length) f.rest := by
  rw [scanFrom]
  split <;> simp_all

theorem scanFrom_eq (frames : List Bytes) (consumed : Nat) (text : Bytes) :
    scanFrom frames consumed text =
      ⟨frames.reverse ++ (scan text).frames, consumed + (scan text).consumed⟩ := by
  induction hn : text.length using Nat.strong_induction_on generalizing frames consumed text with
  | _ n ih =>
    subst hn
    unfold scan
    cases h : next text with
    | none => simp [scanFrom_of_none h]
    | some f =>
      rw [scanFrom_of_some h, scanFrom_of_some h,
        ih _ (rest_lt_of_nextFrom h) _ _ f.rest rfl,
        ih _ (rest_lt_of_nextFrom h) [f.frame] _ f.rest rfl]
      simp [Nat.add_assoc]

theorem scan_of_none {text : Bytes} (h : next text = none) : scan text = ⟨[], 0⟩ :=
  scanFrom_of_none h [] 0

theorem scan_of_some {text : Bytes} {f : Found} (h : next text = some f) :
    scan text = ⟨f.frame :: (scan f.rest).frames,
      f.skipped + f.frame.length + (scan f.rest).consumed⟩ := by
  rw [scan, scanFrom_of_some h, scanFrom_eq, Nat.zero_add]
  rfl

/-- What has been read when all frames have ends as a closing does. -/
theorem scan_consumed (text : Bytes) :
    scan text = ⟨[], 0⟩ ∨
      (scan text).consumed ≤ text.length ∧ closing <:+ text.take (scan text).consumed := by
  induction hn : text.length using Nat.strong_induction_on generalizing text with
  | _ n ih =>
    subst hn
    cases h : next text with
    | none => exact .inl (scan_of_none h)
    | some f =>
      right
      obtain ⟨before, heq, hskip, hclose, -⟩ := next_eq_some h
      have hlen := congrArg List.length heq
      simp only [List.length_append] at hlen
      have htake : ∀ k, text.take (f.skipped + f.frame.length + k) =
          before ++ f.frame ++ f.rest.take k := by
        intro k
        rw [heq, hskip, ← List.length_append, List.take_length_add_append]
      rw [scan_of_some h]
      simp only [htake]
      rcases ih _ (rest_lt_of_nextFrom h) f.rest rfl with hr | ⟨hle, hsuff⟩
      · rw [hr]
        refine ⟨by simp only; omega, ?_⟩
        rw [List.take_zero, List.append_nil]
        exact hclose.trans (List.suffix_append _ _)
      · exact ⟨by omega, hsuff.trans (List.suffix_append _ _)⟩

theorem scan_consumed_le (text : Bytes) : (scan text).consumed ≤ text.length := by
  rcases scan_consumed text with h | ⟨h, -⟩
  · rw [h]
    exact Nat.zero_le _
  · exact h

/-- The frames of a longer text: first those of the shorter one, then those behind them. -/
theorem scan_append (text t : Bytes) :
    scan (text ++ t) =
      ⟨(scan text).frames ++ (scan (text.drop (scan text).consumed ++ t)).frames,
        (scan text).consumed + (scan (text.drop (scan text).consumed ++ t)).consumed⟩ := by
  induction hn : text.length using Nat.strong_induction_on generalizing text with
  | _ n ih =>
    subst hn
    cases h : next text with
    | none => simp [scan_of_none h]
    | some f =>
      obtain ⟨before, heq, hskip, -, -⟩ := next_eq_some h
      have hdrop : ∀ k, text.drop (f.skipped + f.frame.length + k) = f.rest.drop k := by
        intro k
        rw [heq, hskip, ← List.length_append, List.drop_length_add_append]
      rw [scan_of_some (next_append h t), scan_of_some h, hdrop,
        ih _ (rest_lt_of_nextFrom h) f.rest rfl]
      simp only [List.cons_append, Nat.add_assoc]

end Wiretap.Tap
