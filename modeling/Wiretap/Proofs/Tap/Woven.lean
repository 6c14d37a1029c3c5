import Wiretap.Proofs.Tap.Frames

/-!
# Frames among other text

The frames found in a text that was put together of frames and of other texts between them are
the frames it was put together of (`frames_woven`), whatever the other texts are in which nothing
opens. An opening does not begin where another ends (`opening_unbordered`), so none comes about
where a text meets a frame.
-/

namespace Wiretap.Tap

/-- A frame by itself: it opens, closes at its end and not before, and has no line feed in it. -/
structure IsFrame (frame : Bytes) : Prop where
  opens : opening <+: frame
  closes : closing <:+ frame.drop opening.length
  once : ¬ closing <:+: (frame.drop opening.length).dropLast
  line : Bytes.lf ∉ frame

instance (frame : Bytes) : Decidable (IsFrame frame) :=
  decidable_of_iff
    (opening <+: frame ∧ closing <:+ frame.drop opening.length ∧
      ¬ closing <:+: (frame.drop opening.length).dropLast ∧ Bytes.lf ∉ frame)
    ⟨fun ⟨h₁, h₂, h₃, h₄⟩ => ⟨h₁, h₂, h₃, h₄⟩, fun h => ⟨h.opens, h.closes, h.once, h.line⟩⟩

/-! ## Where a frame ends -/

theorem closeFrom_of_suffix {body : Bytes} (hclose : closing <:+ body)
    (honce : ¬ closing <:+: body.dropLast) (hlf : Bytes.lf ∉ body) (n : Nat) :
    closeFrom n body = some (n + body.length) := by
  obtain ⟨k, hk, hle⟩ := closeFrom_of_closing hclose hlf n []
  rw [List.append_nil] at hk
  rcases Nat.eq_or_lt_of_le hle with rfl | hlt
  · exact hk
  · -- a closing that is found before would be one too many
    have hin : closing <:+: body.take (k - n) := (closing_suffix_of_closeFrom hk).isInfix
    refine absurd (hin.trans ?_) honce
    rw [List.dropLast_eq_take]
    exact (List.take_prefix_take_left (by omega)).isInfix

theorem IsFrame.frameLength_eq {frame : Bytes} (h : IsFrame frame) :
    frameLength frame = some frame.length := by
  have hle := h.opens.length_le
  have hlf : Bytes.lf ∉ frame.drop opening.length := fun hmem => h.line (List.mem_of_mem_drop hmem)
  rw [frameLength_of_opening h.opens, closeFrom_of_suffix h.closes h.once hlf, List.length_drop,
    Nat.add_sub_cancel' hle]

/-! ## Where a frame begins -/

theorem opening_unbordered : ∀ k < opening.length, 0 < k → ¬ opening.drop k <+: opening := by
  decide

/-- Nothing opens in a text in front of a frame, not even with the frame's first bytes. -/
theorem not_opening_in_front {before frame : Bytes} (hne : before ≠ [])
    (hbefore : ¬ opening <:+: before) (hframe : opening <+: frame) :
    ¬ opening <+: before ++ frame := by
  intro hp
  rcases Nat.lt_or_ge before.length opening.length with hlt | hle
  · have hrest : opening.drop before.length <+: frame := by
      have := hp.drop before.length
      rwa [List.drop_left] at this
    refine opening_unbordered _ hlt (List.length_pos_iff.mpr hne)
      (List.prefix_of_prefix_length_le hrest hframe ?_)
    rw [List.length_drop]
    exact Nat.sub_le _ _
  · exact hbefore ((List.isPrefix_append_of_length hle).mp hp).isInfix

theorem nextFrom_of_before {frame : Bytes} (h : IsFrame frame) {before : Bytes}
    (hbefore : ¬ opening <:+: before) (rest : Bytes) (skipped : Nat) :
    nextFrom skipped (before ++ (frame ++ rest)) =
      some ⟨skipped + before.length, frame, rest⟩ := by
  have hopens : opening <+: frame ++ rest := h.opens.trans (List.prefix_append _ _)
  induction before generalizing skipped with
  | nil =>
    have hlength := frameLength_append h.frameLength_eq rest
    obtain ⟨b, more, hcons⟩ := List.exists_cons_of_ne_nil (l := frame ++ rest)
      (hopens.ne_nil (by decide))
    rw [List.nil_append, hcons, nextFrom_of_frame (hcons ▸ hopens) (hcons ▸ hlength), ← hcons,
      List.take_left, List.drop_left]
    rfl
  | cons b before ih =>
    have hother := not_opening_in_front (List.cons_ne_nil b before) hbefore hopens
    rw [List.cons_append] at hother ⊢
    rw [nextFrom_of_other hother,
      ih (fun hin => hbefore (hin.trans (List.suffix_cons b _).isInfix)), List.length_cons,
      Nat.add_assoc, Nat.add_comm 1]

theorem nextFrom_of_no_opening {text : Bytes} (h : ¬ opening <:+: text) (skipped : Nat) :
    nextFrom skipped text = none := by
  induction text generalizing skipped with
  | nil => rw [nextFrom]
  | cons b rest ih =>
    rw [nextFrom_of_other fun hp => h hp.isInfix,
      ih fun hin => h (hin.trans (List.suffix_cons b _).isInfix)]

/-! ## All frames -/

/-- A text, and then frames, each with the text behind it. -/
def woven (first : Bytes) : List (Bytes × Bytes) → Bytes
  | [] => first
  | (frame, behind) :: parts => first ++ (frame ++ woven behind parts)

theorem frames_woven {first : Bytes} {parts : List (Bytes × Bytes)}
    (hframes : ∀ part ∈ parts, IsFrame part.1) (hfirst : ¬ opening <:+: first)
    (hbehind : ∀ part ∈ parts, ¬ opening <:+: part.2) :
    (scan (woven first parts)).frames = parts.map Prod.fst := by
  induction parts generalizing first with
  | nil => rw [woven, scan_of_none (nextFrom_of_no_opening hfirst 0), List.map_nil]
  | cons part parts ih =>
    rw [List.forall_mem_cons] at hframes hbehind
    rw [woven, scan_of_some (nextFrom_of_before hframes.1 hfirst _ 0), List.map_cons,
      ih hframes.2 hbehind.1 hbehind.2]

end Wiretap.Tap
