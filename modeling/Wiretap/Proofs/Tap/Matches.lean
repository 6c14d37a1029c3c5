import Wiretap.Proofs.Tap.Backlog

/-!
# Where the frames of a text are

The frames of a text are the matches of one pattern that a search from left to right comes upon:
of those that begin leftmost the shortest, and then the ones behind its end (`Search`). A scan finds
these and no others, though it leaves out the rest of a line on which an opening has no closing
(`Search.scan_eq`). When the text grows the matches stay where they are: an opening that gets its
closing only then would have had one before, at the end of the match that it goes round
(`Matches.shortened`). So a search may go on at the end of any match (`search_append`), and texts
that grow may each be searched from where the search of the one before has ended.
-/

namespace Wiretap.Tap

/-! ## The pattern -/

/-- A string of the pattern: an opening, anything but line feeds, and a closing. -/
def Enclosed (s : Bytes) : Prop := ∃ inner, Bytes.lf ∉ inner ∧ s = opening ++ (inner ++ closing)

/-- A stretch of a text, from one offset up to another one. -/
structure Span where
  start : Nat
  stop : Nat
  deriving DecidableEq, Repr, Inhabited

/-- The bytes of a stretch. -/
def Span.of (s : Span) (text : Bytes) : Bytes := (text.take s.stop).drop s.start

/-- The pattern matches a stretch of a text. -/
def Matches (text : Bytes) (s : Span) : Prop := s.stop ≤ text.length ∧ Enclosed (s.of text)

/-- The match that a search from `n` on comes upon. -/
structure First (text : Bytes) (n : Nat) (s : Span) : Prop where
  isMatch : Matches text s
  le_start : n ≤ s.start
  leftmost : ∀ s', Matches text s' → n ≤ s'.start → s.start ≤ s'.start
  shortest : ∀ s', Matches text s' → s'.start = s.start → s.stop ≤ s'.stop

/-- The matches that a search from `n` on comes upon, each behind the one before. -/
inductive Search (text : Bytes) : Nat → List Span → Prop
  | done {n : Nat} (h : ∀ s, Matches text s → s.start < n) : Search text n []
  | found {n : Nat} {s : Span} {later : List Span} (first : First text n s)
      (rest : Search text s.stop later) : Search text n (s :: later)

/-- Where a search from `n` on has got to. -/
def reach (n : Nat) (found : List Span) : Nat := found.foldl (fun _ s => s.stop) n

theorem enclosed_iff {s : Bytes} :
    Enclosed s ↔ opening <+: s ∧ closing <:+ s ∧
      opening.length + closing.length ≤ s.length ∧ Bytes.lf ∉ s := by
  constructor
  · rintro ⟨inner, hlf, rfl⟩
    refine ⟨List.prefix_append _ _, (List.suffix_append _ _).trans (List.suffix_append _ _), ?_, ?_⟩
    · simp only [List.length_append]
      omega
    · simp only [List.mem_append, not_or]
      exact ⟨lf_notMem_opening, hlf, lf_notMem_closing⟩
  · rintro ⟨⟨rest, rfl⟩, hclose, hlen, hlf⟩
    rw [List.length_append] at hlen
    obtain ⟨inner, rfl⟩ :=
      List.suffix_of_suffix_length_le hclose (List.suffix_append opening rest) (by omega)
    simp only [List.mem_append, not_or] at hlf
    exact ⟨inner, hlf.2.1, rfl⟩

theorem Enclosed.length_pos {s : Bytes} (h : Enclosed s) : 0 < s.length :=
  Nat.lt_of_lt_of_le (by decide) (enclosed_iff.mp h).2.2.1

theorem matches_iff {text : Bytes} {s : Span} :
    Matches text s ↔ ∃ frame behind, text.drop s.start = frame ++ behind ∧ Enclosed frame ∧
      s.stop = s.start + frame.length := by
  unfold Matches Span.of
  rw [List.drop_take]
  constructor
  · rintro ⟨hle, hframe⟩
    have hpos := hframe.length_pos
    refine ⟨_, _, (List.take_append_drop _ _).symm, hframe, ?_⟩
    simp only [List.length_take, List.length_drop] at hpos ⊢
    omega
  · rintro ⟨frame, behind, hdrop, hframe, hstop⟩
    have hpos := hframe.length_pos
    have hlen := congrArg List.length hdrop
    rw [List.length_append, List.length_drop] at hlen
    rw [hdrop, hstop, Nat.add_sub_cancel_left, List.take_left]
    exact ⟨by omega, hframe⟩

theorem Matches.lt {text : Bytes} {s : Span} (h : Matches text s) : s.start < s.stop := by
  obtain ⟨frame, behind, -, hframe, hstop⟩ := matches_iff.mp h
  have := hframe.length_pos
  omega

/-- A match that goes round another one could end where that one does. -/
theorem Matches.shortened {text : Bytes} {s outer : Span} (hs : Matches text s)
    (houter : Matches text outer) (hstart : outer.start ≤ s.start) (hstop : s.stop ≤ outer.stop) :
    Matches text ⟨outer.start, s.stop⟩ := by
  obtain ⟨hle, hframe⟩ := hs
  obtain ⟨hopen, -, -, hlf⟩ := enclosed_iff.mp houter.2
  obtain ⟨-, hclose, hlen, -⟩ := enclosed_iff.mp hframe
  have hfront : (⟨outer.start, s.stop⟩ : Span).of text <+: outer.of text :=
    (List.take_prefix_take_left hstop).drop outer.start
  have hback : s.of text <:+ (⟨outer.start, s.stop⟩ : Span).of text :=
    List.drop_suffix_drop_left _ hstart
  have hlong := hlen.trans hback.length_le
  refine ⟨hle, enclosed_iff.mpr ⟨?_, hclose.trans hback, hlong, fun hm => hlf (hfront.mem hm)⟩⟩
  exact List.prefix_of_prefix_length_le hopen hfront (by omega)

/-! ## Searches -/

theorem First.unique {text : Bytes} {n : Nat} {s s' : Span} (h : First text n s)
    (h' : First text n s') : s = s' := by
  have hstart := Nat.le_antisymm (h.leftmost s' h'.isMatch h'.le_start)
    (h'.leftmost s h.isMatch h.le_start)
  have hstop := Nat.le_antisymm (h.shortest s' h'.isMatch hstart.symm)
    (h'.shortest s h.isMatch hstart)
  obtain ⟨start, stop⟩ := s
  obtain ⟨start', stop'⟩ := s'
  simp only at hstart hstop
  rw [hstart, hstop]

theorem Search.unique {text : Bytes} {n : Nat} {found found' : List Span}
    (h : Search text n found) (h' : Search text n found') : found = found' := by
  induction h generalizing found' with
  | done h =>
    cases h' with
    | done => rfl
    | found first _ => exact absurd (h _ first.isMatch) (Nat.not_lt_of_le first.le_start)
  | found first _ ih =>
    cases h' with
    | done h' => exact absurd (h' _ first.isMatch) (Nat.not_lt_of_le first.le_start)
    | found first' rest' =>
      cases first.unique first'
      rw [ih rest']

theorem Search.le_reach {text : Bytes} {n : Nat} {found : List Span} (h : Search text n found) :
    n ≤ reach n found := by
  induction h with
  | done => exact Nat.le_refl _
  | found first _ ih =>
    have hstart := first.le_start
    have hstop := first.isMatch.lt
    change _ ≤ reach _ _ at ih ⊢
    exact (hstart.trans hstop.le).trans ih

theorem Search.pairwise {text : Bytes} {n : Nat} {found : List Span} (h : Search text n found) :
    (∀ s ∈ found, n ≤ s.start) ∧ found.Pairwise fun s s' => s.stop ≤ s'.start := by
  induction h with
  | done => exact ⟨List.forall_mem_nil _, .nil⟩
  | @found n s later first _ ih =>
    have hle : n ≤ s.stop := first.le_start.trans first.isMatch.lt.le
    exact ⟨List.forall_mem_cons.mpr ⟨first.le_start, fun s' hs' => hle.trans (ih.1 s' hs')⟩,
      .cons ih.1 ih.2⟩

/-- A search that goes on where a match ends comes upon the matches that are left. -/
theorem Search.behind {text : Bytes} {n : Nat} {before after : List Span} {s : Span}
    (h : Search text n (before ++ s :: after)) : Search text s.stop after := by
  induction before generalizing n with
  | nil =>
    cases h with
    | found _ rest => exact rest
  | cons s' before ih =>
    cases h with
    | found _ rest => exact ih rest

/-! ## Texts that grow -/

theorem matches_append_iff {text : Bytes} {s : Span} (hle : s.stop ≤ text.length) (t : Bytes) :
    Matches (text ++ t) s ↔ Matches text s := by
  unfold Matches Span.of
  rw [List.take_append_of_le_length hle, List.length_append]
  exact and_congr_left fun _ => iff_of_true (by omega) hle

theorem First.append {text : Bytes} {n : Nat} {s : Span} (h : First text n s) (t : Bytes) :
    First (text ++ t) n s := by
  have hle := h.isMatch.1
  have hs := (matches_append_iff hle t).mpr h.isMatch
  refine ⟨hs, h.le_start, fun s' hs' hn => Nat.le_of_not_lt fun hlt => ?_,
    fun s' hs' heq => Nat.le_of_not_lt fun hlt => ?_⟩
  · rcases Nat.le_total s'.stop text.length with hle' | hle'
    · exact absurd (h.leftmost s' ((matches_append_iff hle' t).mp hs') hn) (Nat.not_le_of_lt hlt)
    · -- it goes round the match that has been found
      have hshort := hs.shortened hs' hlt.le (hle.trans hle')
      have hbefore := (matches_append_iff (s := ⟨s'.start, s.stop⟩) hle t).mp hshort
      exact absurd (h.leftmost _ hbefore hn) (Nat.not_le_of_lt hlt)
  · exact absurd (h.shortest s' ((matches_append_iff (hlt.le.trans hle) t).mp hs') heq)
      (Nat.not_le_of_lt hlt)

theorem Search.append {text : Bytes} {n : Nat} {found later : List Span}
    (h : Search text n found) (t : Bytes) (hlater : Search (text ++ t) (reach n found) later) :
    Search (text ++ t) n (found ++ later) := by
  induction h with
  | done => exact hlater
  | found first _ ih => exact .found (first.append t) (ih hlater)

/-! ## What a scan finds -/

theorem lf_notMem_of_closeFrom {n k : Nat} {text : Bytes} (h : closeFrom n text = some k) :
    Bytes.lf ∉ text.take (k - n) := by
  induction text generalizing n with
  | nil => cases h
  | cons b rest ih =>
    have hk := closeFrom_le h
    simp only [closeFrom, List.isPrefixOf_iff_prefix] at h
    split at h
    · rename_i hp
      cases h
      rw [Nat.add_sub_cancel_left, ← List.prefix_iff_eq_take.mp hp]
      exact lf_notMem_closing
    · split at h
      · cases h
      · rename_i hb
        have hk' := closeFrom_le h
        rw [show k - n = k - (n + 1) + 1 by omega, List.take_succ_cons, List.mem_cons, not_or]
        exact ⟨Ne.symm hb, ih h⟩

theorem enclosed_of_frameLength {n : Nat} {text : Bytes} (h : frameLength text = some n) :
    Enclosed (text.take n) := by
  obtain ⟨hlen, hle⟩ := frameLength_le h
  have hclose := closing_suffix_of_frameLength h
  simp only [frameLength, List.isPrefixOf_iff_prefix] at h
  split at h
  · rename_i hp
    have hopen : opening <+: text.take n := List.prefix_take_iff.mpr ⟨hp, by omega⟩
    refine enclosed_iff.mpr ⟨hopen, hclose, by rw [List.length_take]; omega, fun hm => ?_⟩
    rw [← List.take_append_drop opening.length (text.take n),
      ← List.prefix_iff_eq_take.mp hopen, List.drop_take] at hm
    exact (List.mem_append.mp hm).elim lf_notMem_opening (lf_notMem_of_closeFrom h)
  · cases h

theorem frameLength_of_enclosed {frame : Bytes} (h : Enclosed frame) (t : Bytes) :
    ∃ n, frameLength (frame ++ t) = some n ∧ n ≤ frame.length := by
  obtain ⟨inner, hlf, rfl⟩ := h
  have hlf' : Bytes.lf ∉ inner ++ closing :=
    fun hm => (List.mem_append.mp hm).elim hlf lf_notMem_closing
  rw [List.append_assoc, frameLength_of_opening (List.prefix_append _ _), List.drop_left,
    List.length_append]
  exact closeFrom_of_closing (List.suffix_append _ _) hlf' _ t

section

variable {text rest : Bytes} {n : Nat}

theorem first_of_frameLength {k : Nat} (h : frameLength (text.drop n) = some k) :
    First text n ⟨n, n + k⟩ := by
  have hle := (frameLength_le h).2
  refine ⟨matches_iff.mpr ⟨_, _, (List.take_append_drop k _).symm, enclosed_of_frameLength h, ?_⟩,
    Nat.le_refl n, fun _ _ hn => hn, fun s' hs' heq => ?_⟩
  · rw [List.length_take_of_le hle]
  · obtain ⟨frame, behind, hdrop, hframe, hstop⟩ := matches_iff.mp hs'
    obtain ⟨k', hk', hle'⟩ := frameLength_of_enclosed hframe behind
    rw [← hdrop, heq, h] at hk'
    cases hk'
    rw [hstop, heq]
    exact Nat.add_le_add_left hle' n

theorem First.of_gap {m : Nat} {s : Span} (h : First text m s) (hm : n ≤ m)
    (hgap : ∀ s', Matches text s' → n ≤ s'.start → m ≤ s'.start) : First text n s :=
  ⟨h.isMatch, hm.trans h.le_start, fun s' hs' hn => h.leftmost s' hs' (hgap s' hs' hn), h.shortest⟩

/-- Where nothing opens no match begins. -/
theorem lt_start_of_other {b : UInt8} (hdrop : text.drop n = b :: rest)
    (ho : ¬ opening <+: b :: rest) (s : Span) (hs : Matches text s) (hn : n ≤ s.start) :
    n + 1 ≤ s.start := by
  refine Nat.lt_of_le_of_ne hn ?_
  rintro rfl
  obtain ⟨frame, behind, heq, hframe, -⟩ := matches_iff.mp hs
  rw [← hdrop, heq] at ho
  exact ho ((enclosed_iff.mp hframe).1.trans (List.prefix_append _ _))

/-- Behind an opening without a closing no match begins on the line. -/
theorem le_start_of_line {b : UInt8} (hdrop : text.drop n = b :: rest) (ho : opening <+: b :: rest)
    (h : frameLength (b :: rest) = none) (s : Span) (hs : Matches text s) (hn : n ≤ s.start) :
    n + 1 + (rest.takeWhile (· != Bytes.lf)).length ≤ s.start := by
  refine Nat.le_of_not_lt fun hlt => ?_
  obtain ⟨k, hk⟩ := Nat.exists_eq_add_of_le hn
  obtain ⟨frame, behind, heq, hframe, -⟩ := matches_iff.mp hs
  rw [hk, ← List.drop_drop, hdrop] at heq
  have hwhole : b :: rest = (b :: rest).take k ++ frame ++ behind := by
    rw [List.append_assoc, ← heq, List.take_append_drop]
  obtain ⟨-, hclose, hlen, hlf⟩ := enclosed_iff.mp hframe
  have hfront : Bytes.lf ∉ (b :: rest).take k := by
    have hb : b = 0x5b := (List.cons_prefix_cons.mp ho).1.symm
    have hline : (b :: rest).take k <+: b :: rest.takeWhile (· != Bytes.lf) :=
      List.prefix_of_prefix_length_le (List.take_prefix _ _)
        (List.cons_prefix_cons.mpr ⟨rfl, List.takeWhile_prefix _⟩)
        (by rw [List.length_take, List.length_cons, List.length_cons]; omega)
    intro hm
    rcases List.mem_cons.mp (hline.mem hm) with rfl | hm
    · exact absurd hb (by decide)
    · exact absurd (List.mem_takeWhile_imp hm) (by decide)
  have hlong : opening.length + closing.length ≤ ((b :: rest).take k ++ frame).length := by
    rw [List.length_append]
    omega
  have hopen : opening <+: (b :: rest).take k ++ frame :=
    List.prefix_of_prefix_length_le (hwhole ▸ ho) (List.prefix_append _ _) (by omega)
  have hfound := frameLength_of_enclosed (enclosed_iff.mpr ⟨hopen,
    hclose.trans (List.suffix_append _ _), hlong,
    fun hm => (List.mem_append.mp hm).elim hfront hlf⟩) behind
  obtain ⟨k', hk', -⟩ := hfound
  rw [← hwhole, h] at hk'
  cases hk'

/-- What is found next is the first match. -/
theorem nextFrom_cases {rest : Bytes} {n : Nat} (hdrop : text.drop n = rest) :
    (nextFrom n rest = none ∧ ∀ s, Matches text s → s.start < n) ∨
      ∃ f, nextFrom n rest = some f ∧ First text n ⟨f.skipped, f.skipped + f.frame.length⟩ := by
  fun_induction nextFrom n rest with
  | case1 n =>
    refine .inl ⟨rfl, fun s hs => ?_⟩
    have := List.drop_eq_nil_iff.mp hdrop
    exact Nat.lt_of_lt_of_le hs.lt (hs.1.trans this)
  | case2 n b rest ho k hk =>
    have hle := (frameLength_le hk).2
    refine .inr ⟨_, rfl, ?_⟩
    rw [← hdrop] at hk hle ⊢
    rw [List.length_take_of_le hle]
    exact first_of_frameLength hk
  | case3 n b rest ho hk ih =>
    rw [List.isPrefixOf_iff_prefix] at ho
    have hgap := le_start_of_line hdrop ho hk
    have hdrop' : text.drop (n + 1 + (rest.takeWhile (· != Bytes.lf)).length) =
        rest.dropWhile (· != Bytes.lf) := by
      have hline : (rest.takeWhile (· != Bytes.lf) ++ rest.dropWhile (· != Bytes.lf)).drop
          (rest.takeWhile (· != Bytes.lf)).length = rest.dropWhile (· != Bytes.lf) := List.drop_left
      rw [List.takeWhile_append_dropWhile] at hline
      rw [Nat.add_assoc, ← List.drop_drop, hdrop, Nat.add_comm 1, List.drop_succ_cons, hline]
    rcases ih hdrop' with ⟨hnone, h⟩ | ⟨f, hf, hfirst⟩
    · refine .inl ⟨hnone, fun s hs => Nat.lt_of_not_le fun hn => ?_⟩
      exact absurd (h s hs) (Nat.not_lt_of_le (hgap s hs hn))
    · exact .inr ⟨f, hf, hfirst.of_gap (by omega) hgap⟩
  | case4 n b rest ho ih =>
    rw [List.isPrefixOf_iff_prefix] at ho
    have hgap := lt_start_of_other hdrop ho
    have hdrop' : text.drop (n + 1) = rest := by
      rw [← List.drop_drop, hdrop, List.drop_succ_cons, List.drop_zero]
    rcases ih hdrop' with ⟨hnone, h⟩ | ⟨f, hf, hfirst⟩
    · refine .inl ⟨hnone, fun s hs => Nat.lt_of_not_le fun hn => ?_⟩
      exact absurd (h s hs) (Nat.not_lt_of_le (hgap s hs hn))
    · exact .inr ⟨f, hf, hfirst.of_gap (Nat.le_succ n) hgap⟩

theorem nextFrom_eq (n : Nat) (rest : Bytes) :
    nextFrom n rest = (next rest).map fun f => { f with skipped := n + f.skipped } := by
  suffices h : ∀ k, nextFrom (n + k) rest =
      (nextFrom k rest).map fun f => { f with skipped := n + f.skipped } from h 0
  intro k
  fun_induction nextFrom k rest with
  | case1 => rw [nextFrom]; rfl
  | case2 k b rest ho m hm =>
    rw [nextFrom_of_frame (List.isPrefixOf_iff_prefix.mp ho) hm]
    rfl
  | case3 k b rest ho hm ih =>
    rw [nextFrom_of_line (List.isPrefixOf_iff_prefix.mp ho) hm, ← ih]
    simp only [Nat.add_assoc]
  | case4 k b rest ho ih =>
    rw [nextFrom_of_other (mt List.isPrefixOf_iff_prefix.mpr ho), ← ih, Nat.add_assoc]

theorem next_cases (text : Bytes) (n : Nat) :
    (next (text.drop n) = none ∧ ∀ s, Matches text s → s.start < n) ∨
      ∃ s, First text n s ∧
        next (text.drop n) = some ⟨s.start - n, s.of text, text.drop s.stop⟩ := by
  rcases nextFrom_cases (Eq.refl (text.drop n)) with ⟨hnone, h⟩ | ⟨f, hf, hfirst⟩
  · rw [nextFrom_eq, Option.map_eq_none_iff] at hnone
    exact .inl ⟨hnone, h⟩
  · rw [nextFrom_eq, Option.map_eq_some_iff] at hf
    obtain ⟨f, hf, rfl⟩ := hf
    obtain ⟨before, heq, hskip, -⟩ := next_eq_some hf
    have hfront : (text.drop n).drop f.skipped = f.frame ++ f.rest := by
      rw [heq, hskip, List.append_assoc, List.drop_left]
    refine .inr ⟨_, hfirst, ?_⟩
    simp only [hf, Span.of, List.drop_take, Nat.add_sub_cancel_left, ← List.drop_drop, hfront,
      List.take_left, List.drop_left]

end

theorem exists_search (text : Bytes) (n : Nat) : ∃ found, Search text n found := by
  induction hn : text.length - n using Nat.strong_induction_on generalizing n with
  | _ m ih =>
    subst hn
    rcases next_cases text n with ⟨-, h⟩ | ⟨s, hfirst, -⟩
    · exact ⟨[], .done h⟩
    · have hlt := hfirst.isMatch.lt
      have hle := hfirst.isMatch.1
      have hstart := hfirst.le_start
      obtain ⟨later, hlater⟩ := ih (text.length - s.stop) (by omega) s.stop rfl
      exact ⟨s :: later, .found hfirst hlater⟩

/-- A scan finds what the search comes upon. -/
theorem Search.scan_eq {text : Bytes} {n : Nat} {found : List Span} (h : Search text n found) :
    scan (text.drop n) = ⟨found.map (·.of text), reach n found - n⟩ := by
  induction h with
  | @done n h =>
    rcases next_cases text n with ⟨hnone, -⟩ | ⟨s, hfirst, -⟩
    · rw [scan_of_none hnone, reach, List.foldl_nil, Nat.sub_self, List.map_nil]
    · exact absurd (h s hfirst.isMatch) (Nat.not_lt_of_le hfirst.le_start)
  | @found n s later first rest ih =>
    rcases next_cases text n with ⟨-, hnone⟩ | ⟨s', hfirst, hnext⟩
    · exact absurd (hnone s first.isMatch) (Nat.not_lt_of_le first.le_start)
    · cases first.unique hfirst
      have hlt := first.isMatch.lt
      have hstart := first.le_start
      have hreach := rest.le_reach
      have hlen : (s.of text).length = s.stop - s.start := by
        rw [Span.of, List.length_drop, List.length_take_of_le first.isMatch.1]
      have hconsumed : s.start - n + (s.stop - s.start) + (reach s.stop later - s.stop) =
          reach s.stop later - n := by omega
      rw [scan_of_some hnext, ih, hlen, hconsumed]
      rfl

/-! ## Texts one after another -/

/-- What is come upon in texts one after another, each searched from where the search of the one
before has got to. -/
inductive Visits : Nat → List Bytes → List Span → Prop
  | nil {n : Nat} : Visits n [] []
  | cons {n : Nat} {text : Bytes} {later : List Bytes} {found more : List Span}
      (search : Search text n found) (rest : Visits (reach n found) later more) :
      Visits n (text :: later) (found ++ more)

theorem reach_append (n : Nat) (found later : List Span) :
    reach n (found ++ later) = reach (reach n found) later := List.foldl_append

/-- In texts that grow the search of the last one is gone through, bit by bit. -/
theorem visits_of_search {text last : Bytes} {later : List Bytes} {found all : List Span}
    (hgrow : (text :: later).IsChain (· <+: ·)) (hlast : (text :: later).getLast? = some last)
    (hfound : Search text 0 found) (hall : Search last 0 all) :
    ∃ more, all = found ++ more ∧ Visits (reach 0 found) later more := by
  induction later generalizing text found with
  | nil =>
    cases hlast
    exact ⟨[], by rw [hall.unique hfound, List.append_nil], .nil⟩
  | cons next later ih =>
    rw [List.isChain_cons_cons] at hgrow
    obtain ⟨⟨t, rfl⟩, hgrow⟩ := hgrow
    obtain ⟨new, hnew⟩ := exists_search (text ++ t) (reach 0 found)
    obtain ⟨more, rfl, hmore⟩ := ih hgrow (by rwa [List.getLast?_cons_cons] at hlast)
      (hfound.append t hnew)
    rw [reach_append] at hmore
    exact ⟨new ++ more, List.append_assoc _ _ _, .cons hnew hmore⟩

theorem search_nil : Search [] 0 [] :=
  .done fun _ hs => absurd (Nat.lt_of_lt_of_le hs.lt hs.1) (Nat.not_lt_zero _)

/-- A stream that has read a text reads the frames of longer ones that are not in it. -/
theorem frames_pendings {text last : Bytes} {later : List Bytes}
    (hgrow : (text :: later).IsChain (· <+: ·)) (hlast : (text :: later).getLast? = some last)
    (hvalid : ∀ next ∈ later, Utf8.Valid next)
    (hfit : ∀ pending ∈ Stream.pendings (scan text).consumed later,
      pending.length ≤ Stream.maxBacklog) :
    (scan text).frames ++ (Stream.pendings (scan text).consumed later).flatMap
      (fun pending => (scan pending).frames) = (scan last).frames := by
  induction later generalizing text with
  | nil =>
    cases hlast
    exact List.append_nil _
  | cons next later ih =>
    rw [List.isChain_cons_cons] at hgrow
    rw [List.forall_mem_cons] at hvalid
    have hcontinues : Stream.Continues text next := .inl hgrow.1
    have hscan := Stream.scan_of_continues hcontinues
    have hunread : Stream.unread (scan text).consumed next = next.drop (scan text).consumed := by
      rw [Stream.unread, Stream.resume_consumed hcontinues hvalid.1]
    rw [Stream.pendings, List.forall_mem_cons, hunread] at hfit
    have hadvance : Stream.advance (scan text).consumed next = (scan next).consumed := by
      rw [Stream.advance, hunread, if_neg (Nat.not_lt_of_le hfit.1),
        Stream.resume_consumed hcontinues hvalid.1, hscan]
    rw [hadvance] at hfit
    rw [Stream.pendings, hunread, hadvance, List.flatMap_cons, ← List.append_assoc,
      ← ih hgrow.2 (by rwa [List.getLast?_cons_cons] at hlast) hvalid.2 hfit.2, hscan]

/-- The matches in a text are the first ones in every longer text, a search that goes on at the end
of any of them comes upon those that are left, and if texts that grow up to the longer one are each
searched from where the search of the one before has got to, each of its matches is come upon
once: by a scan too, and by a stream that does not have to pass anything over. -/
theorem search_append (a b : Bytes) :
    ∃ found later, Search a 0 found ∧ Search (a ++ b) 0 (found ++ later) ∧
      scan a = ⟨found.map (·.of a), reach 0 found⟩ ∧
      scan (a ++ b) = ⟨(found ++ later).map (·.of (a ++ b)), reach 0 (found ++ later)⟩ ∧
      ((found ++ later).Pairwise fun s s' => s.stop ≤ s'.start) ∧
      (∀ before s after, found = before ++ s :: after →
        Search (a ++ b) s.stop (after ++ later) ∧
        (scan ((a ++ b).drop s.stop)).frames = (after ++ later).map (·.of (a ++ b))) ∧
      ∀ texts : List Bytes, texts.IsChain (· <+: ·) → texts.getLast? = some (a ++ b) →
        Visits 0 texts (found ++ later) ∧
        ((∀ text ∈ texts, Utf8.Valid text) →
          (∀ pending ∈ Stream.pendings 0 texts, pending.length ≤ Stream.maxBacklog) →
          (Stream.pendings 0 texts).flatMap (fun pending => (scan pending).frames) =
            (found ++ later).map (·.of (a ++ b))) := by
  obtain ⟨found, hfound⟩ := exists_search a 0
  obtain ⟨later, hlater⟩ := exists_search (a ++ b) (reach 0 found)
  have hall := hfound.append b hlater
  have hscan := hall.scan_eq
  rw [List.drop_zero, Nat.sub_zero] at hscan
  refine ⟨found, later, hfound, hall, ?_, hscan, hall.pairwise.2, ?_, fun texts hgrow hlast => ?_⟩
  · have := hfound.scan_eq
    rwa [List.drop_zero, Nat.sub_zero] at this
  · rintro before s after rfl
    rw [List.append_assoc, List.cons_append] at hall
    exact ⟨hall.behind, by rw [hall.behind.scan_eq]⟩
  · obtain ⟨first, rest, rfl⟩ := List.exists_cons_of_ne_nil (l := texts)
      (by rintro rfl; cases hlast)
    have hgrow' : ([] :: first :: rest).IsChain (· <+: ·) := .cons_cons List.nil_prefix hgrow
    have hlast' : ([] :: first :: rest).getLast? = some (a ++ b) := by
      rwa [List.getLast?_cons_cons]
    refine ⟨?_, fun hvalid hfit => ?_⟩
    · obtain ⟨more, heq, hmore⟩ := visits_of_search hgrow' hlast' search_nil hall
      rw [heq]
      exact hmore
    · have hframes := frames_pendings hgrow' hlast' hvalid (by rwa [Stream.scan_nil])
      rwa [Stream.scan_nil, List.nil_append, hscan] at hframes

/-- Openings that never get a closing, and one that gets it with the last text. -/
theorem search_append_cut :
    let a := Utf8.encode "[[[null,\n[[[null,[[[null,1]],\"model\"][[[null,\"é\"]],\"mod"
    let b := Utf8.encode "el\"]]],\"model\"]"
    let texts := [a.take 30, a, a ++ b]
    texts.IsChain (· <+: ·) ∧ texts.getLast? = some (a ++ b) ∧
      (∀ text ∈ texts, Utf8.Valid text) ∧
      (∀ pending ∈ Stream.pendings 0 texts, pending.length ≤ Stream.maxBacklog) ∧
      ∃ found later, Search a 0 found ∧ found.length = 1 ∧ later.length = 1 ∧
        Visits 0 texts (found ++ later) ∧
        (Stream.pendings 0 texts).flatMap (fun pending => (scan pending).frames) =
          (found ++ later).map (·.of (a ++ b)) := by
  intro a b texts
  have hgrow : texts.IsChain (· <+: ·) :=
    .cons_cons (List.take_prefix 30 a) (.cons_cons (List.prefix_append a b) (.singleton _))
  have hvalid : ∀ text ∈ texts, Utf8.validLength text = text.length := by decide +kernel
  have hfit : ∀ pending ∈ Stream.pendings 0 texts, pending.length ≤ Stream.maxBacklog := by
    decide +kernel
  obtain ⟨found, later, hfound, -, hone, hboth, -, -, hvisits⟩ := search_append a b
  have hone : (found.map (·.of a)).length = 1 := by
    rw [show found.map (·.of a) = (scan a).frames by rw [hone]]
    decide +kernel
  have hboth : ((found ++ later).map (·.of (a ++ b))).length = 2 := by
    rw [show (found ++ later).map (·.of (a ++ b)) = (scan (a ++ b)).frames by rw [hboth]]
    decide +kernel
  rw [List.length_map] at hone hboth
  rw [List.length_append, hone] at hboth
  obtain ⟨hvisits, hframes⟩ := hvisits texts hgrow rfl
  exact ⟨hgrow, rfl, hvalid, hfit, found, later, hfound, hone, Nat.add_left_cancel hboth, hvisits,
    hframes hvalid hfit⟩

end Wiretap.Tap
