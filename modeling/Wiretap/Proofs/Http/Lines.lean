import Mathlib.Data.List.TakeWhile
import Wiretap.Proofs.Occurrence

/-!
# Lines

A line holds at least one byte and neither CR nor LF; it ends in CR LF or in LF alone. Lines that
stand one after another, whatever their ends, are cut at their line feeds
(`splitOn_linesBytes`). CR LF CR LF stands only where another CR LF follows a line that ends in
CR LF (`headerTerminator_infix_linesBytes`), so that a head ends with its empty line
(`headerEnd_linesBytes`). Where all lines end in CR LF the same holds though they have a CR within
(`headerEnd_unbroken`).
-/

namespace Wiretap

open Bytes (cr lf crlf)

namespace Bytes

theorem find_of_dropLast {needle s : Bytes} (hn : needle ≠ [])
    (h : ¬ needle <:+: (s ++ needle).dropLast) : find (s ++ needle) needle = some s.length := by
  have hne : s ++ needle ≠ [] := List.append_ne_nil_of_right_ne_nil s hn
  have hpos := List.length_pos_iff.mpr hn
  rw [find_eq_some_iff hn, List.drop_left]
  refine ⟨List.prefix_rfl, fun m hm hp => h (infix_iff_exists_drop.mpr ⟨m, ?_⟩)⟩
  rw [← List.dropLast_append_getLast hne] at hp
  refine (prefix_drop_append_iff ?_).mp hp
  rw [List.length_dropLast, List.length_append]
  omega

theorem head?_splitOn {α : Type} [BEq α] (a : α) (s : List α) :
    (splitOn a s).head? = some (s.takeWhile (· != a)) := by
  rw [splitOn]
  split
  · rename_i hnil
    rw [List.dropWhile_eq_nil_iff] at hnil
    rw [List.takeWhile_eq_self_iff.mpr hnil]
    rfl
  · rfl

section

variable {α : Type} [BEq α] [LawfulBEq α] {a : α} {s : List α}

theorem splitOn_of_notMem (h : a ∉ s) : splitOn a s = [s] := by
  have hdrop : s.dropWhile (· != a) = [] :=
    List.dropWhile_eq_nil_iff.mpr fun b hb => bne_iff_ne.mpr (ne_of_mem_of_not_mem hb h)
  rw [splitOn]
  split
  · rfl
  · rename_i heq
    rw [hdrop] at heq
    cases heq

theorem splitOn_append (h : a ∉ s) (t : List α) : splitOn a (s ++ a :: t) = s :: splitOn a t := by
  have hdrop := dropWhile_of_notMem h t
  rw [splitOn]
  split
  · rename_i heq
    rw [hdrop] at heq
    cases heq
  · rename_i heq
    rw [hdrop] at heq
    cases heq
    rw [takeWhile_of_notMem h]

/-- A text without the separator is one piece; any other is cut at the first separator. -/
theorem splitOn_cases (a : α) (s : List α) :
    (a ∉ s ∧ splitOn a s = [s]) ∨
      ∃ piece rest, s = piece ++ a :: rest ∧ a ∉ piece ∧
        splitOn a s = piece :: splitOn a rest := by
  by_cases h : a ∈ s
  · obtain ⟨piece, rest, rfl, hpiece⟩ := List.eq_append_cons_of_mem h
    exact .inr ⟨piece, rest, rfl, hpiece, splitOn_append hpiece rest⟩
  · exact .inl ⟨h, splitOn_of_notMem h⟩

theorem splitOn_ne_nil (a : α) (s : List α) : splitOn a s ≠ [] := by
  rcases splitOn_cases a s with ⟨-, hs⟩ | ⟨piece, rest, -, -, hs⟩ <;> rw [hs] <;> nofun

theorem splitOn_eq_singleton_iff {piece : List α} :
    splitOn a s = [piece] ↔ s = piece ∧ a ∉ piece := by
  constructor
  · intro h
    rcases splitOn_cases a s with ⟨hs, heq⟩ | ⟨first, rest, -, -, heq⟩
    · rw [heq] at h
      cases h
      exact ⟨rfl, hs⟩
    · rw [heq] at h
      exact absurd (List.cons.inj h).2 (splitOn_ne_nil a rest)
  · rintro ⟨rfl, hs⟩
    exact splitOn_of_notMem hs

theorem splitOn_eq_cons_cons_iff {piece next : List α} {pieces : List (List α)} :
    splitOn a s = piece :: next :: pieces ↔
      ∃ rest, s = piece ++ a :: rest ∧ a ∉ piece ∧ splitOn a rest = next :: pieces := by
  constructor
  · intro h
    rcases splitOn_cases a s with ⟨-, heq⟩ | ⟨first, rest, hs, hfirst, heq⟩
    · rw [heq] at h
      cases h
    · rw [heq, List.cons.injEq] at h
      exact ⟨rest, h.1 ▸ hs, h.1 ▸ hfirst, h.2⟩
  · rintro ⟨rest, rfl, hpiece, hrest⟩
    rw [splitOn_append hpiece, hrest]

end

/-- Blanks are taken off both ends of what neither begins nor ends with one. -/
theorem trim_of_blanks {before middle after : Bytes} (hb : ∀ b ∈ before, isBlank b)
    (ha : ∀ b ∈ after, isBlank b) (hfirst : ∀ b ∈ middle.head?, ¬ isBlank b)
    (hlast : ∀ b ∈ middle.getLast?, ¬ isBlank b) : trim (before ++ middle ++ after) = middle := by
  have hstart (u : Bytes) (hu : ∀ b ∈ u.head?, ¬ isBlank b) : u.dropWhile isBlank = u := by
    cases u with
    | nil => rfl
    | cons b rest => exact List.dropWhile_cons_of_neg (hu b rfl)
  have hfront : ∃ t, (before ++ middle ++ after).dropWhile isBlank = middle ++ t ∧
      ∀ b ∈ t, isBlank b := by
    rw [List.append_assoc, List.dropWhile_append_of_pos hb]
    cases middle with
    | nil => exact ⟨[], by simpa using ha, List.forall_mem_nil _⟩
    | cons b rest => exact ⟨after, hstart _ hfirst, ha⟩
  obtain ⟨t, hdrop, ht⟩ := hfront
  rw [trim, hdrop, List.reverse_append,
    List.dropWhile_append_of_pos fun b hb' => ht b (List.mem_reverse.mp hb'),
    hstart _ (by rwa [List.head?_reverse]), List.reverse_reverse]

theorem chomp_of_notMem {line : Bytes} (h : cr ∉ line) : chomp line = line := by
  unfold chomp
  split
  · rename_i b hb
    exact if_neg (ne_of_mem_of_not_mem (List.mem_of_getLast? hb) h)
  · rfl

theorem chomp_concat_cr (line : Bytes) : chomp (line ++ [cr]) = line := by
  unfold chomp
  rw [List.getLast?_concat, List.dropLast_concat]
  exact if_pos rfl

end Bytes

namespace Http

/-- A line without CR and LF. -/
structure IsLine (line : Bytes) : Prop where
  nonempty : line ≠ []
  cr : cr ∉ line
  lf : lf ∉ line

instance (line : Bytes) : Decidable (IsLine line) :=
  decidable_of_iff (line ≠ [] ∧ cr ∉ line ∧ lf ∉ line)
    ⟨fun h => ⟨h.1, h.2.1, h.2.2⟩, fun h => ⟨h.nonempty, h.cr, h.lf⟩⟩

/-- The two ends that a line may have. -/
inductive Eol where
  | crlf
  | lf
  deriving DecidableEq, Repr

/-- What stands in front of the line feed that ends a line. -/
def Eol.front : Eol → Bytes
  | .crlf => [Bytes.cr]
  | .lf => []

def Eol.bytes (eol : Eol) : Bytes := eol.front ++ [Bytes.lf]

theorem Eol.lf_notMem_front (eol : Eol) : Bytes.lf ∉ eol.front := by cases eol <;> decide

/-- A line with its end. -/
structure Line where
  content : Bytes
  eol : Eol
  isLine : IsLine content

namespace Line

def bytes (l : Line) : Bytes := l.content ++ l.eol.bytes

/-- The line without its line feed. -/
def front (l : Line) : Bytes := l.content ++ l.eol.front

theorem bytes_eq (l : Line) : l.bytes = l.front ++ [lf] := (List.append_assoc _ _ _).symm

theorem lf_notMem_front (l : Line) : lf ∉ l.front := by
  rw [front, List.mem_append, not_or]
  exact ⟨l.isLine.lf, l.eol.lf_notMem_front⟩

theorem chomp_front (l : Line) : Bytes.chomp l.front = l.content := by
  unfold front
  cases l.eol with
  | crlf => exact Bytes.chomp_concat_cr l.content
  | lf => exact (congrArg _ (List.append_nil _)).trans (Bytes.chomp_of_notMem l.isLine.cr)

end Line

/-- Lines one after another. -/
def linesBytes (lines : List Line) : Bytes := lines.flatMap Line.bytes

theorem linesBytes_cons (l : Line) (lines : List Line) :
    linesBytes (l :: lines) = l.bytes ++ linesBytes lines := List.flatMap_cons

theorem linesBytes_append (lines more : List Line) :
    linesBytes (lines ++ more) = linesBytes lines ++ linesBytes more := List.flatMap_append

/-- Lines that all end alike. -/
theorem exists_linesBytes {lines : List Bytes} (h : ∀ l ∈ lines, IsLine l) (eol : Eol) :
    ∃ ended : List Line, linesBytes ended = lines.flatMap (· ++ eol.bytes) ∧
      ended.map Line.content = lines ∧ ∀ l ∈ ended, l.eol = eol := by
  induction lines with
  | nil => exact ⟨[], rfl, rfl, List.forall_mem_nil _⟩
  | cons line rest ih =>
    obtain ⟨hline, hrest⟩ := List.forall_mem_cons.mp h
    obtain ⟨ended, hbytes, hcontent, heol⟩ := ih hrest
    refine ⟨⟨line, eol, hline⟩ :: ended, ?_, ?_, List.forall_mem_cons.mpr ⟨rfl, heol⟩⟩
    · rw [linesBytes_cons, hbytes, List.flatMap_cons]
      rfl
    · rw [List.map_cons, hcontent]

theorem splitOn_linesBytes (lines : List Line) (s : Bytes) :
    Bytes.splitOn lf (linesBytes lines ++ s) = lines.map Line.front ++ Bytes.splitOn lf s := by
  induction lines with
  | nil => rfl
  | cons l rest ih =>
    rw [linesBytes_cons, l.bytes_eq, List.append_assoc, List.append_assoc, List.singleton_append,
      Bytes.splitOn_append l.lf_notMem_front, ih]
    rfl

/-! ## Where a head ends -/

theorem headerTerminator_prefix_crlf {s : Bytes} :
    headerTerminator <+: crlf ++ s ↔ crlf <+: s :=
  List.prefix_append_right_inj crlf

theorem crlf_prefix_cons {b : UInt8} {s : Bytes} (h : crlf <+: b :: s) : b = cr :=
  (List.cons_prefix_cons.mp h).1.symm

theorem not_crlf_prefix_line {line : Bytes} (h : IsLine line) (s : Bytes) : ¬ crlf <+: line ++ s := by
  obtain ⟨b, bs, rfl⟩ := List.exists_cons_of_ne_nil h.nonempty
  exact fun hp => h.cr (crlf_prefix_cons hp ▸ List.mem_cons_self)

theorem headerTerminator_infix_append {u : Bytes} (h : cr ∉ u) (s : Bytes) :
    headerTerminator <:+: u ++ s ↔ headerTerminator <:+: s := by
  induction u with
  | nil => rfl
  | cons b rest ih =>
    rw [List.mem_cons, not_or] at h
    have hb : ¬ headerTerminator <+: b :: (rest ++ s) := fun hp =>
      h.1 (List.cons_prefix_cons.mp hp).1
    rw [List.cons_append, List.infix_cons_iff, ih h.2]
    simp only [hb, false_or]

theorem headerTerminator_infix_line (l : Line) (s : Bytes) :
    headerTerminator <:+: l.bytes ++ s ↔
      l.eol = .crlf ∧ crlf <+: s ∨ headerTerminator <:+: s := by
  rw [Line.bytes, List.append_assoc, headerTerminator_infix_append l.isLine.cr]
  cases l.eol with
  | crlf =>
    rw [show Eol.crlf.bytes ++ s = cr :: ([lf] ++ s) from rfl, List.infix_cons_iff,
      headerTerminator_infix_append (by decide), show cr :: ([lf] ++ s) = crlf ++ s from rfl,
      headerTerminator_prefix_crlf]
    simp only [true_and]
  | lf =>
    rw [show Eol.lf.bytes = [lf] from rfl, headerTerminator_infix_append (by decide)]
    simp only [reduceCtorEq, false_and, false_or]

theorem headerTerminator_infix_linesBytes (lines : List Line) (s : Bytes) :
    headerTerminator <:+: linesBytes lines ++ s ↔
      lines.getLast?.map Line.eol = some .crlf ∧ crlf <+: s ∨ headerTerminator <:+: s := by
  induction lines with
  | nil => simp [linesBytes]
  | cons l rest ih =>
    rw [linesBytes_cons, List.append_assoc, headerTerminator_infix_line, ih]
    cases rest with
    | nil => simp [linesBytes]
    | cons next rest =>
      have hnext : ¬ crlf <+: linesBytes (next :: rest) ++ s := by
        rw [linesBytes_cons, Line.bytes, List.append_assoc, List.append_assoc]
        exact not_crlf_prefix_line next.isLine _
      simp only [hnext, and_false, false_or, List.getLast?_cons_cons]

/-- A head ends with its empty line. -/
theorem headerEnd_linesBytes {lines : List Line}
    (hlast : lines.getLast?.map Line.eol = some .crlf) (rest : Bytes) :
    headerEnd (linesBytes lines ++ crlf ++ rest) = some (linesBytes lines ++ crlf).length := by
  refine headerEnd_append ?_
  obtain ⟨last, hlast, heol⟩ := Option.map_eq_some_iff.mp hlast
  obtain ⟨before, rfl⟩ := List.getLast?_eq_some_iff.mp hlast
  have hends : linesBytes (before ++ [last]) ++ crlf =
      linesBytes before ++ last.content ++ headerTerminator := by
    rw [linesBytes_append, linesBytes_cons, Line.bytes, heol]
    simp [linesBytes, Eol.bytes, Eol.front, crlf, cr, lf, headerTerminator]
  have hearly : (linesBytes (before ++ [last]) ++ crlf).dropLast =
      linesBytes (before ++ [last]) ++ [cr] := by
    rw [show crlf = [cr] ++ [lf] from rfl, ← List.append_assoc, List.dropLast_concat]
  have hnot : ¬ headerTerminator <:+: linesBytes (before ++ [last]) ++ [cr] := by
    rw [headerTerminator_infix_linesBytes]
    exact not_or.mpr ⟨fun hp => absurd hp.2 (by decide), by decide⟩
  rw [← hearly, hends] at hnot
  rw [headerEnd, hends, Bytes.find_of_dropLast headerTerminator_ne_nil hnot, Option.map_some,
    ← List.length_append]

theorem headerEnd_lines {lines : List Bytes} (h : ∀ l ∈ lines, IsLine l) (hne : lines ≠ [])
    (rest : Bytes) : headerEnd (lines.flatMap (· ++ crlf) ++ crlf ++ rest) =
      some (lines.flatMap (· ++ crlf) ++ crlf).length := by
  obtain ⟨ended, hbytes, rfl, heol⟩ := exists_linesBytes h .crlf
  have hlast : ended.getLast?.map Line.eol = some .crlf := by
    rw [List.getLast?_eq_some_getLast (mt List.map_eq_nil_iff.mpr hne), Option.map_some,
      heol _ (List.getLast_mem _)]
  have hends := headerEnd_linesBytes hlast rest
  rwa [hbytes] at hends

/-! ## Lines that may hold a CR -/

theorem splitOn_unbroken {lines : List Bytes} (h : ∀ l ∈ lines, lf ∉ l) (s : Bytes) :
    Bytes.splitOn lf (lines.flatMap (· ++ crlf) ++ s) =
      lines.map (· ++ [cr]) ++ Bytes.splitOn lf s := by
  induction lines with
  | nil => rfl
  | cons l rest ih =>
    obtain ⟨hl, hrest⟩ := List.forall_mem_cons.mp h
    have hfront : lf ∉ l ++ [cr] := by
      rw [List.mem_append, not_or]
      exact ⟨hl, by decide⟩
    have hcons : (l :: rest).flatMap (· ++ crlf) ++ s =
        (l ++ [cr]) ++ lf :: (rest.flatMap (· ++ crlf) ++ s) := by
      simp [crlf, cr, lf]
    rw [hcons, Bytes.splitOn_append hfront, ih hrest]
    rfl

theorem headerTerminator_infix_unbroken {u : Bytes} (h : lf ∉ u) (s : Bytes) :
    headerTerminator <:+: u ++ crlf ++ s ↔ crlf <+: s ∨ headerTerminator <:+: s := by
  induction u with
  | nil =>
    have hlf : ¬ headerTerminator <+: lf :: s := fun hp =>
      absurd (List.cons_prefix_cons.mp hp).1 (by decide)
    rw [List.nil_append, show crlf ++ s = cr :: lf :: s from rfl, List.infix_cons_iff,
      List.infix_cons_iff, show cr :: lf :: s = crlf ++ s from rfl, headerTerminator_prefix_crlf]
    simp only [hlf, false_or]
  | cons b rest ih =>
    rw [List.mem_cons, not_or] at h
    -- a terminator that begins with the first byte would have its LF in the line
    have hb : ¬ headerTerminator <+: b :: (rest ++ crlf ++ s) := by
      intro hp
      have hp := (List.cons_prefix_cons.mp hp).2
      cases rest with
      | nil => exact absurd (List.cons_prefix_cons.mp hp).1 (by decide)
      | cons c rest => exact h.2 ((List.cons_prefix_cons.mp hp).1 ▸ List.mem_cons_self)
    rw [List.cons_append, List.cons_append, List.infix_cons_iff, ih h.2]
    simp only [hb, false_or]

theorem not_crlf_prefix_unbroken {u : Bytes} (hne : u ≠ []) (h : lf ∉ u) (s : Bytes) :
    ¬ crlf <+: u ++ crlf ++ s := by
  intro hp
  match u, hne, h with
  | [_], _, _ =>
    exact absurd (List.cons_prefix_cons.mp (List.cons_prefix_cons.mp hp).2).1 (by decide)
  | _ :: c :: _, _, h =>
    rw [List.mem_cons, not_or, List.mem_cons, not_or] at h
    exact h.2.1 (List.cons_prefix_cons.mp (List.cons_prefix_cons.mp hp).2).1

theorem not_headerTerminator_infix_unbroken {lines : List Bytes}
    (h : ∀ l ∈ lines, l ≠ [] ∧ lf ∉ l) :
    ¬ headerTerminator <:+: lines.flatMap (· ++ crlf) ++ [cr] := by
  induction lines with
  | nil => decide
  | cons l rest ih =>
    obtain ⟨hl, hrest⟩ := List.forall_mem_cons.mp h
    rw [List.flatMap_cons, List.append_assoc, headerTerminator_infix_unbroken hl.2, not_or]
    refine ⟨?_, ih hrest⟩
    cases rest with
    | nil => decide
    | cons next rest =>
      obtain ⟨hne, hlf⟩ := hrest next List.mem_cons_self
      rw [List.flatMap_cons, List.append_assoc]
      exact not_crlf_prefix_unbroken hne hlf _

/-- A head of lines without LF ends with its empty line, whatever else they hold. -/
theorem headerEnd_unbroken {lines : List Bytes} (h : ∀ l ∈ lines, l ≠ [] ∧ lf ∉ l)
    (hne : lines ≠ []) : headerEnd (lines.flatMap (· ++ crlf) ++ crlf) =
      some (lines.flatMap (· ++ crlf) ++ crlf).length := by
  have hnot := not_headerTerminator_infix_unbroken h
  obtain ⟨before, last, rfl⟩ := List.eq_nil_or_concat lines |>.resolve_left hne
  have hends : (before ++ [last]).flatMap (· ++ crlf) ++ crlf =
      before.flatMap (· ++ crlf) ++ last ++ headerTerminator := by
    simp [crlf, headerTerminator]
  have hearly : ((before ++ [last]).flatMap (· ++ crlf) ++ crlf).dropLast =
      (before ++ [last]).flatMap (· ++ crlf) ++ [cr] := by
    rw [show crlf = [cr] ++ [lf] from rfl, ← List.append_assoc, List.dropLast_concat]
  rw [List.concat_eq_append] at hnot ⊢
  rw [← hearly, hends] at hnot
  rw [headerEnd, hends, Bytes.find_of_dropLast headerTerminator_ne_nil hnot, Option.map_some,
    ← List.length_append]

end Http

end Wiretap
