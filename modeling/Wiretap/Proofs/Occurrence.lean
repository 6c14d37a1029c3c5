import Mathlib.Data.List.Infix
import Mathlib.Data.Nat.Find
import Wiretap.Http.Head

/-!
# First occurrences

`find` gives the first place where a needle stands. What has been found stays found
when the haystack grows, and a prefix of a haystack finds it as soon as all of it is
there. A needle that does not stand in what was there before shows up in the last
bytes of what is there now.
-/

namespace Wiretap

namespace Bytes

section

variable {α : Type} [BEq α] [LawfulBEq α] {a : α} {s : List α}

theorem bne_of_notMem (h : a ∉ s) : ∀ b ∈ s, (b != a) = true := fun _ hb =>
  bne_iff_ne.mpr (ne_of_mem_of_not_mem hb h)

theorem takeWhile_of_notMem (h : a ∉ s) (t : List α) :
    (s ++ a :: t).takeWhile (· != a) = s := by
  rw [List.takeWhile_append_of_pos (bne_of_notMem h), List.takeWhile_cons_of_neg (by simp),
    List.append_nil]

theorem dropWhile_of_notMem (h : a ∉ s) (t : List α) :
    (s ++ a :: t).dropWhile (· != a) = a :: t := by
  rw [List.dropWhile_append_of_pos (bne_of_notMem h), List.dropWhile_cons_of_neg (by simp)]

end

theorem infix_iff_exists_drop {needle s : Bytes} :
    needle <:+: s ↔ ∃ k, needle <+: s.drop k := by
  rw [List.infix_iff_prefix_suffix]
  constructor
  · rintro ⟨t, hp, hs⟩
    exact ⟨s.length - t.length, by rwa [← List.suffix_iff_eq_drop.mp hs]⟩
  · rintro ⟨k, h⟩
    exact ⟨s.drop k, h, List.drop_suffix k s⟩

theorem findFrom_eq_some_iff {needle : Bytes} (hn : needle ≠ []) {s : Bytes} {i k : Nat} :
    findFrom needle i s = some k ↔
      ∃ j, k = i + j ∧ needle <+: s.drop j ∧ ∀ m < j, ¬ needle <+: s.drop m := by
  induction s generalizing i with
  | nil => simp [findFrom, hn]
  | cons b rest ih =>
    simp only [findFrom, List.isPrefixOf_iff_prefix]
    split
    · rename_i h
      constructor
      · rintro ⟨⟩
        exact ⟨0, rfl, h, fun _ hm => absurd hm (Nat.not_lt_zero _)⟩
      · rintro ⟨j, rfl, -, hmin⟩
        cases j with
        | zero => rfl
        | succ j => exact absurd h (hmin 0 (Nat.succ_pos j))
    · rename_i h
      rw [ih]
      constructor
      · rintro ⟨j, rfl, hj, hmin⟩
        refine ⟨j + 1, by omega, hj, fun m hm => ?_⟩
        cases m with
        | zero => exact h
        | succ m => exact hmin m (by omega)
      · rintro ⟨j, rfl, hj, hmin⟩
        cases j with
        | zero => exact absurd hj h
        | succ j => exact ⟨j, by omega, hj, fun m hm => hmin (m + 1) (by omega)⟩

theorem find_eq_some_iff {needle : Bytes} (hn : needle ≠ []) {s : Bytes} {k : Nat} :
    find s needle = some k ↔ needle <+: s.drop k ∧ ∀ m < k, ¬ needle <+: s.drop m := by
  rw [find, if_neg (by simpa using hn), findFrom_eq_some_iff hn]
  simp

theorem find_eq_none_iff {needle : Bytes} (hn : needle ≠ []) {s : Bytes} :
    find s needle = none ↔ ¬ needle <:+: s := by
  constructor
  · intro h hin
    -- the least place where the needle stands would have been found
    obtain ⟨k, hk⟩ := infix_iff_exists_drop.mp hin
    classical
    have hex : ∃ k, needle <+: s.drop k := ⟨k, hk⟩
    have hf := (find_eq_some_iff hn).mpr ⟨Nat.find_spec hex, fun m hm => Nat.find_min hex hm⟩
    rw [h] at hf
    cases hf
  · intro h
    cases hf : find s needle with
    | none => rfl
    | some k => exact absurd (infix_iff_exists_drop.mpr ⟨k, ((find_eq_some_iff hn).mp hf).1⟩) h

theorem isSome_find_iff {needle : Bytes} (hn : needle ≠ []) {s : Bytes} :
    (find s needle).isSome ↔ needle <:+: s := by
  rw [Option.isSome_iff_ne_none, ne_eq, find_eq_none_iff hn, Classical.not_not]

theorem add_length_le_of_find {needle : Bytes} (hn : needle ≠ []) {s : Bytes} {k : Nat}
    (h : find s needle = some k) : k + needle.length ≤ s.length := by
  have hle := ((find_eq_some_iff hn).mp h).1.length_le
  have hpos := List.length_pos_iff.mpr hn
  rw [List.length_drop] at hle
  omega

theorem prefix_drop_append_iff {needle s t : Bytes} {k : Nat} (h : k + needle.length ≤ s.length) :
    needle <+: (s ++ t).drop k ↔ needle <+: s.drop k := by
  rw [List.drop_append_of_le_length (by omega)]
  exact List.isPrefix_append_of_length (by rw [List.length_drop]; omega)

theorem find_append {needle : Bytes} (hn : needle ≠ []) {s t : Bytes} {k : Nat}
    (h : find s needle = some k) : find (s ++ t) needle = some k := by
  have hle := add_length_le_of_find hn h
  rw [find_eq_some_iff hn] at h ⊢
  refine ⟨(prefix_drop_append_iff hle).mpr h.1, fun m hm hp => h.2 m hm ?_⟩
  exact (prefix_drop_append_iff (by omega)).mp hp

/-- What a prefix of a haystack finds. -/
theorem find_of_isPrefix {needle : Bytes} (hn : needle ≠ []) {p s : Bytes} (hp : p <+: s) {k : Nat}
    (h : find s needle = some k) :
    find p needle = if k + needle.length ≤ p.length then some k else none := by
  obtain ⟨t, rfl⟩ := hp
  cases hf : find p needle with
  | none =>
    rw [if_neg]
    intro hle
    rw [find_eq_some_iff hn, prefix_drop_append_iff hle] at h
    exact (find_eq_none_iff hn).mp hf (infix_iff_exists_drop.mpr ⟨k, h.1⟩)
  | some j =>
    have hj := find_append hn (t := t) hf
    rw [h] at hj
    cases hj
    rw [if_pos (add_length_le_of_find hn hf)]

/-- A line ends at the first CR LF. -/
theorem find_crlf {line : Bytes} (h : ¬ crlf <:+: line) (rest : Bytes) :
    find (line ++ crlf ++ rest) crlf = some line.length := by
  rw [find_eq_some_iff (by decide), List.append_assoc]
  refine ⟨by rw [List.drop_left]; exact List.prefix_append _ _, fun m hm hp => ?_⟩
  rcases Nat.lt_or_ge line.length (m + 2) with hlast | hle
  · -- the CR would be the last byte of the line, but a CR follows it
    rw [List.drop_append_of_le_length (Nat.le_of_lt hm)] at hp
    obtain ⟨b, hb⟩ := List.length_eq_one_iff.mp (show (line.drop m).length = 1 by
      rw [List.length_drop]; omega)
    rw [hb] at hp
    simp [crlf] at hp
  · exact h (infix_iff_exists_drop.mpr ⟨m, (prefix_drop_append_iff hle).mp hp⟩)

theorem find_crlf_of_part {line p : Bytes} (h : ¬ crlf <:+: line) (hp : p <+: line ++ crlf)
    (hlt : p.length < line.length + 2) : find p crlf = none := by
  have hfind := find_crlf h []
  rw [List.append_nil] at hfind
  rw [find_of_isPrefix (by decide) hp hfind]
  exact if_neg (Nat.not_le_of_lt hlt)

/-- A needle that comes with the bytes of `c` lies within them and its own length before them. -/
theorem infix_recent_iff {needle g c : Bytes} (h : ¬ needle <:+: g) :
    needle <:+: (g ++ c).drop ((g ++ c).length - (c.length + (needle.length - 1))) ↔
      needle <:+: g ++ c := by
  constructor
  · exact fun hin => hin.trans (List.drop_suffix _ _).isInfix
  · rintro ⟨a, b, hab⟩
    have hlen := congrArg List.length hab
    simp only [List.length_append] at hlen
    have hlate : g.length < a.length + needle.length := by
      refine Nat.lt_of_not_le fun hle => h ?_
      have hpre : a ++ needle <+: g := by
        refine List.prefix_of_prefix_length_le ⟨b, hab⟩ (List.prefix_append g c) ?_
        simpa using hle
      exact List.infix_append_right.trans hpre.isInfix
    rw [← hab, List.append_assoc, List.drop_append_of_le_length
      (by simp only [List.length_append]; omega)]
    exact List.infix_append' _ _ _

end Bytes

namespace Http

theorem headerTerminator_ne_nil : headerTerminator ≠ [] := by decide

theorem lastChunk_ne_nil : lastChunk ≠ [] := by decide

theorem isSome_headerEnd_iff {s : Bytes} :
    (headerEnd s).isSome ↔ headerTerminator <:+: s := by
  rw [headerEnd, Option.isSome_map, Bytes.isSome_find_iff headerTerminator_ne_nil]

theorem headerEnd_eq_none_iff {s : Bytes} : headerEnd s = none ↔ ¬ headerTerminator <:+: s := by
  rw [← isSome_headerEnd_iff, Option.not_isSome_iff_eq_none]

theorem headerEnd_append {s t : Bytes} {n : Nat} (h : headerEnd s = some n) :
    headerEnd (s ++ t) = some n := by
  obtain ⟨k, hk, rfl⟩ := Option.map_eq_some_iff.mp h
  rw [headerEnd, Bytes.find_append headerTerminator_ne_nil hk]
  rfl

theorem headerEnd_le {s : Bytes} {n : Nat} (h : headerEnd s = some n) : n ≤ s.length := by
  obtain ⟨k, hk, rfl⟩ := Option.map_eq_some_iff.mp h
  exact Bytes.add_length_le_of_find headerTerminator_ne_nil hk

theorem le_of_headerEnd {s : Bytes} {n : Nat} (h : headerEnd s = some n) :
    headerTerminator.length ≤ n := by
  obtain ⟨k, -, rfl⟩ := Option.map_eq_some_iff.mp h
  exact Nat.le_add_left _ _

theorem headerEnd_of_isPrefix {p s : Bytes} (hp : p <+: s) {n : Nat} (h : headerEnd s = some n) :
    headerEnd p = if n ≤ p.length then some n else none := by
  obtain ⟨k, hk, rfl⟩ := Option.map_eq_some_iff.mp h
  rw [headerEnd, Bytes.find_of_isPrefix headerTerminator_ne_nil hp hk]
  split <;> rfl

end Http

end Wiretap
