import Wiretap.Proofs.Http.Heads

/-!
# Room for fields

A head is read by adding its fields to a table one after another (`parse_eq_foldlM`). A table takes
a field as long as it has fewer names than its capacity, so it never has more (`distinct_le_of_fits`),
and it is brought down by the first field that comes when it has just as many, be its name a new one
or not (`fits_eq_false_iff`). A head in which that happens is longer than three times the capacity
(`length_of_overfills`).
-/

namespace Wiretap.Http

namespace Headers

/-- Adds a field to a table. -/
def add (h : Headers) (f : Field) : Except Crash Headers :=
  if distinct h.fields < capacity then .ok ⟨h.fields ++ [f]⟩ else .error .crowdedHead

/-- One of the fields comes when the table has as many names as there is room for. -/
def Overfills (fields : List Field) : Prop :=
  ∃ before f after, fields = before ++ f :: after ∧
    before.foldlM add ⟨[]⟩ = .ok ⟨before⟩ ∧ distinct before = capacity

theorem distinct_le_length (fields : List Field) : distinct fields ≤ fields.length := by
  have hle := (List.dedup_sublist (fields.map Field.name)).length_le
  rwa [← distinct_eq, List.length_map] at hle

theorem distinct_concat_le (fields : List Field) (f : Field) :
    distinct (fields ++ [f]) ≤ distinct fields + 1 := by
  have hnames : ((fields ++ [f]).map Field.name).dedup ⊆
      f.name :: (fields.map Field.name).dedup := fun name hname => by
    rw [List.mem_dedup, List.map_append, List.map_singleton, List.mem_append,
      List.mem_singleton] at hname
    rw [List.mem_cons, List.mem_dedup]
    exact hname.symm
  rw [distinct_eq, distinct_eq, ← List.length_cons]
  exact ((List.nodup_dedup _).subperm hnames).length_le

theorem foldlM_add_concat (fields : List Field) (f : Field) :
    (fields ++ [f]).foldlM add ⟨[]⟩ = (fields.foldlM add ⟨[]⟩).bind (·.add f) := by
  rw [List.foldlM_append]
  refine bind_congr fun h => ?_
  rw [List.foldlM_cons]
  cases h.add f <;> rfl

/-- The last field finds room if there are few names in front of it. -/
theorem fits_concat (fields : List Field) (f : Field) :
    fits (fields ++ [f]) = decide (distinct fields < capacity) := by
  have hle := distinct_le_length fields
  rw [fits, List.dropLast_concat, List.length_append, List.length_singleton, Bool.eq_iff_iff,
    Bool.or_eq_true, decide_eq_true_eq, decide_eq_true_eq]
  omega

theorem fits_concat_of_not_fits {fields : List Field} (h : fits fields = false) (f : Field) :
    fits (fields ++ [f]) = false := by
  unfold fits at h
  rw [Bool.or_eq_false_iff, decide_eq_false_iff_not, decide_eq_false_iff_not] at h
  have hle := distinct_le_of_subset (List.dropLast_subset fields)
  rw [fits_concat, decide_eq_false_iff_not]
  omega

/-- A table never has more names than there is room for. -/
theorem distinct_le_of_fits {fields : List Field} (h : fits fields = true) :
    distinct fields ≤ capacity := by
  induction fields using List.reverseRecOn with
  | nil => exact Nat.zero_le _
  | append_singleton fields f =>
    rw [fits_concat, decide_eq_true_eq] at h
    exact (distinct_concat_le fields f).trans h

/-- Fields that are added one after another are all taken if they fit. -/
theorem foldlM_add_eq (fields : List Field) :
    fields.foldlM add ⟨[]⟩ = if fits fields then .ok ⟨fields⟩ else .error .crowdedHead := by
  induction fields using List.reverseRecOn with
  | nil => rfl
  | append_singleton fields f ih =>
    rw [foldlM_add_concat, ih]
    cases hfits : fits fields with
    | true =>
      rw [fits_concat, if_pos rfl]
      simp only [decide_eq_true_eq]
      rfl
    | false =>
      rw [fits_concat_of_not_fits hfits]
      rfl

/-- They fit unless one of them comes when all room is taken. -/
theorem fits_eq_false_iff {fields : List Field} : fits fields = false ↔ Overfills fields := by
  constructor
  · intro h
    induction fields using List.reverseRecOn with
    | nil => cases h
    | append_singleton fields f ih =>
      cases hfits : fits fields with
      | true =>
        have hfold := foldlM_add_eq fields
        rw [if_pos hfits] at hfold
        rw [fits_concat, decide_eq_false_iff_not, Nat.not_lt] at h
        exact ⟨fields, f, [], rfl, hfold, Nat.le_antisymm (distinct_le_of_fits hfits) h⟩
      | false =>
        obtain ⟨before, g, after, rfl, hbefore, hfull⟩ := ih hfits
        exact ⟨before, g, after ++ [f], by simp, hbefore, hfull⟩
  · rintro ⟨before, f, after, rfl, -, hfull⟩
    rw [List.append_cons]
    induction after using List.reverseRecOn with
    | nil =>
      rw [List.append_nil, fits_concat, hfull]
      decide
    | append_singleton after g ih =>
      rw [← List.append_assoc]
      exact fits_concat_of_not_fits ih g

end Headers

theorem parse_eq_foldlM (head : Bytes) :
    ResponseHead.parse head =
      ((headFields head).foldlM Headers.add ⟨[]⟩).map fun table =>
        ⟨head.length, (((Bytes.splitOn Bytes.lf head).head?.bind status?).getD .ok), table⟩ := by
  rw [Headers.foldlM_add_eq, apply_ite (Except.map _)]
  rfl

/-! ## How long a crowded head is -/

theorem two_le_of_field? {line : Bytes} {f : Field} (h : field? line = some f) :
    2 ≤ line.length := by
  have hchomp : (Bytes.chomp line).length ≤ line.length := by
    unfold Bytes.chomp
    split
    · split
      · exact (List.dropLast_sublist line).length_le
      · exact Nat.le_refl _
    · exact Nat.le_refl _
  have hlen := congrArg List.length
    (List.takeWhile_append_dropWhile (p := (· != Bytes.colon)) (l := Bytes.chomp line))
  rw [List.length_append] at hlen
  unfold field? at h
  split at h
  · cases h
  · rename_i value hdrop
    split at h
    · rename_i name _ hname _
      have hne := (isTokenByte_of_fieldName? hname).1
      have hpos : 0 < ((Bytes.chomp line).takeWhile (· != Bytes.colon)).length := by
        refine List.length_pos_iff.mpr fun hnil => hne ?_
        rw [hnil]
        rfl
      rw [hdrop, List.length_cons] at hlen
      omega
    · cases h

theorem length_filterMap_field?_le (s : Bytes) :
    3 * ((Bytes.splitOn Bytes.lf s).filterMap field?).length ≤ s.length + 1 := by
  have hline (line : Bytes) : 3 * ([line].filterMap field?).length ≤ line.length + 1 := by
    cases h : field? line with
    | none => simp [h]
    | some f =>
      have := two_le_of_field? h
      rw [List.filterMap_cons_some h, List.filterMap_nil, List.length_singleton]
      omega
  induction hn : s.length using Nat.strong_induction_on generalizing s with
  | _ n ih =>
    subst hn
    rcases Bytes.splitOn_cases Bytes.lf s with ⟨-, hs⟩ | ⟨line, rest, rfl, -, hs⟩
    · rw [hs]
      exact hline s
    · rw [List.length_append, List.length_cons] at ih
      have hfirst := hline line
      have hrest := ih rest.length (by omega) rest rfl
      rw [hs, ← List.singleton_append, List.filterMap_append, List.length_append,
        List.length_append, List.length_cons]
      omega

theorem length_of_overfills {head : Bytes} (h : Headers.Overfills (headFields head)) :
    3 * Headers.capacity < head.length := by
  obtain ⟨before, f, after, hfields, -, hfull⟩ := h
  have hcount := Headers.distinct_le_length before
  have hlen := length_filterMap_field?_le head
  have hsub : (headFields head).length ≤ ((Bytes.splitOn Bytes.lf head).filterMap field?).length :=
    ((List.drop_sublist 1 _).filterMap field?).length_le
  rw [hfields, List.length_append, List.length_cons] at hsub
  omega

end Wiretap.Http
