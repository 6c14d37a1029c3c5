import Wiretap.Proofs.Json.Members

/-!
# What is parsed

Whole numbers that are parsed fit 64 bits (`sized_parseChars`), and the members of what is parsed
stand in order (`ordered_parseChars`). Both pass from values to what is built of their parts
(`Closed`).
-/

namespace Wiretap.Json

open Wiretap.Number (word64)

/-! ## Properties of parts -/

theorem itemNumbers_iff {p : Json.Number → Prop} {items : List Json} :
    ItemNumbers p items ↔ ∀ v ∈ items, v.Numbers p := by
  induction items with
  | nil => simp [ItemNumbers]
  | cons v rest ih => rw [ItemNumbers, List.forall_mem_cons, ih]

theorem memberNumbers_iff {p : Json.Number → Prop} {members : Members} :
    MemberNumbers p members ↔ ∀ m ∈ members, m.2.Numbers p := by
  induction members with
  | nil => simp [MemberNumbers]
  | cons m rest ih => rw [MemberNumbers, List.forall_mem_cons, ih]

theorem orderedItems_iff {items : List Json} : OrderedItems items ↔ ∀ v ∈ items, v.Ordered := by
  induction items with
  | nil => simp [OrderedItems]
  | cons v rest ih => rw [OrderedItems, List.forall_mem_cons, ih]

/-- A property that a list has if all its items have it, and that members which are inserted pass
on to an object. -/
structure Closed (P : Json → Prop) : Prop where
  null : P .null
  bool : ∀ b, P (.bool b)
  arr : ∀ {items}, P (.arr items) ↔ ∀ v ∈ items, P v
  obj : P (.obj [])
  insert : ∀ {name v members}, P v → P (.obj members) → P (.obj (Json.insert name v members))

theorem closed_numbers (p : Json.Number → Prop) : Closed (Numbers p) where
  null := trivial
  bool _ := trivial
  arr := itemNumbers_iff
  obj := trivial
  insert hv hmembers := memberNumbers_iff.mpr fun _ hm => by
    rcases mem_insert hm with rfl | hm
    · exact hv
    · exact memberNumbers_iff.mp hmembers _ hm

theorem closed_ordered : Closed Ordered where
  null := trivial
  bool _ := trivial
  arr := orderedItems_iff
  obj := ⟨List.Pairwise.nil, trivial⟩
  insert := by
    rintro name v members hv ⟨hnames, hmembers⟩
    refine ⟨List.pairwise_map.mpr (pairwise_insert name v (List.pairwise_map.mp hnames)),
      orderedMembers_iff.mpr fun m hm => ?_⟩
    rcases mem_insert hm with rfl | hm
    · exact hv
    · exact orderedMembers_iff.mp hmembers m hm

mutual

theorem Numbers.legible : ∀ {v : Json}, v.Numbers Number.Legible → v.Legible
  | null, _ | bool _, _ | str _, _ => trivial
  | num _, h => h
  | arr items, h => @ItemNumbers.legible items h
  | obj members, h => @MemberNumbers.legible members h

theorem ItemNumbers.legible : ∀ {items : List Json}, ItemNumbers Number.Legible items →
    LegibleItems items
  | [], _ => trivial
  | _ :: _, h => ⟨h.1.legible, h.2.legible⟩

theorem MemberNumbers.legible : ∀ {members : List (String × Json)},
    MemberNumbers Number.Legible members → LegibleMembers members
  | [], _ => trivial
  | (_, _) :: _, h => ⟨h.1.legible, h.2.legible⟩

end

theorem closed_legible : Closed Legible := by
  have heq : Legible = Numbers Number.Legible :=
    funext fun v => propext ⟨Legible.numbers, Numbers.legible⟩
  rw [heq]
  exact closed_numbers _

mutual

theorem Numbers.and {p q : Json.Number → Prop} : ∀ {v : Json}, v.Numbers p → v.Numbers q →
    v.Numbers fun n => p n ∧ q n
  | null, _, _ | bool _, _, _ | str _, _, _ => trivial
  | num _, hp, hq => ⟨hp, hq⟩
  | arr items, hp, hq => @ItemNumbers.and p q items hp hq
  | obj members, hp, hq => @MemberNumbers.and p q members hp hq

theorem ItemNumbers.and {p q : Json.Number → Prop} : ∀ {items : List Json},
    ItemNumbers p items → ItemNumbers q items → ItemNumbers (fun n => p n ∧ q n) items
  | [], _, _ => trivial
  | _ :: _, hp, hq => ⟨hp.1.and hq.1, hp.2.and hq.2⟩

theorem MemberNumbers.and {p q : Json.Number → Prop} : ∀ {members : List (String × Json)},
    MemberNumbers p members → MemberNumbers q members →
      MemberNumbers (fun n => p n ∧ q n) members
  | [], _, _ => trivial
  | (_, _) :: _, hp, hq => ⟨hp.1.and hq.1, hp.2.and hq.2⟩

end

/-! ## Canonical values -/

mutual

theorem Numbers.canonical {p : Json.Number → Prop} : ∀ {v : Json}, v.Numbers p →
    v.canonical.Numbers p
  | null, _ | bool _, _ | str _, _ => trivial
  | num _, h => h
  | arr items, h => @ItemNumbers.canonical p items h
  | obj members, h => @MemberNumbers.canonical p members [] trivial h

theorem ItemNumbers.canonical {p : Json.Number → Prop} : ∀ {items : List Json},
    ItemNumbers p items → ItemNumbers p (canonicalItems items)
  | [], _ => trivial
  | _ :: _, h => ⟨h.1.canonical, h.2.canonical⟩

theorem MemberNumbers.canonical {p : Json.Number → Prop} : ∀ {members : List (String × Json)}
    {acc : Members}, (obj acc).Numbers p → MemberNumbers p members →
      (obj (canonicalMembers acc members)).Numbers p
  | [], _, hacc, _ => hacc
  | (name, v) :: rest, acc, hacc, h =>
    @MemberNumbers.canonical p rest (insert name v.canonical acc)
      ((closed_numbers p).insert h.1.canonical hacc) h.2

end

mutual

theorem ordered_canonical : ∀ v : Json, v.canonical.Ordered
  | null | bool _ | str _ | num _ => trivial
  | arr items => ordered_canonicalItems items
  | obj members => ordered_canonicalMembers members closed_ordered.obj

theorem ordered_canonicalItems : ∀ items : List Json, OrderedItems (canonicalItems items)
  | [] => trivial
  | v :: rest => ⟨ordered_canonical v, ordered_canonicalItems rest⟩

theorem ordered_canonicalMembers : ∀ (members : List (String × Json)) {acc : Members},
    (obj acc).Ordered → (obj (canonicalMembers acc members)).Ordered
  | [], _, hacc => hacc
  | (_, v) :: rest, _, hacc =>
    ordered_canonicalMembers rest (closed_ordered.insert (ordered_canonical v) hacc)

end

/-! ## Numerals -/

def Number.Whole : Json.Number → Prop
  | .int _ => True
  | .double _ => False

/-- A whole number within 64 bits, or a double. -/
def Number.Sized : Json.Number → Prop
  | .int n => Fits n
  | .double _ => True

theorem Number.Whole.legible : ∀ {n : Json.Number}, n.Whole → n.Sized → n.Legible
  | .int _, _, hsized => hsized
  | .double _, hwhole, _ => hwhole.elim

theorem sized_whole (negative : Bool) {n : Nat} (h : n ≤ word64) : (whole negative n).Sized := by
  unfold whole
  split
  · exact ⟨by omega, Int.ofNat_le.mpr h⟩
  split
  · trivial
  · exact ⟨by omega, by omega⟩

theorem sized_withExponent {negative : Bool} {significand : Nat} {power : Int} {s rest : List Char}
    {n : Json.Number} (h : withExponent negative significand power s = some (n, rest)) :
    n.Sized := by
  have hscaled {power : Int} (hn : scaledDouble negative significand power = some n) : n.Sized := by
    obtain ⟨units, -, rfl⟩ := Option.map_eq_some_iff.mp hn
    trivial
  unfold withExponent at h
  simp only at h
  split at h
  · obtain ⟨⟨e, t⟩, -, h⟩ := Option.bind_eq_some_iff.mp h
    obtain ⟨m, hm, heq⟩ := Option.map_eq_some_iff.mp h
    cases heq
    exact hscaled hm
  · obtain ⟨m, hm, heq⟩ := Option.map_eq_some_iff.mp h
    cases heq
    exact hscaled hm

theorem sized_unsignedNumeral {negative : Bool} {s rest : List Char} {n : Json.Number}
    (h : unsignedNumeral negative s = some (n, rest)) : n.Sized := by
  have hwhole : (whole negative (absorb 0 0 (digitsOf s)).1).Sized :=
    sized_whole negative (absorb_le (digitsOf s) (Nat.zero_le _) 0)
  unfold unsignedNumeral at h
  simp only at h
  split at h
  · cases h
  split at h
  · split at h
    · cases h
    · exact sized_withExponent h
  · split at h
    · exact sized_withExponent h
    · cases h
      exact hwhole
  · split at h
    · exact sized_withExponent h
    · cases h
      exact hwhole

theorem sized_numeral {s rest : List Char} {n : Json.Number} (h : numeral s = some (n, rest)) :
    n.Sized := by
  unfold numeral at h
  split at h <;> exact sized_unsignedNumeral h

/-! ## Values -/

mutual

-- the recursion is the parser's own, on the fuel
theorem sized_value : ∀ (fuel depth : Nat) {s rest : List Char} {v : Json},
    value fuel depth s = some (v, rest) → v.Numbers Number.Sized
  | 0, _, _, _, _, h => by cases h
  | fuel + 1, depth, s, rest, v, h => by
    rw [value] at h
    split at h
    iterate 3
      · cases h
        trivial
    · obtain ⟨text, -, heq⟩ := Option.map_eq_some_iff.mp h
      cases heq
      trivial
    · split at h
      · cases h
      split at h
      · cases h
        trivial
      · exact sized_items fuel _ (List.forall_mem_nil _) h
    · split at h
      · cases h
      split at h
      · cases h
        trivial
      · exact sized_members fuel _ (List.forall_mem_nil _) h
    · obtain ⟨⟨n, t⟩, hn, heq⟩ := Option.map_eq_some_iff.mp h
      cases heq
      exact sized_numeral hn

theorem sized_items : ∀ (fuel depth : Nat) {acc : List Json} {s rest : List Char} {v : Json},
    (∀ w ∈ acc, w.Numbers Number.Sized) → items fuel depth acc s = some (v, rest) →
    v.Numbers Number.Sized
  | 0, _, _, _, _, _, _, h => by cases h
  | fuel + 1, depth, acc, s, rest, v, hacc, h => by
    rw [items] at h
    split at h
    · cases h
    · rename_i hvalue
      have hall := List.forall_mem_cons.mpr ⟨sized_value fuel depth hvalue, hacc⟩
      split at h
      · exact sized_items fuel depth hall h
      · cases h
        exact itemNumbers_iff.mpr fun w hw => hall w (List.mem_reverse.mp hw)
      · cases h

theorem sized_members : ∀ (fuel depth : Nat) {acc : Members} {s rest : List Char} {v : Json},
    (∀ m ∈ acc, m.2.Numbers Number.Sized) → members fuel depth acc s = some (v, rest) →
    v.Numbers Number.Sized
  | 0, _, _, _, _, _, _, h => by cases h
  | fuel + 1, depth, acc, s, rest, v, hacc, h => by
    rw [members] at h
    split at h
    · split at h
      · cases h
      · rename_i name _ _
        split at h
        · split at h
          · cases h
          · rename_i w _ hvalue
            have hall : ∀ m ∈ (name, w) :: acc, m.2.Numbers Number.Sized :=
              List.forall_mem_cons.mpr ⟨sized_value fuel depth hvalue, hacc⟩
            split at h
            · exact sized_members fuel depth hall h
            · cases h
              exact memberNumbers_iff.mpr fun m hm => hall m (List.mem_reverse.mp hm)
            · cases h
        · cases h
    · cases h

end

theorem sized_parseChars {s : List Char} {v : Json} (h : parseChars s = some v) :
    v.Numbers Number.Sized := by
  obtain ⟨w, hread, rfl⟩ := Option.map_eq_some_iff.mp h
  refine Numbers.canonical ?_
  unfold readChars at hread
  split at hread
  · rename_i hvalue
    split at hread
    · cases hread
      exact sized_value _ _ hvalue
    · cases hread
  · cases hread

theorem ordered_parseChars {s : List Char} {v : Json} (h : parseChars s = some v) : v.Ordered := by
  obtain ⟨w, -, rfl⟩ := Option.map_eq_some_iff.mp h
  exact ordered_canonical w

end Wiretap.Json
