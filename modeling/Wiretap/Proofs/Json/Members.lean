import Mathlib.Data.List.Perm.Basic
import Wiretap.Proofs.Json.Printed

/-!
# Members in any order

Members that are inserted one after another come to stand in the order of their names, in
whatever order they were inserted, as long as no name stands twice (`inserted_of_perm`).
-/

namespace Wiretap.Json

theorem orderedMembers_iff {members : Members} :
    OrderedMembers members ↔ ∀ m ∈ members, m.2.Ordered := by
  induction members with
  | nil => simp [OrderedMembers]
  | cons m rest ih => rw [OrderedMembers, List.forall_mem_cons, ih]

/-- Members inserted one after another. -/
def inserted (acc : Members) (members : List (String × Json)) : Members :=
  members.foldl (fun acc m => insert m.1 m.2 acc) acc

theorem insert_perm {name : String} {v : Json} {members : Members}
    (h : name ∉ members.map Prod.fst) : (insert name v members).Perm ((name, v) :: members) := by
  induction members with
  | nil => exact .refl _
  | cons m rest ih =>
    obtain ⟨n, w⟩ := m
    rw [List.map_cons, List.mem_cons, not_or] at h
    rw [insert]
    split
    · exact .refl _
    split
    · exact ((ih h.2).cons (n, w)).trans (.swap _ _ _)
    · rename_i hlt hgt
      exact absurd (String.le_antisymm hgt hlt) h.1

theorem mem_insert {name : String} {v : Json} {members : Members} {m : String × Json}
    (h : m ∈ insert name v members) : m = (name, v) ∨ m ∈ members := by
  induction members with
  | nil => exact .inl (List.mem_singleton.mp h)
  | cons first rest ih =>
    obtain ⟨n, w⟩ := first
    rw [insert] at h
    split at h
    · exact List.mem_cons.mp h
    split at h
    · rcases List.mem_cons.mp h with rfl | h
      · exact .inr List.mem_cons_self
      · exact (ih h).imp_right (List.mem_cons_of_mem _)
    · exact (List.mem_cons.mp h).imp_right (List.mem_cons_of_mem _)

theorem pairwise_insert (name : String) (v : Json) {members : Members}
    (hs : members.Pairwise fun a b => a.1 < b.1) :
    (insert name v members).Pairwise fun a b => a.1 < b.1 := by
  induction members with
  | nil => exact List.pairwise_singleton _ _
  | cons m rest ih =>
    obtain ⟨n, w⟩ := m
    obtain ⟨hfirst, hrest⟩ := List.pairwise_cons.mp hs
    rw [insert]
    split
    · rename_i hlt
      refine List.pairwise_cons.mpr ⟨List.forall_mem_cons.mpr ⟨hlt, fun m hm => ?_⟩, hs⟩
      exact String.lt_trans hlt (hfirst m hm)
    split
    · rename_i hgt
      refine List.pairwise_cons.mpr ⟨fun m hm => ?_, ih hrest⟩
      rcases mem_insert hm with rfl | hm
      · exact hgt
      · exact hfirst m hm
    · rename_i hlt hgt
      rw [String.le_antisymm hgt hlt]
      exact List.pairwise_cons.mpr ⟨hfirst, hrest⟩

theorem inserted_sorted {acc members : Members} (hs : acc.Pairwise fun a b => a.1 < b.1)
    (hn : ((acc ++ members).map Prod.fst).Nodup) :
    (inserted acc members).Perm (acc ++ members) ∧
      (inserted acc members).Pairwise fun a b => a.1 < b.1 := by
  induction members generalizing acc with
  | nil => exact ⟨by rw [List.append_nil]; exact .refl _, hs⟩
  | cons m rest ih =>
    have hm : m.1 ∉ acc.map Prod.fst := by
      rw [List.map_append, List.nodup_append] at hn
      exact fun hmem => hn.2.2 _ hmem m.1 List.mem_cons_self rfl
    have hperm : (insert m.1 m.2 acc ++ rest).Perm (acc ++ m :: rest) :=
      ((insert_perm hm).append_right rest).trans List.perm_middle.symm
    obtain ⟨hrest, hsorted⟩ :=
      ih (pairwise_insert m.1 m.2 hs) ((hperm.map Prod.fst).nodup_iff.mpr hn)
    exact ⟨hrest.trans hperm, hsorted⟩

/-- Members in order are what comes of inserting them in any order. -/
theorem inserted_of_perm {members written : Members} (h : written.Perm members)
    (hs : (members.map Prod.fst).Pairwise (· < ·)) : inserted [] written = members := by
  have hnodup : (members.map Prod.fst).Nodup := hs.imp fun {a b} hlt => by
    rintro rfl
    exact String.lt_irrefl a hlt
  obtain ⟨hperm, hsorted⟩ := inserted_sorted List.Pairwise.nil
    ((h.map Prod.fst).nodup_iff.mpr hnodup)
  exact (hperm.trans h).eq_of_pairwise
    (fun _ _ _ _ hlt hgt => absurd hgt (String.lt_asymm hlt)) hsorted (List.pairwise_map.mp hs)

end Wiretap.Json
