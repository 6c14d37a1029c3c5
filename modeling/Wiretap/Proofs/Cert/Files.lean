import Wiretap.Cert.Authority

/-!
# Files of the directory

What each operation leaves of the entries: a write changes its own file, and the others none.
Certificates and keys never share a file, and neither do two names (`certFile_ne_keyFile`,
`certFile_inj`, `keyFile_inj`).
-/

namespace Wiretap.Cert

/-! ## Names -/

theorem certFile_inj {a b : String} : certFile a = certFile b ↔ a = b := by
  simp [certFile]

theorem keyFile_inj {a b : String} : keyFile a = keyFile b ↔ a = b := by
  simp [keyFile]

theorem certFile_ne_keyFile (a b : String) : certFile a ≠ keyFile b := by
  intro h
  have hlast := congrArg (fun s => s.toList.getLast?) h
  simp [certFile, keyFile] at hlast

/-- The two files of a name. -/
def IsFileOf (name file : String) : Prop := file = certFile name ∨ file = keyFile name

theorem IsFileOf.eq {a b file : String} (ha : IsFileOf a file) (hb : IsFileOf b file) : a = b := by
  rcases ha with rfl | rfl <;> rcases hb with hb | hb
  · exact certFile_inj.mp hb
  · exact absurd hb (certFile_ne_keyFile a b)
  · exact absurd hb.symm (certFile_ne_keyFile b a)
  · exact keyFile_inj.mp hb

/-! ## Operations -/

namespace Vault

variable {v v' : Vault} {file : String}

theorem lookup_filter_ne (entries : List (String × Entry)) {n : String} (h : n ≠ file) :
    (entries.filter (·.1 != file)).lookup n = entries.lookup n := by
  induction entries with
  | nil => rfl
  | cons entry entries ih =>
    obtain ⟨m, e⟩ := entry
    by_cases hm : m = file
    · subst hm
      rw [List.filter_cons_of_neg (by simp), ih, List.lookup_cons, beq_false_of_ne h]
    · rw [List.filter_cons_of_pos (by simpa using hm), List.lookup_cons, List.lookup_cons, ih]

theorem lookup_filter_self (entries : List (String × Entry)) :
    (entries.filter (·.1 != file)).lookup file = none := by
  rw [List.lookup_eq_none_iff]
  intro entry hentry
  have hne := (List.mem_filter.mp hentry).2
  rw [bne_iff_ne] at hne
  simpa using hne.symm

theorem get?_put (v : Vault) (file : String) (entry : Entry) (n : String) :
    (v.put file entry).get? n = if n = file then some entry else v.get? n := by
  have hentries : (v.put file entry).entries = (file, entry) :: v.entries.filter (·.1 != file) :=
    rfl
  rw [get?, hentries, List.lookup_cons]
  by_cases h : n = file
  · rw [if_pos h, beq_iff_eq.mpr h]
  · rw [if_neg h, beq_false_of_ne h]
    exact lookup_filter_ne _ h

theorem eq_put_of_write {content : Content} (h : v.write file content = .ok v') :
    v' = v.put file (.file content) := by
  unfold write at h
  split at h
  · cases h
  · exact (Except.ok.inj h).symm

theorem place_of_write {content : Content} (h : v.write file content = .ok v') :
    ∃ entries, v'.place = .directory entries := by
  rw [eq_put_of_write h]
  exact ⟨_, rfl⟩

theorem get?_of_make (h : v.make = .ok v') : v'.get? = v.get? := by
  funext n
  unfold make at h
  split at h
  · rename_i hplace
    cases h
    simp [get?, entries, hplace]
  · cases h
  · cases h
    rfl

theorem place_of_make (h : v.make = .ok v') :
    v'.nextKey = v.nextKey ∧ ∃ entries, v'.place = .directory entries := by
  unfold make at h
  split at h
  · cases h
    exact ⟨rfl, _, rfl⟩
  · cases h
  · rename_i entries hplace
    cases h
    exact ⟨rfl, entries, hplace⟩

theorem get?_of_read {content : Content} (h : v.read file = .ok content) :
    v.get? file = some (.file content) := by
  unfold read at h
  split at h
  · cases h
  · cases h
  · rename_i hget
    split at h
    · cases h
      exact hget
    · cases h
  · rename_i hget
    cases h
    exact hget

theorem get?_remove (v : Vault) (file n : String) :
    ((v.remove file).getD v).get? n = if n = file then none else v.get? n := by
  unfold remove
  by_cases hhas : v.has file = true
  · rw [if_pos hhas]
    by_cases h : n = file
    · rw [if_pos h, h]
      exact lookup_filter_self v.entries
    · rw [if_neg h]
      exact lookup_filter_ne v.entries h
  · rw [if_neg hhas]
    by_cases h : n = file
    · rw [if_pos h, h]
      exact Option.not_isSome_iff_eq_none.mp hhas
    · rw [if_neg h]
      rfl

theorem place_of_remove (v : Vault) (file : String) (h : ∃ entries, v.place = .directory entries) :
    ∃ entries, ((v.remove file).getD v).place = .directory entries := by
  unfold remove
  split
  · exact ⟨_, rfl⟩
  · exact h

theorem nextKey_remove (v : Vault) (file : String) :
    ((v.remove file).getD v).nextKey = v.nextKey := by
  unfold remove
  split <;> rfl

end Vault

namespace Authority

variable {v v' : Vault} {file : String} {content : Content}

theorem store_of_write (h : v.write file content = .ok v') : store v file content = .ok v' := by
  rw [store, h]
  rfl

theorem store_of_write_error {e : Error} (h : v.write file content = .error e) :
    store v file content = .error (writeFailure v file e) := by
  rw [store, h]
  rfl

end Authority

end Wiretap.Cert
