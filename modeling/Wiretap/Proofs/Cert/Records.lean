import Wiretap.Cert.Office

/-!
# Records in memory

What a registry finds after a record has come or gone (`Registry.find?_keep`,
`Registry.find?_drop`), and which errands an office has after one of them was set
(`setFlight_eq_some_iff`).
-/

namespace Wiretap.Cert

namespace Registry

variable {r : Registry} {record : Record} {host : String}

theorem find?_keep (r : Registry) (record : Record) (host : String) :
    (r.keep record).find? host = if record.host = host then some record else r.find? host := by
  by_cases h : record.host = host
  · rw [if_pos h]
    exact List.find?_cons_of_pos (beq_iff_eq.mpr h)
  · rw [if_neg h]
    exact List.find?_cons_of_neg (by simpa using h)

theorem host_of_find? (h : r.find? host = some record) : record.host = host :=
  beq_iff_eq.mp (List.find?_some (p := fun record : Record => record.host == host) h)

theorem find?_drop (r : Registry) (host other : String) :
    (r.drop host).find? other = if other = host then none else r.find? other := by
  unfold drop find?
  rw [List.find?_filter]
  split
  · rename_i heq
    rw [List.find?_eq_none]
    intro record _
    simp [heq]
  · rename_i hne
    refine congrArg (fun p => List.find? p r.records) (funext fun record => ?_)
    by_cases h : record.host = other
    · simp [h, hne]
    · simp [h]

end Registry

theorem setFlight_eq_some_iff {flights : String → Option Flight} {host h : String}
    {flight : Option Flight} {f : Flight} :
    Office.setFlight flights host flight h = some f ↔
      h = host ∧ flight = some f ∨ h ≠ host ∧ flights h = some f := by
  unfold Office.setFlight
  by_cases heq : h = host <;> simp [heq]

end Wiretap.Cert
