import Wiretap.Proofs.Cert.Calls

/-!
# One thing at a time

An opening that nothing cuts short comes to what the registry of the directory is (`run_open`), and
a call for a host without an errand, let run to its end, comes to what the registry makes of it
(`run_call`).
-/

namespace Wiretap.Cert.Office

/-! ## An errand to its end -/

section

variable {α : Type} {name : String} {move : Move} {desk : Errand α → Vault → List Event × Office}

/-- The move takes the errand at this desk one operation further. -/
def Drives (name : String) (move : Move) (desk : Errand α → Vault → List Event × Office) : Prop :=
  ∀ errand v, (∀ result, errand ≠ .done result) → (desk errand v).1 = [] ∧
    let after := errand.step name .whole v
    (desk errand v).2.turn move =
      (after.1 ++ (desk after.2.1 after.2.2).1, (desk after.2.1 after.2.2).2)

/-- The move takes the errand at this desk to its end. -/
def Ends (move : Move) (desk : Errand α → Vault → List Event × Office) (errand : Errand α)
    (v : Vault) : Prop :=
  ∃ n seen, let last := desk (.done (errand.run v).1) (errand.run v).2
    let rest := (desk errand v).2.run (List.replicate n move)
    (desk errand v).1 ++ rest.1 = seen ++ last.1 ∧ rest.2 = last.2

theorem ends_done (result : Except Error α) (v : Vault) : Ends move desk (.done result) v :=
  ⟨0, [], (List.append_nil _), rfl⟩

theorem Drives.ends_of_step (h : Drives name move desk) {errand : Errand α} {v : Vault}
    (hdone : ∀ result, errand ≠ .done result)
    (hnext : Ends move desk (errand.step name .whole v).2.1 (errand.step name .whole v).2.2) :
    Ends move desk errand v := by
  obtain ⟨hnil, hturn⟩ := h errand v hdone
  obtain ⟨n, seen, hseen, hlast⟩ := hnext
  rw [Errand.run_step] at hseen hlast
  refine ⟨n + 1, (errand.step name .whole v).1 ++ seen, ?_, ?_⟩
  · rw [hnil, List.nil_append, List.replicate_succ, Office.run, hturn, List.append_assoc, ← hseen]
    exact List.append_assoc _ _ _
  · rw [List.replicate_succ, Office.run, hturn]
    exact hlast

theorem Drives.ends (h : Drives name move desk) (errand : Errand α) (v : Vault) :
    Ends move desk errand v := by
  induction errand generalizing v with
  | done result => exact ends_done result v
  | make next ih =>
    refine h.ends_of_step (by simp) ?_
    simp only [Errand.step]
    split
    · exact ends_done _ _
    · exact ih _
  | look file next ih => exact h.ends_of_step (by simp) (ih _ _)
  | read file next ih =>
    refine h.ends_of_step (by simp) ?_
    simp only [Errand.step]
    split
    · exact ends_done _ _
    · exact ih _ _
  | newKey next ih => exact h.ends_of_step (by simp) (ih _ _)
  | write file content next ih =>
    refine h.ends_of_step (by simp) ?_
    simp only [Errand.step]
    split
    · exact ends_done _ _
    · exact ih _

end

/-! ## Openings -/

theorem drives_advance : Drives Authority.ownName (.advance .whole) advanced := by
  intro errand v hdone
  unfold advanced
  cases errand with
  | done result => exact absurd rfl (hdone result)
  | _ => exact ⟨rfl, rfl⟩

/-- An opening that nothing cuts short. -/
theorem run_open (o : Office) : ∃ n seen,
    o.run (.open :: List.replicate n (.advance .whole)) =
      match Registry.ofVault o.vault with
      | (.ok r, v) => (seen ++ [.opened], serving v r fun _ => none)
      | (.error e, v) => (seen ++ [.refused e], ⟨v, .closed⟩) := by
  obtain ⟨n, seen, hseen, hlast⟩ := drives_advance.ends Authority.opening o.vault
  refine ⟨n, seen, ?_⟩
  rw [run_opening] at hseen hlast
  have hrun : (⟨o.vault, .opening Authority.opening⟩ : Office).run
      (List.replicate n (.advance .whole)) = (seen ++ _, _) := Prod.ext hseen hlast
  rw [Office.run]
  refine hrun.trans ?_
  unfold Registry.ofVault
  rcases Authority.ofVault o.vault with ⟨_ | _, _⟩ <;> rfl

/-! ## Calls -/

section

variable {r : Registry} {flights : String → Option Flight} {host : String}

theorem setFlight_setFlight (first second : Option Flight) :
    setFlight (setFlight flights host first) host second = setFlight flights host second := by
  funext h
  unfold setFlight
  split <;> rfl

theorem setFlight_none (h : flights host = none) : setFlight flights host none = flights := by
  funext h'
  unfold setFlight
  split
  · rename_i heq
    rw [heq, h]
  · rfl

theorem worked_setFlight (v : Vault) (flight : Option Flight) (flight' : Flight) :
    worked v r (setFlight flights host flight) host flight' = worked v r flights host flight' := by
  unfold worked
  simp only [setFlight_setFlight]

theorem worked_of_not_done (v : Vault) (callers : Nat) {errand : Errand (Certificate × Key)}
    (h : ∀ result, errand ≠ .done result) :
    worked v r flights host ⟨callers, errand⟩ =
      ([], serving v r (setFlight flights host (some ⟨callers, errand⟩))) := by
  unfold worked
  split
  · rename_i heq
    exact absurd heq (h _)
  · rename_i heq
    exact absurd heq (h _)
  · rfl

theorem drives_work (r : Registry) (flights : String → Option Flight) (host : String) :
    Drives host (.work host .whole) fun errand v => worked v r flights host ⟨1, errand⟩ := by
  intro errand v hdone
  have hnone : worked v r flights host ⟨1, errand⟩ =
      ([], serving v r (setFlight flights host (some ⟨1, errand⟩))) := worked_of_not_done v 1 hdone
  have hflight : setFlight flights host (some ⟨1, errand⟩) host = some ⟨1, errand⟩ := if_pos rfl
  simp only [hnone, true_and, serving, Office.turn, hflight, worked_setFlight]

/-- What is seen of the end of a call. -/
def answer (host : String) : Except Error Record → Event
  | .ok record => .answered host record
  | .error e => .denied host e

/-- A call that is let run to its end. -/
theorem run_call (v : Vault) (h : flights host = none) : ∃ n seen,
    (serving v r flights).run (.call host :: List.replicate n (.work host .whole)) =
      let (result, r, v) := r.ensure v host
      (seen ++ [answer host result], serving v r flights) := by
  have hcall : Office.run (serving v r flights) [.call host] = called v r flights host := by
    simp [Office.run, Office.turn, serving]
  by_cases hvalid : isValidHost host = true
  · cases hfind : r.find? host with
    | some record =>
      refine ⟨0, [], ?_⟩
      rw [List.replicate_zero, hcall, called, Registry.ensure, if_pos hvalid, if_pos hvalid, hfind]
      rfl
    | none =>
      obtain ⟨n, seen, hseen, hlast⟩ :=
        (drives_work r flights host).ends (Registry.fetching r.authority host) v
      have hstart : ∀ result, Registry.fetching r.authority host ≠ .done result := by
        simp [Registry.fetching, Errand.lookBoth]
      simp only [worked_of_not_done v 1 hstart, List.nil_append, run_fetching] at hseen hlast
      let joined := serving v r
        (setFlight flights host (some ⟨1, Registry.fetching r.authority host⟩))
      have hjoin : called v r flights host = ([], joined) := by
        rw [called, if_pos hvalid, hfind, h]
      have hlater : joined.run (List.replicate n (.work host .whole)) = (seen ++ _, _) :=
        Prod.ext hseen hlast
      have hrun : (serving v r flights).run (.call host :: List.replicate n (.work host .whole)) =
          joined.run (List.replicate n (.work host .whole)) := by
        rw [Office.run]
        simp only [Office.turn, serving, hjoin, List.nil_append]
      refine ⟨n, ?_⟩
      rw [hrun, hlater, Registry.ensure, if_pos hvalid, hfind]
      rcases Registry.loadOrIssue r.authority v host with ⟨e | pair, v'⟩
      · refine ⟨seen, ?_⟩
        simp only [worked, setFlight_none h]
        rfl
      · refine ⟨seen ++ [.kept (r.recordOf host pair)], ?_⟩
        simp only [worked, setFlight_none h, List.append_assoc]
        rfl
  · refine ⟨0, [], ?_⟩
    rw [List.replicate_zero, hcall, called, Registry.ensure, if_neg hvalid, if_neg hvalid]
    rfl

end

end Wiretap.Cert.Office
