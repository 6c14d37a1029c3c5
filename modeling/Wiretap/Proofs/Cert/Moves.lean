import Wiretap.Proofs.Cert.Records

/-!
# Moves

What one move in the office can come to, in six courses (`turn_cases`). What each of them preserves
holds after any moves (`run_induction`).
-/

namespace Wiretap.Cert.Office

inductive Turn : Office → Move → List Event → Office → Prop
  | opened {o : Office} : Turn o .open [] ⟨o.vault, .opening Authority.opening⟩
  /-- One operation of the opening was done. -/
  | advanced {v : Vault} {errand : Errand Authority} {p : Progress}
    {after : List Event × Errand Authority × Vault}
    (hafter : errand.step Authority.ownName p v = after) :
    Turn ⟨v, .opening errand⟩ (.advance p) (after.1 ++ (advanced after.2.1 after.2.2).1)
      (advanced after.2.1 after.2.2).2
  | called {v : Vault} {r : Registry} {flights : String → Option Flight} {host : String} :
    Turn (serving v r flights) (.call host) (called v r flights host).1
      (called v r flights host).2
  /-- One operation of the errand for a host was done. -/
  | worked {v : Vault} {r : Registry} {flights : String → Option Flight} {host : String}
    {flight : Flight} {p : Progress} {after : List Event × Errand (Certificate × Key) × Vault}
    (hflight : flights host = some flight) (hafter : flight.errand.step host p v = after) :
    Turn (serving v r flights) (.work host p)
      (after.1 ++ (worked after.2.2 r flights host ⟨flight.callers, after.2.1⟩).1)
      (worked after.2.2 r flights host ⟨flight.callers, after.2.1⟩).2
  | dropped {v : Vault} {r : Registry} {flights : String → Option Flight} {host : String}
    (hfull : Registry.capacity < r.records.length) :
    Turn (serving v r flights) (.evict host) [] (serving v (r.drop host) flights)
  /-- The move could not be made. -/
  | idle {o : Office} {move : Move} (hmove : move ≠ .open) : Turn o move [] o

theorem turn_cases (o : Office) (move : Move) : Turn o move (o.turn move).1 (o.turn move).2 := by
  obtain ⟨v, desk⟩ := o
  cases move with
  | «open» => exact .opened
  | advance p =>
    cases desk with
    | opening errand => exact .advanced rfl
    | _ => exact .idle (by simp)
  | call host =>
    cases desk with
    | serving r flights => exact .called
    | _ => exact .idle (by simp)
  | work host p =>
    cases desk with
    | serving r flights =>
      unfold turn
      simp only
      split
      · exact .idle (by simp)
      · rename_i flight hflight
        exact .worked hflight rfl
    | _ => exact .idle (by simp)
  | evict host =>
    cases desk with
    | serving r flights =>
      unfold turn
      simp only
      split
      · rename_i hfull
        exact .dropped hfull
      · exact .idle (by simp)
    | _ => exact .idle (by simp)

/-- What every move preserves holds at the end. -/
theorem run_induction {P : List Event → Office → Prop} {moves : List Move}
    (hturn : ∀ {seen o move more o'}, move ∈ moves → P seen o → Turn o move more o' →
      P (seen ++ more) o')
    (seen : List Event) {o : Office} (h : P seen o) :
    P (seen ++ (o.run moves).1) (o.run moves).2 := by
  induction moves generalizing seen o with
  | nil => rwa [run, List.append_nil]
  | cons move moves ih =>
    rw [run, ← List.append_assoc]
    exact ih (fun hmem => hturn (List.mem_cons_of_mem move hmem)) _
      (hturn List.mem_cons_self h (turn_cases o move))

end Wiretap.Cert.Office
