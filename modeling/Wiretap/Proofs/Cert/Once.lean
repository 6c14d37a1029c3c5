import Mathlib.Data.List.Perm.Subperm
import Wiretap.Proofs.Cert.Calls

/-!
# One certificate for each host

From the first answer to a call for a host on, its files are never changed again and hold what was
answered, over any calls and openings, and one registry makes one record for a host
(`one_certificate`). Calls may be answered together, and an opening may cut short whatever is under
way; the hosts that are called are no more than are kept in memory.
-/

namespace Wiretap.Cert

/-- Whether a record of the host is taken into memory. -/
def Event.keeps (host : String) : Event → Bool
  | kept record => record.host == host
  | _ => false

namespace Office

/-! ## Room for all -/

/-- Records in memory and errands are for some hosts, and a host has one of them at most. -/
def Within (hosts : List String) (o : Office) : Prop :=
  match o.desk with
  | .serving r flights =>
    (r.records.map (·.host)).Nodup ∧ (∀ record ∈ r.records, record.host ∈ hosts) ∧
    ∀ host flight, flights host = some flight → host ∈ hosts ∧ r.find? host = none
  | _ => True

theorem notMem_of_find? {r : Registry} {host : String} (h : r.find? host = none) :
    host ∉ r.records.map (·.host) := by
  rw [List.mem_map]
  rintro ⟨record, hmem, hhost⟩
  exact List.find?_eq_none.mp h record hmem (beq_iff_eq.mpr hhost)

theorem within_advanced (hosts : List String) (errand : Errand Authority) (v : Vault) :
    (advanced errand v).2.Within hosts := by
  unfold advanced
  split
  · exact ⟨List.nodup_nil, by simp, by simp⟩
  · trivial
  · trivial

section

variable {hosts : List String} {v v' : Vault} {r : Registry} {flights : String → Option Flight}
  {host : String}

theorem within_called (h : (serving v r flights).Within hosts) (hhost : host ∈ hosts) :
    (called v' r flights host).2.Within hosts := by
  obtain ⟨hnodup, hmem, hflights⟩ := h
  unfold called
  split
  · split
    · exact ⟨hnodup, hmem, hflights⟩
    · rename_i flight hfind hflight
      refine ⟨hnodup, hmem, fun other flight' h => ?_⟩
      rcases setFlight_eq_some_iff.mp h with ⟨rfl, -⟩ | ⟨-, h⟩
      · exact hflights other flight hflight
      · exact hflights other flight' h
    · rename_i hfind hflight
      refine ⟨hnodup, hmem, fun other flight' h => ?_⟩
      rcases setFlight_eq_some_iff.mp h with ⟨rfl, -⟩ | ⟨-, h⟩
      · exact ⟨hhost, hfind⟩
      · exact hflights other flight' h
  · exact ⟨hnodup, hmem, hflights⟩

theorem within_worked (h : (serving v r flights).Within hosts) (hhost : host ∈ hosts)
    (hfind : r.find? host = none) (flight : Flight) :
    (worked v' r flights host flight).2.Within hosts := by
  obtain ⟨hnodup, hmem, hflights⟩ := h
  unfold worked
  split
  · rename_i pair _
    refine ⟨List.nodup_cons.mpr ⟨notMem_of_find? hfind, hnodup⟩, ?_, fun other flight' h => ?_⟩
    · rintro record (_ | ⟨_, hrecord⟩)
      · exact hhost
      · exact hmem record hrecord
    · obtain ⟨-, hno⟩ | ⟨hne, h⟩ := setFlight_eq_some_iff.mp h
      · cases hno
      · refine ⟨(hflights other flight' h).1, ?_⟩
        rw [Registry.find?_keep, if_neg fun heq => hne heq.symm]
        exact (hflights other flight' h).2
  · refine ⟨hnodup, hmem, fun other flight' h => ?_⟩
    obtain ⟨-, hno⟩ | ⟨hne, h⟩ := setFlight_eq_some_iff.mp h
    · cases hno
    · exact hflights other flight' h
  · refine ⟨hnodup, hmem, fun other flight' h => ?_⟩
    rcases setFlight_eq_some_iff.mp h with ⟨rfl, -⟩ | ⟨-, h⟩
    · exact ⟨hhost, hfind⟩
    · exact hflights other flight' h

/-- No record has to go. -/
theorem length_le_of_within (h : (serving v r flights).Within hosts) :
    r.records.length ≤ hosts.length := by
  obtain ⟨hnodup, hmem, -⟩ := h
  have hsubset : r.records.map (·.host) ⊆ hosts := fun host hhost => by
    obtain ⟨record, hrecord, rfl⟩ := List.mem_map.mp hhost
    exact hmem record hrecord
  simpa using (List.subperm_of_subset hnodup hsubset).length_le

end

theorem within_drop {hosts : List String} {v : Vault} {r : Registry}
    {flights : String → Option Flight} (h : (serving v r flights).Within hosts) (host : String) :
    (serving v (r.drop host) flights).Within hosts := by
  obtain ⟨hnodup, hmem, hflights⟩ := h
  refine ⟨hnodup.sublist (List.filter_sublist.map _),
    fun record hrecord => hmem record (List.mem_filter.mp hrecord).1, fun other flight hflight => ?_⟩
  refine ⟨(hflights other flight hflight).1, ?_⟩
  rw [Registry.find?_drop, (hflights other flight hflight).2, ite_self]

theorem Within.turn {hosts : List String} {o o' : Office} {seen : List Event} {move : Move}
    (h : o.Within hosts) (hcall : ∀ host, move = .call host → host ∈ hosts)
    (hturn : Turn o move seen o') : o'.Within hosts := by
  cases hturn with
  | opened => trivial
  | advanced => exact within_advanced hosts _ _
  | called => exact within_called h (hcall _ rfl)
  | worked hflight =>
    obtain ⟨hhost, hfind⟩ := h.2.2 _ _ hflight
    exact within_worked h hhost hfind _
  | dropped => exact within_drop h _
  | idle => exact h

theorem Within.run {hosts : List String} {o : Office} (h : o.Within hosts) {moves : List Move}
    (hcalls : ∀ host, .call host ∈ moves → host ∈ hosts) : (o.run moves).2.Within hosts :=
  run_induction (P := fun _ o => o.Within hosts)
    (fun hmem h hturn => h.turn (fun host heq => hcalls host (heq ▸ hmem)) hturn) [] h

/-! ## What is in memory stays -/

/-- The record of a host that is in memory. -/
def find? (o : Office) (host : String) : Option Record :=
  match o.desk with
  | .serving r _ => r.find? host
  | _ => none

/-- From one office to the next, records stay; answers are from memory, and a record comes into
memory only once. -/
structure Remembers (o o' : Office) (seen : List Event) : Prop where
  find? : ∀ {host record}, o.find? host = some record → o'.find? host = some record
  answers : ∀ {host record}, .answered host record ∈ seen → o'.find? host = some record
  kept : ∀ host, seen.filter (·.keeps host) = [] ∨ o.find? host = none ∧
    ∃ record, seen.filter (·.keeps host) = [.kept record] ∧ o'.find? host = some record

theorem Remembers.refl (o : Office) : Remembers o o [] := ⟨id, by simp, fun _ => .inl rfl⟩

theorem Remembers.trans {o o' o'' : Office} {seen more : List Event} (h : Remembers o o' seen)
    (h' : Remembers o' o'' more) : Remembers o o'' (seen ++ more) where
  find? := fun hfind => h'.find? (h.find? hfind)
  answers := fun hmem =>
    (List.mem_append.mp hmem).elim (fun hmem => h'.find? (h.answers hmem)) h'.answers
  kept := fun host => by
    rw [List.filter_append]
    rcases h.kept host with hnil | ⟨hnone, record, hone, hfind⟩
    · rw [hnil, List.nil_append]
      refine (h'.kept host).imp id fun ⟨hnone, hrecord⟩ => ⟨?_, hrecord⟩
      cases hfind : o.find? host with
      | none => rfl
      | some record => exact absurd (hnone.symm.trans (h.find? hfind)) nofun
    · rcases h'.kept host with hnil | ⟨hnone', -⟩
      · rw [hone, hnil]
        exact .inr ⟨hnone, record, rfl, h'.find? hfind⟩
      · exact absurd (hnone'.symm.trans hfind) nofun

/-- Moves that neither answer nor take a record into memory. -/
theorem Remembers.of_quiet {o o' : Office} {seen : List Event}
    (hfind : ∀ {host record}, o.find? host = some record → o'.find? host = some record)
    (hanswered : ∀ host record, .answered host record ∉ seen)
    (hkept : ∀ record, .kept record ∉ seen) : Remembers o o' seen where
  find? := hfind
  answers := fun hmem => absurd hmem (hanswered _ _)
  kept := fun host => .inl (List.filter_eq_nil_iff.mpr fun event hevent hkeeps => by
    cases event with
    | kept record => exact hkept record hevent
    | _ => cases hkeeps)

theorem step_seen {α : Type} {errand : Errand α} {name : String} {p : Progress} {v : Vault}
    {event : Event} (h : event ∈ (errand.step name p v).1) :
    (∃ n, event = .generated n) ∨ ∃ file, event = .wrote file := by
  cases errand with
  | done result => cases h
  | make next =>
    simp only [Errand.step] at h
    split at h <;> cases h
  | look file next => cases h
  | read file next =>
    simp only [Errand.step] at h
    split at h <;> cases h
  | newKey next => exact .inl ⟨_, List.mem_singleton.mp h⟩
  | write file content next =>
    simp only [Errand.step] at h
    split at h
    · split at h
      · cases h
      · exact .inr ⟨_, List.mem_singleton.mp h⟩
    · split at h
      · cases h
      · exact .inr ⟨_, List.mem_singleton.mp h⟩

theorem remembers_step {α : Type} (o : Office) (errand : Errand α) (name : String) (p : Progress)
    (v : Vault) : Remembers o o (errand.step name p v).1 := by
  refine .of_quiet id (fun host record hmem => ?_) fun record hmem => ?_
  · obtain ⟨n, hn⟩ | ⟨n, hn⟩ := step_seen hmem <;> cases hn
  · obtain ⟨n, hn⟩ | ⟨n, hn⟩ := step_seen hmem <;> cases hn

theorem remembers_advanced {o : Office} (h : ∀ host, o.find? host = none)
    (errand : Errand Authority) (v : Vault) :
    Remembers o (advanced errand v).2 (advanced errand v).1 := by
  have hfind {o' : Office} {host record} (hsome : o.find? host = some record) :
      o'.find? host = some record := absurd ((h host).symm.trans hsome) nofun
  unfold advanced
  split
  · exact .of_quiet hfind (by simp) (by simp)
  · exact .of_quiet hfind (by simp) (by simp)
  · exact .of_quiet hfind (by simp) (by simp)

section

variable {v v' : Vault} {r : Registry} {flights : String → Option Flight} {host : String}

theorem remembers_called :
    Remembers (serving v r flights) (called v' r flights host).2 (called v' r flights host).1 := by
  unfold called
  split
  · split
    · rename_i record hfind
      refine ⟨id, fun hmem => ?_, fun _ => .inl (by simp [Event.keeps])⟩
      cases List.mem_singleton.mp hmem
      exact hfind
    · exact .of_quiet id (by simp) (by simp)
    · exact .of_quiet id (by simp) (by simp)
  · exact .of_quiet id (by simp) (by simp)

theorem remembers_worked (hfind : r.find? host = none) (flight : Flight) :
    Remembers (serving v r flights) (worked v' r flights host flight).2
      (worked v' r flights host flight).1 := by
  unfold worked
  split
  · rename_i pair _
    have hself : (r.keep (r.recordOf host pair)).find? host = some (r.recordOf host pair) := by
      rw [Registry.find?_keep]
      exact if_pos rfl
    refine ⟨fun {h record} hsome => ?_, fun {h record} hmem => ?_, fun h => ?_⟩
    · have hne : (r.recordOf host pair).host ≠ h := by
        rintro rfl
        exact absurd (hfind.symm.trans hsome) nofun
      exact (Registry.find?_keep _ _ _).trans ((if_neg hne).trans hsome)
    · have heq := List.eq_of_mem_replicate ((List.mem_cons.mp hmem).resolve_left nofun)
      cases heq
      exact hself
    · have hrest : (List.replicate flight.callers
          (Event.answered host (r.recordOf host pair))).filter (·.keeps h) = [] :=
        List.filter_eq_nil_iff.mpr fun event hevent => by
          rw [List.eq_of_mem_replicate hevent]
          exact Bool.false_ne_true
      rw [List.filter_cons, hrest]
      by_cases heq : host = h
      · subst heq
        refine .inr ⟨hfind, _, if_pos (beq_self_eq_true host), hself⟩
      · exact .inl (if_neg fun hkeeps => heq (beq_iff_eq.mp hkeeps))
  · refine .of_quiet id (fun _ _ hmem => ?_) fun _ hmem => ?_ <;>
      cases List.eq_of_mem_replicate hmem
  · exact .of_quiet id (by simp) (by simp)

end

theorem Within.remembers {hosts : List String} {o o' : Office} {seen : List Event} {move : Move}
    (h : o.Within hosts) (hfew : hosts.length ≤ Registry.capacity) (hmove : move ≠ .open)
    (hturn : Turn o move seen o') : Remembers o o' seen := by
  cases hturn with
  | opened => exact absurd rfl hmove
  | advanced hafter =>
    subst hafter
    exact (remembers_step _ _ _ _ _).trans (remembers_advanced (fun _ => rfl) _ _)
  | called => exact remembers_called
  | worked hflight hafter =>
    subst hafter
    exact (remembers_step _ _ _ _ _).trans (remembers_worked (h.2.2 _ _ hflight).2 _)
  | dropped hfull =>
    exact absurd hfull (Nat.not_lt_of_le (Nat.le_trans (length_le_of_within h) hfew))
  | idle => exact .refl _

theorem Within.remembers_run {hosts : List String} {o : Office} (h : o.Within hosts)
    (hfew : hosts.length ≤ Registry.capacity) {moves : List Move}
    (hcalls : ∀ host, .call host ∈ moves → host ∈ hosts) (hopen : .open ∉ moves) :
    Remembers o (o.run moves).2 (o.run moves).1 := by
  refine (run_induction (P := fun seen o' => o'.Within hosts ∧ Remembers o o' seen)
    (fun hmem ⟨hwithin, hremembers⟩ hturn => ⟨?_, ?_⟩) [] ⟨h, .refl o⟩).2
  · exact hwithin.turn (fun host heq => hcalls host (heq ▸ hmem)) hturn
  · have hmove : _ ≠ Move.open := fun heq => hopen (heq ▸ hmem)
    exact hremembers.trans (hwithin.remembers hfew hmove hturn)

end Office

/-- One registry answers all calls for a host with one record, which it takes into memory once. The
files of the host hold what was answered, now and after any further moves, and neither are they
changed again nor is another key pair generated for them. -/
theorem one_certificate (v : Vault) (before during after : List Move) (hosts : List String)
    (hfew : hosts.length ≤ Registry.capacity)
    (hcalls : ∀ host, .call host ∈ before ++ during → host ∈ hosts) (hopen : .open ∉ during)
    (host : String) :
    let opened := ((Office.start v).run before).2
    let seen := (opened.run during).1
    let now := (opened.run during).2
    let later := (now.run after).1
    let last := (now.run after).2
    (∀ record record', .answered host record ∈ seen → .answered host record' ∈ seen →
      record = record') ∧
    (seen.filter (·.keeps host)).length ≤ 1 ∧
    ∀ record, .answered host record ∈ seen →
      record.host = host ∧
      Settled now.vault.get? host record.certificate record.key ∧
      Settled last.vault.get? host record.certificate record.key ∧
      (∀ event ∈ later, ¬event.Touches host) ∧
      ∀ record', .answered host record' ∈ later →
        record'.certificate = record.certificate ∧ record'.key = record.key := by
  intro opened seen now later last
  have hwithin : opened.Within hosts := Office.Within.run (o := Office.start v) trivial
    fun host hmem => hcalls host (List.mem_append_left _ hmem)
  have hremembers : Office.Remembers opened now seen := hwithin.remembers_run hfew
    (fun host hmem => hcalls host (List.mem_append_right _ hmem)) hopen
  have hopened : opened.Safe ([] ++ ((Office.start v).run before).1) :=
    (Office.Safe.start v).run before
  have hnow : now.Safe _ := hopened.run during
  have hlast : last.Safe _ := hnow.run after
  refine ⟨fun record record' h h' => ?_, ?_, fun record h => ?_⟩
  · exact Option.some.inj ((hremembers.answers h).symm.trans (hremembers.answers h'))
  · obtain hnil | ⟨-, record, hone, -⟩ := hremembers.kept host
    · simp [hnil]
    · simp [hone]
  · have hmem := List.mem_append_right ([] ++ ((Office.start v).run before).1) h
    have hheld := (hlast.answers host record (List.mem_append_left _ hmem)).2
    obtain ⟨hhost, hsettled⟩ := hnow.answers host record hmem
    refine ⟨hhost, hsettled, hheld, fun event hevent => ?_, fun record' h' => ?_⟩
    · exact hnow.run_untouched ⟨record, hmem⟩ after event hevent
    · exact hheld.unique (hlast.answers host record' (List.mem_append_right _ h')).2

theorem one_certificate_sideBySide :
    let before := .open :: List.replicate 5 (.advance .whole)
    let during := [.call "a.test", .call "b.test", .work "a.test" .whole, .work "b.test" .whole,
      .work "a.test" .whole, .call "a.test", .work "a.test" (.partly []), .work "a.test" .whole,
      .work "b.test" .whole, .work "a.test" .whole, .call "a.test"]
    let after := .open :: List.replicate 5 (.advance .whole) ++
      .call "a.test" :: List.replicate 4 (.work "a.test" .whole)
    let root := Certificate.root 0
    let record := ⟨"a.test", ⟨⟨"a.test", none⟩, root.subject, [.dns "a.test"], .server, 1, 0⟩, 1, root⟩
    (((Office.start (Vault.empty "certs")).run (before ++ during)).1.count
        (.answered "a.test" record) = 3 ∧
      ((Office.start (Vault.empty "certs")).run (before ++ during ++ after)).1.count
        (.answered "a.test" record) = 4) ∧
    let opened := ((Office.start (Vault.empty "certs")).run before).2
    let seen := (opened.run during).1
    let now := (opened.run during).2
    let later := (now.run after).1
    let last := (now.run after).2
    (∀ record record', .answered "a.test" record ∈ seen → .answered "a.test" record' ∈ seen →
      record = record') ∧
    (seen.filter (·.keeps "a.test")).length ≤ 1 ∧
    ∀ record, .answered "a.test" record ∈ seen →
      record.host = "a.test" ∧
      Settled now.vault.get? "a.test" record.certificate record.key ∧
      Settled last.vault.get? "a.test" record.certificate record.key ∧
      (∀ event ∈ later, ¬event.Touches "a.test") ∧
      ∀ record', .answered "a.test" record' ∈ later →
        record'.certificate = record.certificate ∧ record'.key = record.key := by
  intro before during after root record
  refine ⟨by decide +kernel, ?_⟩
  exact one_certificate (Vault.empty "certs") before during after ["a.test", "b.test"] (by decide)
    (by simp [before, during]) (by simp [during]) "a.test"

end Wiretap.Cert
