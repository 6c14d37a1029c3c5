import Wiretap.Proofs.Cert.Alone
import Wiretap.Proofs.Cert.Courses

/-!
# A call keeps to the files of its host

A host that cannot be a name of files is refused before anything is done. A call for any other host
changes no file but its two, whatever stands in the directory and wherever its errand fails: before
the key is written, while it is, or between the key and the certificate. Only a call that leaves
both files in place, with the key that belongs to the certificate, keeps a record, and after a
failure the next call fetches the pair anew (`call_confined`).
-/

namespace Wiretap.Cert

/-! ## Names of files -/

/-- A name that stands for a direct child of a directory. -/
structure IsPlainName (file : String) : Prop where
  slash : '/' ∉ file.toList
  backslash : '\\' ∉ file.toList
  current : file ≠ "."
  parent : file ≠ ".."

theorem isHostChar_of_isValidHost {host : String} (h : isValidHost host = true) :
    ∀ c ∈ host.toList, isHostChar c = true := by
  unfold isValidHost at h
  simp only [Bool.and_eq_true, List.all_eq_true] at h
  exact h.2

theorem isPlainName_append {host ending : String} (h : isValidHost host = true)
    (hplain : '/' ∉ ending.toList ∧ '\\' ∉ ending.toList) (hlength : 2 < ending.length) :
    IsPlainName (host ++ ending) := by
  have hnot {c : Char} (hc : isHostChar c = false) (hending : c ∉ ending.toList) :
      c ∉ (host ++ ending).toList := by
    rw [String.toList_append, List.mem_append, not_or]
    exact ⟨fun hmem => by simp [isHostChar_of_isValidHost h c hmem] at hc, hending⟩
  have hlong : 2 < (host ++ ending).length := by
    rw [String.length_append]
    omega
  refine ⟨hnot (by decide) hplain.1, hnot (by decide) hplain.2, ?_, ?_⟩
  · rintro heq
    rw [heq] at hlong
    exact absurd hlong (by decide)
  · rintro heq
    rw [heq] at hlong
    exact absurd hlong (by decide)

theorem isPlainName_of_isFileOf {host file : String} (h : isValidHost host = true)
    (hfile : IsFileOf host file) : IsPlainName file := by
  rcases hfile with rfl | rfl
  · exact isPlainName_append h (by decide) (by decide)
  · exact isPlainName_append h (by decide) (by decide)

/-! ## What a call comes to -/

/-- What one operation leaves, and another leaves of that. -/
theorem Errand.Keeps.trans {name : String} {settled : Prop} {v v' v'' : Vault}
    {seen more : List Event} (h : Keeps name settled v v' seen)
    (h' : Keeps name settled v' v'' more) : Keeps name settled v v'' (seen ++ more) where
  touches event hmem := (List.mem_append.mp hmem).elim (h.touches event) (h'.touches event)
  others file hfile := (h'.others file hfile).trans (h.others file hfile)
  settled hs := by
    obtain ⟨rfl, hget⟩ := h.settled hs
    obtain ⟨rfl, hget'⟩ := h'.settled hs
    exact ⟨rfl, hget'.trans hget⟩

namespace Registry

/-- Asked for the host, the registry looks for its pair again, whatever the directory is by
then. -/
def Refetches (r : Registry) (host : String) : Prop :=
  ∀ v, r.ensure v host = r.conclude host (loadOrIssue r.authority v host) ∧
    ∀ flights : String → Option Flight, flights host = none →
      Office.called v r flights host = ([], Office.serving v r
        (Office.setFlight flights host (some ⟨1, fetching r.authority host⟩)))

theorem refetches {r : Registry} {host : String} (hvalid : isValidHost host = true)
    (hfind : r.find? host = none) : r.Refetches host := by
  refine fun v => ⟨ensure_eq_conclude r v hvalid hfind, fun flights hfree => ?_⟩
  rw [Office.called, if_pos hvalid, hfind, hfree]

/-- A call for a host with this result left these records and this directory. -/
structure Confined (r : Registry) (host : String) (v : Vault) (result : Except Error Record)
    (r' : Registry) (v' : Vault) : Prop where
  others : ∀ file, ¬IsFileOf host file → v'.get? file = v.get? file
  known : ∀ record, r.find? host = some record → result = .ok record ∧ r' = r ∧ v' = v
  /-- A new record. -/
  made : ∀ record, result = .ok record → r.find? host = none →
    r' = r.keep record ∧ record.host = host ∧
      Settled v'.get? host record.certificate record.key
  failed : ∀ e, result = .error e → r' = r ∧ r'.Refetches host

end Registry

namespace Office

variable {v : Vault} {r : Registry} {flights : String → Option Flight} {host : String}
  {seen : List Event} {o : Office}

/-- What has come of a call for a host that had no errand, in whatever way its errand has gone. -/
inductive Asked (v : Vault) (r : Registry) (flights : String → Option Flight) (host : String) :
    List Event → Office → Prop
  | refused (hinvalid : ¬isValidHost host = true) :
    Asked v r flights host [answer host (.error (Registry.invalidHost host))] (serving v r flights)
  | known {record : Record} (hvalid : isValidHost host = true)
    (hfind : r.find? host = some record) :
    Asked v r flights host [answer host (.ok record)] (serving v r flights)
  | underway {seen : List Event} {v' : Vault} {errand : Errand (Certificate × Key)}
    (hvalid : isValidHost host = true) (hfind : r.find? host = none)
    (hkeeps : Errand.Keeps host False v v' seen)
    (hsafe : errand.Safe host False (PairHeld host) v'.get?) :
    Asked v r flights host seen (serving v' r (setFlight flights host (some ⟨1, errand⟩)))
  | fetched {seen : List Event} {v' : Vault} {pair : Certificate × Key}
    (hvalid : isValidHost host = true) (hfind : r.find? host = none)
    (hkeeps : Errand.Keeps host False v v' seen) (hheld : PairHeld host pair v'.get?) :
    Asked v r flights host
      (seen ++ [.kept (r.recordOf host pair)] ++ [answer host (.ok (r.recordOf host pair))])
      (serving v' (r.keep (r.recordOf host pair)) flights)
  | failed {seen : List Event} {v' : Vault} (e : Error) (hvalid : isValidHost host = true)
    (hfind : r.find? host = none) (hkeeps : Errand.Keeps host False v v' seen) :
    Asked v r flights host (seen ++ [answer host (.error (Registry.failure host e))])
      (serving v' r flights)

theorem asked_called (hfree : flights host = none) :
    Asked v r flights host (called v r flights host).1 (called v r flights host).2 := by
  unfold called
  by_cases hvalid : isValidHost host = true
  · rw [if_pos hvalid]
    cases hfind : r.find? host with
    | some record => exact .known hvalid hfind
    | none =>
      rw [hfree]
      exact .underway hvalid hfind (.of_get? rfl) (safe_fetching r.authority nofun)
  · rw [if_neg hvalid]
    exact .refused hvalid

/-- The errand goes one operation further, or ends. -/
theorem asked_worked {v' : Vault} {errand : Errand (Certificate × Key)}
    (hfree : flights host = none) (hvalid : isValidHost host = true) (hfind : r.find? host = none)
    (hkeeps : Errand.Keeps host False v v' seen)
    (hsafe : errand.Safe host False (PairHeld host) v'.get?) :
    Asked v r flights host (seen ++ (worked v' r flights host ⟨1, errand⟩).1)
      (worked v' r flights host ⟨1, errand⟩).2 := by
  unfold worked
  split
  · rename_i pair hdone
    cases hdone
    rw [setFlight_none hfree, List.append_cons]
    exact .fetched hvalid hfind hkeeps (hsafe pair rfl)
  · rename_i e hdone
    rw [setFlight_none hfree]
    exact .failed e hvalid hfind hkeeps
  · rw [List.append_nil]
    exact .underway hvalid hfind hkeeps hsafe

theorem work_free (hfree : flights host = none) (v : Vault) (r : Registry) (p : Progress) :
    (serving v r flights).turn (.work host p) = ([], serving v r flights) := by
  simp only [turn, serving, hfree]

/-- One operation, however it goes. -/
theorem Asked.work (hfree : flights host = none) (h : Asked v r flights host seen o)
    (p : Progress) :
    Asked v r flights host (seen ++ (o.turn (.work host p)).1) (o.turn (.work host p)).2 := by
  cases h with
  | refused hinvalid =>
    rw [work_free hfree]
    exact .refused hinvalid
  | known hvalid hfind =>
    rw [work_free hfree]
    exact .known hvalid hfind
  | @underway _ v' errand hvalid hfind hkeeps hsafe =>
    obtain ⟨hsafe', hkeeps'⟩ := hsafe.step p
    have hflight : setFlight flights host (some ⟨1, errand⟩) host = some ⟨1, errand⟩ := if_pos rfl
    have hturn : (serving v' r (setFlight flights host (some ⟨1, errand⟩))).turn (.work host p) =
        let after := errand.step host p v'
        let later := worked after.2.2 r flights host ⟨1, after.2.1⟩
        (after.1 ++ later.1, later.2) := by
      simp only [turn, serving, hflight, worked_setFlight]
    rw [hturn, ← List.append_assoc]
    exact asked_worked hfree hvalid hfind (hkeeps.trans hkeeps') hsafe'
  | fetched hvalid hfind hkeeps hheld =>
    rw [work_free hfree, List.append_nil]
    exact .fetched hvalid hfind hkeeps hheld
  | failed e hvalid hfind hkeeps =>
    rw [work_free hfree, List.append_nil]
    exact .failed e hvalid hfind hkeeps

/-- A call, and any operations of its errand. -/
def ask (v : Vault) (r : Registry) (flights : String → Option Flight) (host : String)
    (ps : List Progress) : List Event × Office :=
  (serving v r flights).run (.call host :: ps.map (.work host))

theorem asked_run (hfree : flights host = none) (ps : List Progress) :
    Asked v r flights host (ask v r flights host ps).1 (ask v r flights host ps).2 := by
  have hworks {seen : List Event} {o : Office} (h : Asked v r flights host seen o) :
      Asked v r flights host (seen ++ (o.run (ps.map (.work host))).1)
        (o.run (ps.map (.work host))).2 := by
    induction ps generalizing seen o with
    | nil => rwa [List.map_nil, run, List.append_nil]
    | cons p ps ih =>
      rw [List.map_cons, run, ← List.append_assoc]
      exact ih (h.work hfree p)
  exact hworks (asked_called hfree)

theorem answer_inj {result result' : Except Error Record} :
    answer host result = answer host result' ↔ result = result' := by
  cases result <;> cases result' <;> simp [answer]

theorem answer_notMem {name : String} {v' : Vault} {result : Except Error Record}
    (h : Errand.Keeps name False v v' seen) : answer host result ∉ seen := by
  intro hmem
  have htouches := h.touches _ hmem
  cases result <;> exact htouches

theorem confined_known {record : Record} (hfind : r.find? host = some record) :
    r.Confined host v (.ok record) r v where
  others _ _ := rfl
  known _ hknown := ⟨congrArg Except.ok (Option.some.inj (hfind.symm.trans hknown)), rfl, rfl⟩
  made _ _ hnone := absurd (hfind.symm.trans hnone) nofun
  failed := nofun

theorem confined_fetched {v' : Vault} {pair : Certificate × Key} (hfind : r.find? host = none)
    (hkeeps : Errand.Keeps host False v v' seen) (hheld : PairHeld host pair v'.get?) :
    r.Confined host v (.ok (r.recordOf host pair)) (r.keep (r.recordOf host pair)) v' where
  others := hkeeps.others
  known _ hknown := absurd (hfind.symm.trans hknown) nofun
  made record hrecord _ := by
    cases hrecord
    exact ⟨rfl, rfl, hheld⟩
  failed := nofun

theorem confined_failed {v' : Vault} {e : Error} (hvalid : isValidHost host = true)
    (hfind : r.find? host = none) (hkeeps : Errand.Keeps host False v v' seen) :
    r.Confined host v (.error e) r v' where
  others := hkeeps.others
  known _ hknown := absurd (hfind.symm.trans hknown) nofun
  made := nofun
  failed _ _ := ⟨rfl, Registry.refetches hvalid hfind⟩

/-- A call for a host that can be a name of files has been answered, or it is under way. -/
theorem Asked.confined (h : Asked v r flights host seen o) (hvalid : isValidHost host = true) :
    (∃ before result r' v', seen = before ++ [answer host result] ∧ o = serving v' r' flights ∧
      r.Confined host v result r' v') ∨
    (∀ result, answer host result ∉ seen) ∧ ∃ v' errand,
      o = serving v' r (setFlight flights host (some ⟨1, errand⟩)) ∧
      ∀ file, ¬IsFileOf host file → v'.get? file = v.get? file := by
  cases h with
  | refused hinvalid => exact absurd hvalid hinvalid
  | known _ hfind => exact .inl ⟨[], _, _, _, rfl, rfl, confined_known hfind⟩
  | underway _ _ hkeeps _ =>
    exact .inr ⟨fun result => answer_notMem hkeeps, _, _, rfl, hkeeps.others⟩
  | fetched _ hfind hkeeps hheld =>
    exact .inl ⟨_, _, _, _, rfl, rfl, confined_fetched hfind hkeeps hheld⟩
  | failed e _ hfind hkeeps =>
    exact .inl ⟨_, _, _, _, rfl, rfl, confined_failed hvalid hfind hkeeps⟩

/-- A call that nothing cuts short is one of these. -/
theorem confined_ensure (r : Registry) (v : Vault) (hvalid : isValidHost host = true) :
    r.Confined host v (r.ensure v host).1 (r.ensure v host).2.1 (r.ensure v host).2.2 := by
  let free : String → Option Flight := fun _ => none
  have hfree : free host = none := rfl
  obtain ⟨n, seen, hrun⟩ := run_call (r := r) v hfree
  have hasked := asked_run (v := v) (r := r) hfree (List.replicate n .whole)
  rw [ask, List.map_replicate, hrun] at hasked
  rcases hasked.confined hvalid with ⟨before, result, r', v', hseen, ho, hconfined⟩ | ⟨hnone, -⟩
  · obtain ⟨-, hanswer⟩ := List.append_inj' hseen rfl
    cases answer_inj.mp (List.singleton_inj.mp hanswer)
    cases ho
    exact hconfined
  · exact absurd (List.mem_append_right _ (List.mem_singleton.mpr rfl)) (hnone _)

/-- Whatever stands in the directory: a host that cannot be a name of files is refused, and the
directory and the records are as they were. The files of any other host are direct children of the
directory and no other host's, and a call for it, done at once or however its operations go, is
confined to them: it changes nothing else, what it keeps is in place, and a failure is forgotten. -/
theorem call_confined (r : Registry) (v : Vault) {flights : String → Option Flight} {host : String}
    (hfree : flights host = none) :
    (¬isValidHost host = true →
      r.ensure v host = (.error (Registry.invalidHost host), r, v) ∧
      ∀ ps, ask v r flights host ps =
        ([.denied host (Registry.invalidHost host)], serving v r flights)) ∧
    (isValidHost host = true →
      (∀ file, IsFileOf host file → IsPlainName file ∧
        ∀ other, other ≠ host → ¬IsFileOf other file) ∧
      r.Confined host v (r.ensure v host).1 (r.ensure v host).2.1 (r.ensure v host).2.2 ∧
      ∀ ps, let asked := ask v r flights host ps
        (∃ before result r' v', asked.1 = before ++ [answer host result] ∧
          asked.2 = serving v' r' flights ∧ r.Confined host v result r' v') ∨
        (∀ result, answer host result ∉ asked.1) ∧ ∃ v' errand,
          asked.2 = serving v' r (setFlight flights host (some ⟨1, errand⟩)) ∧
          ∀ file, ¬IsFileOf host file → v'.get? file = v.get? file) := by
  refine ⟨fun hinvalid => ⟨Registry.ensure_of_invalid r v hinvalid, fun ps => ?_⟩,
    fun hvalid => ⟨fun file hfile => ⟨isPlainName_of_isFileOf hvalid hfile, ?_⟩,
      confined_ensure r v hvalid, fun ps => ?_⟩⟩
  · have hasked := asked_run (v := v) (r := r) hfree ps
    generalize ask v r flights host ps = outcome at hasked ⊢
    obtain ⟨seen, o⟩ := outcome
    cases hasked with
    | refused => rfl
    | known hvalid => exact absurd hvalid hinvalid
    | underway hvalid => exact absurd hvalid hinvalid
    | fetched hvalid => exact absurd hvalid hinvalid
    | failed e hvalid => exact absurd hvalid hinvalid
  · exact fun other hne hother => hne (hother.eq hfile)
  · exact (asked_run (v := v) (r := r) hfree ps).confined hvalid

/-- A folder stands where the certificate would be written: the key is there already when the call
fails. -/
theorem call_confined_folder :
    let v : Vault := ⟨"certs", .directory [("tap.test.crt", .folder),
      ("notes", .file (.bytes [1]))], 7⟩
    let r : Registry := ⟨⟨.root 0, 0⟩, []⟩
    let free : String → Option Flight := fun _ => none
    let ps : List Progress := [.whole, .whole, .whole, .partly [0x2d], .whole, .whole]
    let asked := ask v r free "tap.test" ps
    let e := Registry.failure "tap.test"
      (Authority.writeFailure v "tap.test.crt" Vault.isDirectory)
    free "tap.test" = none ∧ isValidHost "tap.test" = true ∧
      asked.1 = [.generated "tap.test", .wrote "tap.test.key", .wrote "tap.test.key",
        .denied "tap.test" e] ∧
      asked.2.vault.get? "tap.test.key" = some (.file (.key 7)) ∧
      ∃ v', asked.2 = serving v' r free ∧ v'.get? "notes" = v.get? "notes" ∧
        r.Refetches "tap.test" := by
  intro v r free ps asked e
  have hvalid : isValidHost "tap.test" = true := by decide +kernel
  have hseen : asked.1 = [.generated "tap.test", .wrote "tap.test.key", .wrote "tap.test.key"] ++
      [answer "tap.test" (.error e)] := by decide +kernel
  have hfree : free "tap.test" = none := rfl
  refine ⟨hfree, hvalid, hseen, by decide +kernel, ?_⟩
  rcases ((call_confined r v hfree).2 hvalid).2.2 ps with
    ⟨before, result, r', v', hbefore, ho, hconfined⟩ | ⟨hnone, -⟩
  · obtain ⟨-, hlast⟩ := List.append_inj' (hseen.symm.trans hbefore) rfl
    cases answer_inj.mp (List.singleton_inj.mp hlast)
    obtain ⟨rfl, hagain⟩ := hconfined.failed e rfl
    have hnotes : ¬IsFileOf "tap.test" "notes" := by
      unfold IsFileOf
      decide +kernel
    exact ⟨v', ho, hconfined.others "notes" hnotes, hagain⟩
  · have hmem : answer "tap.test" (.error e) ∈ asked.1 :=
      hseen ▸ List.mem_append_right _ (List.mem_singleton.mpr rfl)
    exact absurd hmem (hnone _)

end Office

end Wiretap.Cert
