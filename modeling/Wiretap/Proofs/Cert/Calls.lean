import Wiretap.Proofs.Cert.Errands
import Wiretap.Proofs.Cert.Moves

/-!
# What is under way

Whatever moves are made in the office, what is under way is safe (`Office.Safe.run`): what has been
answered stands in the files of its host, no errand changes the files of a host that has been
answered, and so they are never changed again (`Office.Safe.run_untouched`).
-/

namespace Wiretap.Cert

/-- A call for the host has been answered with a record. -/
def Answered (seen : List Event) (host : String) : Prop :=
  ∃ record, .answered host record ∈ seen

theorem Answered.append {seen : List Event} {host : String} (h : Answered seen host)
    (more : List Event) : Answered (seen ++ more) host :=
  h.imp fun _ => List.mem_append_left more

theorem answered_append {seen more : List Event} {host : String}
    (h : Answered (seen ++ more) host) : Answered seen host ∨ Answered more host := by
  obtain ⟨record, hmem⟩ := h
  exact (List.mem_append.mp hmem).imp (⟨record, ·⟩) (⟨record, ·⟩)

theorem Event.Touches.eq {event : Event} {a b : String} (ha : event.Touches a)
    (hb : event.Touches b) : a = b := by
  cases event with
  | generated n => exact ha.symm.trans hb
  | wrote file => exact IsFileOf.eq ha hb
  | _ => exact absurd ha id

theorem Event.Touches.not_answered {seen : List Event} {name host : String}
    (h : ∀ event ∈ seen, event.Touches name) : ¬Answered seen host := by
  rintro ⟨record, hmem⟩
  exact h _ hmem

/-! ## The invariant -/

/-- What has been answered is settled. -/
def AnswersHeld (seen : List Event) (held : Held) : Prop :=
  ∀ host record, .answered host record ∈ seen →
    record.host = host ∧ Settled held host record.certificate record.key

/-- What is under way is safe: errands change no files of hosts that have been answered, and records
in memory are settled. A host with a record has no errand. -/
def Desk.Safe (seen : List Event) (held : Held) : Desk → Prop
  | closed => True
  | opening errand =>
    errand.Safe Authority.ownName (Answered seen Authority.ownName) (fun _ _ => True) held
  | serving r flights =>
    (∀ host record, r.find? host = some record →
      Settled held host record.certificate record.key) ∧
    ∀ host flight, flights host = some flight → r.find? host = none ∧
      flight.errand.Safe host (Answered seen host) (PairHeld host) held

structure Office.Safe (seen : List Event) (o : Office) : Prop where
  answers : AnswersHeld seen o.vault.get?
  desk : o.desk.Safe seen o.vault.get?

section

variable {seen more : List Event} {held held' : Held} {host name : String}

theorem AnswersHeld.settled (h : AnswersHeld seen held) (ha : Answered seen host) :
    ∃ c k, Settled held host c k := by
  obtain ⟨record, hmem⟩ := ha
  exact ⟨_, _, (h host record hmem).2⟩

theorem AnswersHeld.append (h : AnswersHeld seen held) (hmore : AnswersHeld more held) :
    AnswersHeld (seen ++ more) held := fun host record hmem =>
  (List.mem_append.mp hmem).elim (h host record) (hmore host record)

/-- Events that answer no call with a record. -/
theorem AnswersHeld.of_none (h : ∀ host, ¬Answered more host) : AnswersHeld more held :=
  fun host record hmem => absurd ⟨record, hmem⟩ (h host)

theorem PairHeld.congr (pair : Certificate × Key) (held held' : Held)
    (hsame : SameFiles host held held') (h : PairHeld host pair held) : PairHeld host pair held' :=
  Settled.congr h hsame

/-! ## The directory changes -/

/-- An operation for one name leaves the files of every other name, and of every host that has been
answered. -/
theorem Errand.Keeps.sameFiles {v v' : Vault} {settled : Prop}
    (h : Errand.Keeps name settled v v' more) (hsettled : host = name → settled) :
    SameFiles host v.get? v'.get? := by
  intro file hfile
  by_cases heq : host = name
  · exact congrFun (h.settled (hsettled heq)).2 file
  · exact h.others file fun hname => heq (hfile.eq hname)

theorem Errand.Keeps.answersHeld {v v' : Vault}
    (h : Errand.Keeps name (Answered seen name) v v' more) (ha : AnswersHeld seen v.get?) :
    AnswersHeld (seen ++ more) v'.get? := by
  refine AnswersHeld.append (fun host record hmem => ?_)
    (.of_none fun _ => Event.Touches.not_answered h.touches)
  have hheld := ha host record hmem
  exact ⟨hheld.1, hheld.2.congr (h.sameFiles fun heq => heq ▸ ⟨record, hmem⟩)⟩

/-! ## The desk changes -/

/-- Answers to calls for one host do not matter to the errand for another. -/
theorem Errand.Safe.append {errand : Errand (Certificate × Key)}
    (h : errand.Safe host (Answered seen host) (PairHeld host) held)
    (hmore : ¬Answered more host) (hsame : SameFiles host held held') :
    errand.Safe host (Answered (seen ++ more) host) (PairHeld host) held' :=
  h.congr (fun ha => (answered_append ha).resolve_right hmore) hsame PairHeld.congr

end

namespace Office

variable {seen more : List Event} {v : Vault} {r : Registry} {flights : String → Option Flight}
  {host : String}

theorem safe_advanced {errand : Errand Authority} (ha : AnswersHeld seen v.get?)
    (h : errand.Safe Authority.ownName (Answered seen Authority.ownName) (fun _ _ => True) v.get?) :
    (advanced errand v).2.Safe (seen ++ (advanced errand v).1) := by
  unfold advanced
  split
  · exact ⟨ha.append (.of_none fun host => by simp [Answered]), nofun, nofun⟩
  · exact ⟨ha.append (.of_none fun host => by simp [Answered]), trivial⟩
  · rw [List.append_nil]
    exact ⟨ha, h⟩

theorem safe_called (h : (serving v r flights).Safe seen) (host : String) :
    (called v r flights host).2.Safe (seen ++ (called v r flights host).1) := by
  obtain ⟨ha, hrecords, hflights⟩ := h
  unfold called
  split
  · split
    · rename_i record hfind
      have hanswer : AnswersHeld [.answered host record] v.get? := fun h' record' hmem => by
        cases List.mem_singleton.mp hmem
        exact ⟨Registry.host_of_find? hfind, hrecords host record hfind⟩
      refine ⟨ha.append hanswer, hrecords, fun other flight hflight => ?_⟩
      obtain ⟨hnone, hsafe⟩ := hflights other flight hflight
      refine ⟨hnone, hsafe.append ?_ fun _ _ => rfl⟩
      -- a host with a record has no errand
      rintro ⟨record', hmem⟩
      cases List.mem_singleton.mp hmem
      exact absurd (hfind.symm.trans hnone) nofun
    · rename_i flight hfind hflight
      rw [List.append_nil]
      refine ⟨ha, hrecords, fun other flight' h => ?_⟩
      rcases setFlight_eq_some_iff.mp h with ⟨rfl, heq⟩ | ⟨-, h⟩
      · cases heq
        exact hflights other flight hflight
      · exact hflights other flight' h
    · rename_i hfind hflight
      rw [List.append_nil]
      refine ⟨ha, hrecords, fun other flight' h => ?_⟩
      rcases setFlight_eq_some_iff.mp h with ⟨rfl, heq⟩ | ⟨-, h⟩
      · cases heq
        exact ⟨hfind, safe_fetching r.authority ha.settled⟩
      · exact hflights other flight' h
  · have hnone : ∀ other, ¬Answered [.denied host (Registry.invalidHost host)] other := by
      simp [Answered]
    exact ⟨ha.append (.of_none hnone), hrecords, fun other flight hflight =>
      ⟨(hflights other flight hflight).1,
        (hflights other flight hflight).2.append (hnone other) fun _ _ => rfl⟩⟩

theorem safe_worked {flight : Flight} (ha : AnswersHeld seen v.get?)
    (hrecords : ∀ host record, r.find? host = some record →
      Settled v.get? host record.certificate record.key)
    (hflights : ∀ other flight, other ≠ host → flights other = some flight →
      r.find? other = none ∧
        flight.errand.Safe other (Answered seen other) (PairHeld other) v.get?)
    (hfind : r.find? host = none)
    (hsafe : flight.errand.Safe host (Answered seen host) (PairHeld host) v.get?) :
    (worked v r flights host flight).2.Safe (seen ++ (worked v r flights host flight).1) := by
  unfold worked
  split
  · rename_i pair hdone
    have hpair : PairHeld host pair v.get? := by
      rw [hdone] at hsafe
      exact hsafe pair rfl
    have honly {h' : String} {record : Record}
        (hmem : .answered h' record ∈ Event.kept (r.recordOf host pair) ::
          List.replicate flight.callers (.answered host (r.recordOf host pair))) :
        h' = host ∧ record = r.recordOf host pair := by
      have heq := List.eq_of_mem_replicate ((List.mem_cons.mp hmem).resolve_left nofun)
      simpa using heq
    refine ⟨ha.append fun h' record hmem => ?_, fun h' record h => ?_, fun other flight' h => ?_⟩
    · obtain ⟨rfl, rfl⟩ := honly hmem
      exact ⟨rfl, hpair⟩
    · rw [Registry.find?_keep] at h
      split at h
      · rename_i heq
        cases h
        exact heq ▸ hpair
      · exact hrecords h' record h
    · obtain ⟨-, hno⟩ | ⟨hne, h⟩ := setFlight_eq_some_iff.mp h
      · cases hno
      · obtain ⟨hnone, hother⟩ := hflights other flight' hne h
        refine ⟨?_, hother.append (fun ⟨record, hmem⟩ => hne (honly hmem).1) fun _ _ => rfl⟩
        rw [Registry.find?_keep, if_neg fun heq => hne heq.symm, hnone]
  · rename_i e hdone
    have hnone : ∀ other, ¬Answered
        (List.replicate flight.callers (.denied host (Registry.failure host e))) other := by
      rintro other ⟨record, hmem⟩
      cases List.eq_of_mem_replicate hmem
    refine ⟨ha.append (.of_none hnone), hrecords, fun other flight' h => ?_⟩
    obtain ⟨-, hno⟩ | ⟨hne, h⟩ := setFlight_eq_some_iff.mp h
    · cases hno
    · exact ⟨(hflights other flight' hne h).1,
        (hflights other flight' hne h).2.append (hnone other) fun _ _ => rfl⟩
  · rw [List.append_nil]
    refine ⟨ha, hrecords, fun other flight' h => ?_⟩
    rcases setFlight_eq_some_iff.mp h with ⟨rfl, heq⟩ | ⟨hne, h⟩
    · cases heq
      exact ⟨hfind, hsafe⟩
    · exact hflights other flight' hne h

/-- The errand for a host goes on. -/
theorem safe_work {flight : Flight} {p : Progress}
    {after : List Event × Errand (Certificate × Key) × Vault}
    (h : (serving v r flights).Safe seen) (hflight : flights host = some flight)
    (hafter : flight.errand.step host p v = after) :
    let later := worked after.2.2 r flights host ⟨flight.callers, after.2.1⟩
    later.2.Safe (seen ++ (after.1 ++ later.1)) := by
  subst hafter
  intro later
  obtain ⟨ha, hrecords, hflights⟩ := h
  obtain ⟨hfind, hflightSafe⟩ := hflights host flight hflight
  obtain ⟨hsafe, hkeeps⟩ := Errand.Safe.step hflightSafe p
  have hno {other : String} : ¬Answered (flight.errand.step host p v).1 other :=
    Event.Touches.not_answered hkeeps.touches
  rw [← List.append_assoc]
  refine safe_worked (hkeeps.answersHeld ha) (fun h' record hrecord => ?_)
    (fun other flight' hne hother => ?_) hfind (hsafe.append hno fun _ _ => rfl)
  · have hne : h' ≠ host := by
      rintro rfl
      exact absurd (hrecord.symm.trans hfind) nofun
    exact (hrecords h' record hrecord).congr (hkeeps.sameFiles fun heq => absurd heq hne)
  · exact ⟨(hflights other flight' hother).1, (hflights other flight' hother).2.append hno
      (hkeeps.sameFiles fun heq => absurd heq hne)⟩

theorem safe_drop (h : (serving v r flights).Safe seen) (host : String) :
    (serving v (r.drop host) flights).Safe seen := by
  obtain ⟨ha, hrecords, hflights⟩ := h
  refine ⟨ha, fun h' record h => ?_, fun other flight hflight => ?_⟩
  · rw [Registry.find?_drop] at h
    split at h
    · cases h
    · exact hrecords h' record h
  · obtain ⟨hnone, hsafe⟩ := hflights other flight hflight
    refine ⟨?_, hsafe⟩
    rw [Registry.find?_drop, hnone, ite_self]

/-- Every move keeps what is under way safe. -/
theorem Safe.turn {o o' : Office} {move : Move} (h : o.Safe seen) (hturn : Turn o move more o') :
    o'.Safe (seen ++ more) := by
  cases hturn with
  | opened =>
    rw [List.append_nil]
    exact ⟨h.answers, safe_opening h.answers.settled⟩
  | advanced hafter =>
    subst hafter
    obtain ⟨hsafe, hkeeps⟩ := Errand.Safe.step h.desk _
    rw [← List.append_assoc]
    refine safe_advanced (hkeeps.answersHeld h.answers) (hsafe.congr (fun hanswered => ?_)
      (fun _ _ => rfl) fun _ _ _ _ => id)
    exact (answered_append hanswered).resolve_right (Event.Touches.not_answered hkeeps.touches)
  | called => exact safe_called h _
  | worked hflight hafter => exact safe_work h hflight hafter
  | dropped =>
    rw [List.append_nil]
    exact safe_drop h _
  | idle => rwa [List.append_nil]

/-! ## Settled files are left alone -/

theorem advanced_untouched (errand : Errand Authority) (v : Vault) {event : Event}
    (h : event ∈ (advanced errand v).1) : ¬event.Touches host := by
  unfold advanced at h
  split at h
  · cases List.mem_singleton.mp h
    exact id
  · cases List.mem_singleton.mp h
    exact id
  · cases h

theorem called_untouched {name : String} {event : Event} (h : event ∈ (called v r flights name).1) :
    ¬event.Touches host := by
  unfold called at h
  split at h
  · split at h
    · cases List.mem_singleton.mp h
      exact id
    · cases h
    · cases h
  · cases List.mem_singleton.mp h
    exact id

theorem worked_untouched {name : String} {flight : Flight} {event : Event}
    (h : event ∈ (worked v r flights name flight).1) : ¬event.Touches host := by
  unfold worked at h
  split at h
  · rcases List.mem_cons.mp h with rfl | h
    · exact id
    · cases List.eq_of_mem_replicate h
      exact id
  · cases List.eq_of_mem_replicate h
    exact id
  · cases h

theorem step_untouched {v v' : Vault} {name : String}
    (h : Errand.Keeps name (Answered seen name) v v' more) (ha : Answered seen host) {event : Event}
    (hevent : event ∈ more) : ¬event.Touches host := by
  intro htouch
  have hname : name = host := Event.Touches.eq (h.touches event hevent) htouch
  rw [(h.settled (hname ▸ ha)).1] at hevent
  cases hevent

theorem Safe.turn_untouched {o o' : Office} {move : Move} (h : o.Safe seen)
    (ha : Answered seen host) (hturn : Turn o move more o') {event : Event} (hevent : event ∈ more) :
    ¬event.Touches host := by
  cases hturn with
  | opened => cases hevent
  | advanced hafter =>
    subst hafter
    rcases List.mem_append.mp hevent with hevent | hevent
    · exact step_untouched (Errand.Safe.step h.desk _).2 ha hevent
    · exact advanced_untouched _ _ hevent
  | called => exact called_untouched hevent
  | worked hflight hafter =>
    subst hafter
    rcases List.mem_append.mp hevent with hevent | hevent
    · exact step_untouched (Errand.Safe.step (h.desk.2 _ _ hflight).2 _).2 ha hevent
    · exact worked_untouched hevent
  | dropped => cases hevent
  | idle => cases hevent

/-! ## Runs -/

theorem Safe.start (v : Vault) : (start v).Safe [] := ⟨by simp [AnswersHeld], trivial⟩

theorem Safe.run {o : Office} (h : o.Safe seen) (moves : List Move) :
    (o.run moves).2.Safe (seen ++ (o.run moves).1) :=
  run_induction (P := fun seen o => o.Safe seen) (fun _ h hturn => h.turn hturn) seen h

/-- The files of a host that has been answered are not touched again. -/
theorem Safe.run_untouched {o : Office} (h : o.Safe seen) (ha : Answered seen host)
    (moves : List Move) : ∀ event ∈ (o.run moves).1, ¬event.Touches host := by
  refine (run_induction (P := fun later o => o.Safe (seen ++ later) ∧
    ∀ event ∈ later, ¬event.Touches host) (fun _ ⟨hsafe, hlater⟩ hturn => ⟨?_, ?_⟩) []
    ⟨?_, by simp⟩).2
  · rw [← List.append_assoc]
    exact hsafe.turn hturn
  · exact fun event hevent => (List.mem_append.mp hevent).elim (hlater event)
      (hsafe.turn_untouched (ha.append _) hturn)
  · rwa [List.append_nil]

end Office

end Wiretap.Cert
