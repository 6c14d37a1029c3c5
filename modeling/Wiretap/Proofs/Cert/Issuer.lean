import Wiretap.Proofs.Cert.Root

/-!
# Who signed a certificate

A certificate that is presented for a host names the host, belongs to the key that is presented
with it, and was signed by the root of the registry that presented it first, for the pair of files
is kept. That is the root of every registry that presents it, as long as nobody removes a file of
the root (`presented_signed`). If somebody does, the next opening makes another root, and the old
certificates are presented on under it (`presented_stale`).
-/

namespace Wiretap.Cert

open Authority (ownName)

/-- The records that were answered, in order. -/
def Outcome.records (seen : List Outcome) : List Record :=
  seen.filterMap fun
    | answered _ record => some record
    | _ => none

theorem Outcome.records_append (seen more : List Outcome) :
    records (seen ++ more) = records seen ++ records more := List.filterMap_append

theorem Outcome.mem_records {seen : List Outcome} {record : Record} :
    record ∈ records seen ↔ ∃ host, .answered host record ∈ seen := by
  unfold records
  rw [List.mem_filterMap]
  constructor
  · rintro ⟨outcome, hmem, hrecord⟩
    cases outcome with
    | answered host record' =>
      cases hrecord
      exact ⟨host, hmem⟩
    | _ => cases hrecord
  · rintro ⟨host, hmem⟩
    exact ⟨_, hmem, rfl⟩

/-- The certificate names the host, and the root of the first registry that presented it signed
it. -/
structure Issued (seen : List Outcome) (host : String) (c : Certificate) : Prop where
  names : ∃ name, Certificate.altName? host = some name ∧ c.names = [name]
  signed : ∃ first, (Outcome.records seen).find? (·.certificate == c) = some first ∧
    c.SignedBy first.root

theorem Issued.append {seen : List Outcome} {host : String} {c : Certificate}
    (h : Issued seen host c) (more : List Outcome) : Issued (seen ++ more) host c := by
  obtain ⟨first, hfirst, hsigned⟩ := h.signed
  refine ⟨h.names, first, ?_, hsigned⟩
  rw [Outcome.records_append, List.find?_append, hfirst, Option.some_or]

/-! ## Nothing stops the root from being written -/

theorem not_stuck {v : Vault} (hplace : ∃ entries, v.place = .directory entries)
    (hfolder : ∀ n, v.get? n ≠ some .folder) : ¬v.Stuck ownName := by
  obtain ⟨entries, hplace⟩ := hplace
  have hshort {file : String} (hfile : IsFileOf ownName file) : Vault.isTooLong file = false := by
    rcases hfile with rfl | rfl <;> decide
  rintro ⟨file, hfile, hobstacle⟩
  refine hobstacle ?_
  rw [Vault.obstacle, hplace]
  simp only [hshort hfile, Bool.false_eq_true, if_false, if_neg (hfolder file)]

/-! ## The invariant -/

/-- Certificates in the files of hosts are issued, and the root's files belong together. -/
structure Vault.Lawful (seen : List Outcome) (v : Vault) : Prop where
  issued : ∀ host c, host ≠ ownName → v.get? (certFile host) = some (.file (.certificate c)) →
    Issued seen host c
  root : ∀ c k, v.get? (certFile ownName) = some (.file (.certificate c)) →
    v.get? (keyFile ownName) = some (.file (.key k)) → c.key = k
  folder : ∀ n, v.get? n ≠ some .folder

structure Upkeep.Lawful (seen : List Outcome) (u : Upkeep) : Prop where
  vault : u.vault.Lawful seen
  registry : ∀ r, u.registry = some r → (∃ entries, u.vault.place = .directory entries) ∧
    r.authority.certificate.key = r.authority.key ∧
    ∀ record ∈ r.records, .answered record.host record ∈ seen ∧
      record.root = r.authority.certificate
  answered : ∀ host record, host ≠ ownName → .answered host record ∈ seen →
    Issued seen host record.certificate

namespace Vault

variable {seen more : List Outcome} {v v' : Vault}

theorem Lawful.mono (h : v.Lawful seen) (more : List Outcome)
    (hget : ∀ n entry, v'.get? n = some entry → v.get? n = some entry) :
    v'.Lawful (seen ++ more) where
  issued := fun host c hne hfile => (h.issued host c hne (hget _ _ hfile)).append more
  root := fun c k hcert hkey => h.root c k (hget _ _ hcert) (hget _ _ hkey)
  folder := fun n hfolder => h.folder n (hget _ _ hfolder)

theorem Made.folder {files : List (String × Content)} (hmade : v.Made v' files)
    (hfolder : ∀ n, v.get? n ≠ some .folder) (n : String) : v'.get? n ≠ some .folder := fun h =>
  (hmade.mem_or h).elim (fun ⟨_, heq, _⟩ => nomatch heq) (hfolder n)

theorem Lawful.made {files : List (String × Content)} (h : v.Lawful seen) (hmade : v.Made v' files)
    (hissued : ∀ host c, host ≠ ownName → (certFile host, .certificate c) ∈ files →
      Issued (seen ++ more) host c)
    (hroot : ∀ c k, v'.get? (certFile ownName) = some (.file (.certificate c)) →
      v'.get? (keyFile ownName) = some (.file (.key k)) → c.key = k) :
    v'.Lawful (seen ++ more) where
  issued := fun host c hne hfile => (hmade.mem_or hfile).elim
    (fun ⟨_, heq, hmem⟩ => hissued host c hne (Entry.file.inj heq ▸ hmem))
    fun hold => (h.issued host c hne hold).append more
  root := hroot
  folder := hmade.folder h.folder

/-- A new pair of the root belongs together. -/
theorem Made.root {files : List (String × Content)} {c : Certificate} {k : Key}
    (hmade : v.Made v' files) (hcert : files.lookup (certFile ownName) = some (.certificate c))
    (hkey : files.lookup (keyFile ownName) = some (.key k)) (hbelongs : c.key = k) :
    ∀ c' k', v'.get? (certFile ownName) = some (.file (.certificate c')) →
      v'.get? (keyFile ownName) = some (.file (.key k')) → c'.key = k' := by
  intro c' k' hcert' hkey'
  rw [hmade.get?_of_lookup hcert] at hcert'
  rw [hmade.get?_of_lookup hkey] at hkey'
  cases hcert'
  cases hkey'
  exact hbelongs

/-- The pair of the root is as it was. -/
theorem Lawful.root_of_sameFiles (h : v.Lawful seen) (hsame : SameFiles ownName v.get? v'.get?) :
    ∀ c k, v'.get? (certFile ownName) = some (.file (.certificate c)) →
      v'.get? (keyFile ownName) = some (.file (.key k)) → c.key = k :=
  fun c k hcert hkey => h.root c k ((hsame _ (.inl rfl)).symm.trans hcert)
    ((hsame _ (.inr rfl)).symm.trans hkey)

end Vault

namespace Upkeep

variable {owner : Key → String} {seen more : List Outcome} {u u' : Upkeep} {v : Vault}

theorem Lawful.start (path : String) : (Upkeep.start path).Lawful [] :=
  ⟨⟨nofun, nofun, nofun⟩, nofun, by simp⟩

/-- Outcomes that are no answers. -/
theorem Lawful.answered_append (h : u.Lawful seen) (more : List Outcome)
    (hmore : ∀ host record, .answered host record ∉ more) (host : String) (record : Record)
    (hne : host ≠ ownName) (hmem : .answered host record ∈ seen ++ more) :
    Issued (seen ++ more) host record.certificate :=
  (h.answered host record hne ((List.mem_append.mp hmem).resolve_right (hmore host record))).append
    more

theorem Lawful.opened_step {a : Authority} (h : u.Lawful seen)
    (hcourse : Authority.Course u.vault (.ok a) v) :
    Lawful (seen ++ [.opened a]) ⟨v, some ⟨a, []⟩⟩ := by
  have hanswered := h.answered_append [.opened a] (by simp)
  cases hcourse with
  | found hnext hget hplace hcert hkey =>
    refine ⟨h.vault.mono _ fun n _ => (congrFun hget n).symm.trans, ?_, hanswered⟩
    rintro r ⟨⟩
    exact ⟨hplace, h.vault.root _ _ hcert hkey, by simp⟩
  | made hmissing hplace hmade =>
    refine ⟨h.vault.made hmade (fun host c hne hmem => ?_) (hmade.root rfl rfl rfl), ?_, hanswered⟩
    · simp [certFile_inj, certFile_ne_keyFile, hne] at hmem
    · rintro r ⟨⟩
      exact ⟨hplace, rfl, by simp⟩

theorem Lawful.refused_step {e : Error} (h : u.Lawful seen)
    (hcourse : Authority.Course u.vault (.error e) v) :
    Lawful (seen ++ [.refused e]) ⟨v, none⟩ := by
  cases hcourse with
  | refused _ hnext hget =>
    exact ⟨h.vault.mono _ fun n _ => (congrFun hget n).symm.trans, nofun,
      h.answered_append _ (by simp)⟩
  | unwritten _ _ _ hmade hplace hstuck =>
    exact absurd hstuck (not_stuck hplace (hmade.folder h.vault.folder))

/-- A certificate that has just been made was presented first just now. -/
theorem issued_now {host : String} {r : Registry} {name : AltName} (howned : u.Owned owner seen)
    (hsigner : r.authority.certificate.key = r.authority.key)
    (hname : Certificate.altName? host = some name) :
    let c := r.authority.leaf host name u.vault.nextKey
    Issued (seen ++ [.answered host (r.recordOf host (c, u.vault.nextKey))]) host c := by
  intro c
  refine ⟨⟨name, hname, rfl⟩, r.recordOf host (c, u.vault.nextKey), ?_, hsigner.symm⟩
  have hnew : (Outcome.records seen).find? (·.certificate == c) = none := by
    rw [List.find?_eq_none]
    intro record hrecord heq
    obtain ⟨host', hmem⟩ := Outcome.mem_records.mp hrecord
    obtain ⟨-, ⟨hlt, -⟩, hkey⟩ := howned.answered host' record hmem
    have hfresh : record.certificate.key = u.vault.nextKey :=
      congrArg Certificate.key (beq_iff_eq.mp heq)
    exact absurd (hkey.symm.trans hfresh) (Nat.ne_of_lt hlt)
  rw [Outcome.records_append, List.find?_append, hnew, Option.none_or]
  exact List.find?_cons_of_pos (beq_self_eq_true c)

/-- The answer for one host is the last outcome. -/
theorem Lawful.answered_concat {host : String} {record : Record} (h : u.Lawful seen)
    (hnew : host ≠ ownName → Issued (seen ++ [.answered host record]) host record.certificate)
    (host' : String) (record' : Record) (hne : host' ≠ ownName)
    (hmem : .answered host' record' ∈ seen ++ [.answered host record]) :
    Issued (seen ++ [.answered host record]) host' record'.certificate := by
  rcases List.mem_append.mp hmem with hmem | hmem
  · exact (h.answered host' record' hne hmem).append _
  · cases List.mem_singleton.mp hmem
    exact hnew hne

theorem Lawful.records_append {r : Registry} (h : u.Lawful seen) (hsome : u.registry = some r)
    (more : List Outcome) (record : Record) (hmem : record ∈ r.records) :
    .answered record.host record ∈ seen ++ more ∧ record.root = r.authority.certificate := by
  obtain ⟨hanswered, hroot⟩ := (h.registry r hsome).2.2 record hmem
  exact ⟨List.mem_append_left _ hanswered, hroot⟩

theorem Lawful.records_keep {r : Registry} {host : String} (h : u.Lawful seen)
    (hsome : u.registry = some r) (pair : Certificate × Key) (record : Record)
    (hmem : record ∈ (r.keep (r.recordOf host pair)).records) :
    .answered record.host record ∈ seen ++ [.answered host (r.recordOf host pair)] ∧
      record.root = r.authority.certificate := by
  rcases List.mem_cons.mp hmem with rfl | hmem
  · exact ⟨List.mem_append_right _ List.mem_cons_self, rfl⟩
  · exact h.records_append hsome _ record hmem

theorem Lawful.answered_step {host : String} {r r' : Registry} {record : Record}
    (h : u.Lawful seen) (howned : u.Owned owner seen) (hsome : u.registry = some r)
    (hcourse : r.Course u.vault host (.ok record) r' v) :
    Lawful (seen ++ [.answered host record]) ⟨v, some r'⟩ := by
  obtain ⟨hplace, hsigner, hrecords⟩ := h.registry r hsome
  have hsame (hne : host ≠ ownName) := hcourse.sameFiles hne
  cases hcourse with
  | kept hfind =>
    have hmem : .answered host record ∈ seen := by
      have hmem := (hrecords record (List.mem_of_find?_eq_some hfind)).1
      rwa [Registry.host_of_find? hfind] at hmem
    refine ⟨h.vault.mono _ fun _ _ => id, ?_,
      h.answered_concat fun hne => (h.answered host record hne hmem).append _⟩
    rintro r ⟨⟩
    exact ⟨hplace, hsigner, h.records_append hsome _⟩
  | found hfind hheld =>
    refine ⟨h.vault.mono _ fun _ _ => id, ?_,
      h.answered_concat fun hne => (h.vault.issued host _ hne hheld.certificate).append _⟩
    rintro r ⟨⟩
    exact ⟨hplace, hsigner, h.records_keep hsome _⟩
  | issued hfind hmissing hname hc hmade =>
    cases hc
    have hnow := issued_now howned hsigner hname
    refine ⟨h.vault.made hmade (fun host' c hne hmem => ?_) ?_, ?_,
      h.answered_concat fun _ => hnow⟩
    · simp only [List.mem_cons, List.not_mem_nil, or_false, Prod.mk.injEq, certFile_inj,
        Content.certificate.injEq, certFile_ne_keyFile, false_and] at hmem
      obtain ⟨rfl, rfl⟩ := hmem
      exact hnow
    · by_cases hown : host = ownName
      · subst hown
        exact hmade.root rfl rfl rfl
      · exact h.vault.root_of_sameFiles (hsame hown)
    · rintro r ⟨⟩
      exact ⟨hmade.directory hplace, hsigner, h.records_keep hsome _⟩

theorem Lawful.denied_step {host : String} {r r' : Registry} {e : Error} (h : u.Lawful seen)
    (hsome : u.registry = some r) (hcourse : r.Course u.vault host (.error e) r' v) :
    Lawful (seen ++ [.denied host e]) ⟨v, some r'⟩ := by
  obtain ⟨hplace, hsigner, -⟩ := h.registry r hsome
  have hanswered := h.answered_append [.denied host e] (by simp)
  have hsame (hne : host ≠ ownName) := hcourse.sameFiles hne
  cases hcourse with
  | denied =>
    refine ⟨h.vault.mono _ fun _ _ => id, ?_, hanswered⟩
    rintro r ⟨⟩
    exact ⟨hplace, hsigner, h.records_append hsome _⟩
  | unwritten _ hmissing hfiles hmade hstuck =>
    have hne : host ≠ ownName := by
      rintro rfl
      exact not_stuck (hmade.directory hplace) (hmade.folder h.vault.folder) hstuck
    refine ⟨h.vault.made hmade (fun host' c _ hmem => ?_) (h.vault.root_of_sameFiles (hsame hne)),
      ?_, hanswered⟩
    · rcases hfiles with rfl | rfl <;> simp [certFile_ne_keyFile] at hmem
    · rintro r ⟨⟩
      exact ⟨hmade.directory hplace, hsigner, h.records_append hsome _⟩

theorem Lawful.step {deed : Deed} (h : u.Lawful seen) (howned : u.Owned owner seen)
    (hstep : Step u deed more u') : u'.Lawful (seen ++ more) := by
  cases hstep with
  | opened hcourse => exact h.opened_step hcourse
  | refused hcourse => exact h.refused_step hcourse
  | unasked => rwa [List.append_nil]
  | answered hsome hcourse => exact h.answered_step howned hsome hcourse
  | denied hsome hcourse => exact h.denied_step hsome hcourse
  | removed hnext hplace hget =>
    refine ⟨h.vault.mono _ fun n entry hentry => ?_, fun r hr => ?_, h.answered_append _ (by simp)⟩
    · rw [hget n] at hentry
      split at hentry
      · cases hentry
      · exact hentry
    · obtain ⟨hdirectory, hsigner, -⟩ := h.registry r hr
      exact ⟨hplace hdirectory, hsigner, h.records_append hr _⟩

theorem Lawful.run (path : String) (deeds : List Deed) :
    (∃ owner, ((Upkeep.start path).run deeds).2.Owned owner ((Upkeep.start path).run deeds).1) ∧
      ((Upkeep.start path).run deeds).2.Lawful ((Upkeep.start path).run deeds).1 :=
  run_induction (P := fun seen u => (∃ owner, u.Owned owner seen) ∧ u.Lawful seen)
    (fun _ ⟨⟨_, howned⟩, h⟩ hstep => ⟨howned.step hstep, h.step howned hstep⟩)
    ⟨⟨_, .start path⟩, .start path⟩

/-! ## One root -/

/-- Nobody has been answered yet. -/
def Silent (seen : List Outcome) (u : Upkeep) : Prop :=
  u.registry = none ∧ ∀ host record, .answered host record ∉ seen

/-- There has been one root. -/
structure Rooted (a : Authority) (seen : List Outcome) (u : Upkeep) : Prop where
  certificate : u.vault.get? (certFile ownName) = some (.file (.certificate a.certificate))
  key : u.vault.get? (keyFile ownName) = some (.file (.key a.key))
  registry : ∀ r, u.registry = some r → r.authority = a
  root : ∀ host record, .answered host record ∈ seen → record.root = a.certificate

/-- A deed that removes no file of the root. -/
def SparesRoot (deed : Deed) : Prop :=
  deed ≠ .remove (certFile ownName) ∧ deed ≠ .remove (keyFile ownName)

instance (deed : Deed) : Decidable (SparesRoot deed) := inferInstanceAs (Decidable (_ ∧ _))

theorem Silent.step {deed : Deed} (h : u.Silent seen) (hstep : Step u deed more u') :
    u'.Silent (seen ++ more) ∨ ∃ a, u'.Rooted a (seen ++ more) := by
  obtain ⟨hnone, hsilent⟩ := h
  cases hstep with
  | opened hcourse =>
    rename_i a v
    refine .inr ⟨a, hcourse.opened.1, hcourse.opened.2, ?_, by simp [hsilent]⟩
    rintro r ⟨⟩
    rfl
  | refused => exact .inl ⟨rfl, by simp [hsilent]⟩
  | unasked => exact .inl ⟨hnone, by simp [hsilent]⟩
  | answered hsome => simp [hnone] at hsome
  | denied hsome => simp [hnone] at hsome
  | removed => exact .inl ⟨hnone, by simp [hsilent]⟩

theorem Rooted.has {a : Authority} (h : u.Rooted a seen) :
    u.vault.has (certFile ownName) ∧ u.vault.has (keyFile ownName) :=
  ⟨Option.isSome_of_eq_some h.certificate, Option.isSome_of_eq_some h.key⟩

theorem Rooted.extend {a : Authority} (h : u.Rooted a seen)
    (hsame : SameFiles ownName u.vault.get? u'.vault.get?)
    (hregistry : ∀ r, u'.registry = some r → r.authority = a)
    (hmore : ∀ host record, .answered host record ∈ more → record.root = a.certificate) :
    u'.Rooted a (seen ++ more) where
  certificate := (hsame _ (.inl rfl)).trans h.certificate
  key := (hsame _ (.inr rfl)).trans h.key
  registry := hregistry
  root := fun host record hmem =>
    (List.mem_append.mp hmem).elim (h.root host record) (hmore host record)

theorem Rooted.step {a : Authority} {deed : Deed} (h : u.Rooted a seen) (hlawful : u.Lawful seen)
    (hspares : SparesRoot deed) (hstep : Step u deed more u') : u'.Rooted a (seen ++ more) := by
  cases hstep with
  | opened hcourse =>
    obtain ⟨hsame, rfl⟩ := hcourse.of_has h.certificate h.key
    refine h.extend hsame ?_ (by simp)
    rintro r ⟨⟩
    rfl
  | refused hcourse => exact h.extend (hcourse.sameFiles_of_has h.has) (by simp) (by simp)
  | unasked => exact h.extend (fun _ _ => rfl) h.registry (by simp)
  | answered hsome hcourse =>
    rename_i host r r' record v
    refine h.extend (hcourse.sameFiles_of_has h.has) ?_ fun host' record' hmem => ?_
    · rintro r ⟨⟩
      exact hcourse.authority.trans (h.registry _ hsome)
    · cases List.mem_singleton.mp hmem
      rw [← h.registry r hsome]
      exact hcourse.root fun record hmem => ((hlawful.registry r hsome).2.2 record hmem).2
  | denied hsome hcourse =>
    refine h.extend (hcourse.sameFiles_of_has h.has) ?_ (by simp)
    rintro r ⟨⟩
    exact hcourse.authority.trans (h.registry _ hsome)
  | removed _ _ hget =>
    refine h.extend ?_ h.registry (by simp)
    rintro file (rfl | rfl)
    · exact (hget _).trans (if_neg fun heq => hspares.1 (congrArg Deed.remove heq.symm))
    · exact (hget _).trans (if_neg fun heq => hspares.2 (congrArg Deed.remove heq.symm))

/-- As long as nobody removes a file of the root, there is one root at most. -/
theorem rooted_run (path : String) {deeds : List Deed} (hspares : ∀ deed ∈ deeds, SparesRoot deed) :
    ((Upkeep.start path).run deeds).2.Silent ((Upkeep.start path).run deeds).1 ∨
      ∃ a, ((Upkeep.start path).run deeds).2.Rooted a ((Upkeep.start path).run deeds).1 := by
  refine (run_induction (P := fun seen u => ((∃ owner, u.Owned owner seen) ∧ u.Lawful seen) ∧
    (u.Silent seen ∨ ∃ a, u.Rooted a seen))
    (fun hmem ⟨⟨⟨_, howned⟩, hlawful⟩, h⟩ hstep =>
      ⟨⟨howned.step hstep, hlawful.step howned hstep⟩, ?_⟩)
    ⟨⟨⟨_, .start path⟩, .start path⟩, .inl ⟨rfl, by simp⟩⟩).2
  rcases h with hsilent | ⟨a, hrooted⟩
  · exact hsilent.step hstep
  · exact .inr ⟨a, hrooted.step hlawful (hspares _ hmem) hstep⟩

theorem course_of_answered {r : Registry} {host : String} {record : Record}
    (hsome : u.registry = some r) (h : .answered host record ∈ (u.act (.ensure host)).1) :
    ∃ r' v, r.Course u.vault host (.ok record) r' v := by
  have hstep := step_act u (.ensure host)
  generalize u.act (.ensure host) = after at h hstep
  obtain ⟨more, u'⟩ := after
  cases hstep with
  | unasked => cases h
  | answered hsome' hcourse =>
    cases hsome.symm.trans hsome'
    cases List.mem_singleton.mp h
    exact ⟨_, _, hcourse⟩
  | denied => exact absurd (List.mem_singleton.mp h) nofun

end Upkeep

/-- After any use of a directory, what a registry answers for a host other than the root's names
the host, belongs to the key that comes with it, and was signed by the root of the registry that
presented it first. If nobody has removed a file of the root, that is the root of the registry that
answers now. -/
theorem presented_signed (path : String) (deeds : List Deed) :
    let seen := ((Upkeep.start path).run deeds).1
    let u := ((Upkeep.start path).run deeds).2
    ∀ r host record, u.registry = some r → host ≠ ownName →
      .answered host record ∈ (u.act (.ensure host)).1 →
      (∃ name, Certificate.altName? host = some name ∧ record.certificate.names = [name]) ∧
      record.certificate.key = record.key ∧
      record.root = r.authority.certificate ∧
      (∃ first, (Outcome.records seen ++ [record]).find? (·.certificate == record.certificate) =
        some first ∧ record.certificate.SignedBy first.root) ∧
      ((∀ deed ∈ deeds, Upkeep.SparesRoot deed) →
        record.certificate.SignedBy r.authority.certificate) := by
  intro seen u r host record hsome hne hrecord
  obtain ⟨⟨owner, howned⟩, hlawful⟩ := Upkeep.Lawful.run path deeds
  obtain ⟨r', v, hcourse⟩ := Upkeep.course_of_answered hsome hrecord
  have hstep := Upkeep.Step.answered hsome hcourse
  obtain ⟨owner', howned'⟩ := howned.step hstep
  have hlast : .answered host record ∈ seen ++ [.answered host record] :=
    List.mem_append_right _ List.mem_cons_self
  have hroot : record.root = r.authority.certificate :=
    hcourse.root fun record hmem => ((hlawful.registry r hsome).2.2 record hmem).2
  obtain ⟨hnames, first, hfirst, hsigned⟩ :=
    (hlawful.step howned hstep).answered host record hne hlast
  rw [Outcome.records_append] at hfirst
  refine ⟨hnames, (howned'.answered host record hlast).2.2, hroot, ⟨first, hfirst, hsigned⟩,
    fun hspares => ?_⟩
  obtain ⟨hnone, -⟩ | ⟨a, hrooted⟩ := Upkeep.rooted_run path hspares
  · exact absurd (hnone.symm.trans hsome) nofun
  · have hauthority := hrooted.registry r hsome
    have hfirstRoot : first.root = r.authority.certificate := by
      rcases List.mem_append.mp (List.mem_of_find?_eq_some hfirst) with hmem | hmem
      · obtain ⟨host', hmem⟩ := Outcome.mem_records.mp hmem
        rw [hauthority]
        exact hrooted.root host' first hmem
      · cases List.mem_singleton.mp hmem
        exact hroot
    exact hfirstRoot ▸ hsigned

theorem presented_signed_reissued :
    let deeds := [.open, .ensure "a.test", .remove (keyFile "a.test"), .open, .ensure ownName]
    let u := ((Upkeep.start "certs").run deeds).2
    ∃ r record, u.registry = some r ∧ .answered "a.test" record ∈ (u.act (.ensure "a.test")).1 ∧
      record.certificate.names = [.dns "a.test"] ∧ record.certificate.key = record.key ∧
      record.certificate.SignedBy r.authority.certificate := by
  intro deeds u
  let record : Record :=
    ⟨"a.test", ⟨⟨"a.test", none⟩, Certificate.rootSubject, [.dns "a.test"], .server, 2, 0⟩, 2, .root 0⟩
  let r : Registry := ⟨⟨.root 0, 0⟩, [⟨ownName, .root 0, 0, .root 0⟩]⟩
  have hregistry : u.registry = some r := by decide +kernel
  have hrecord : .answered "a.test" record ∈ (u.act (.ensure "a.test")).1 := by decide +kernel
  obtain ⟨-, hkey, -, -, hsigned⟩ :=
    presented_signed "certs" deeds r "a.test" record hregistry (by decide) hrecord
  exact ⟨r, record, hregistry, hrecord, rfl, hkey, hsigned (by decide)⟩

/-- A certificate whose root has been replaced is presented on under the new root. -/
theorem presented_stale :
    let deeds := [.open, .ensure "a.test", .remove (keyFile ownName), .open]
    let u := ((Upkeep.start "certs").run deeds).2
    isValidHost "a.test" = true ∧
    ∃ r record, u.registry = some r ∧ .answered "a.test" record ∈ (u.act (.ensure "a.test")).1 ∧
      ¬record.certificate.SignedBy r.authority.certificate := by
  intro deeds u
  let record : Record :=
    ⟨"a.test", ⟨⟨"a.test", none⟩, Certificate.rootSubject, [.dns "a.test"], .server, 1, 0⟩, 1, .root 2⟩
  exact ⟨by decide, ⟨⟨.root 2, 2⟩, []⟩, record, by decide +kernel,
    by decide +kernel, by decide⟩

end Wiretap.Cert
