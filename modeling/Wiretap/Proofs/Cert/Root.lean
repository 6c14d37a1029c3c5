import Wiretap.Proofs.Cert.Courses

/-!
# The root and the certificates of hosts

The root stands in the files of the name `ca`, which is the name of a host as well. Whoever asks
for any other host leaves the root alone: neither are its files changed, nor does it matter what
they hold, nor is the root or its key ever presented (`root_apart`). Who asks for `ca` is presented
the root itself, or makes another one (`root_presented`).
-/

namespace Wiretap.Cert

open Authority (ownName)

/-! ## What others' files hold does not matter -/

/-- Two directories that differ only in the files of a name. -/
structure Vault.AlikeBut (name : String) (v v' : Vault) : Prop where
  path : v'.path = v.path
  nextKey : v'.nextKey = v.nextKey
  directory : (∃ entries, v.place = .directory entries) ∧ ∃ entries, v'.place = .directory entries
  get? : ∀ file, ¬IsFileOf name file → v'.get? file = v.get? file

namespace Vault.AlikeBut

variable {name file : String} {v v' : Vault}

theorem read (h : AlikeBut name v v') (hfile : ¬IsFileOf name file) :
    v'.read file = v.read file := by
  rw [Vault.read, Vault.read, h.get? file hfile]

theorem obstacle (h : AlikeBut name v v') (hfile : ¬IsFileOf name file) :
    v'.obstacle file = v.obstacle file := by
  obtain ⟨⟨entries, hplace⟩, entries', hplace'⟩ := h.directory
  rw [Vault.obstacle, Vault.obstacle, hplace, hplace']
  simp only [h.get? file hfile]

theorem put (h : AlikeBut name v v') (file : String) (entry : Entry) :
    AlikeBut name (v.put file entry) (v'.put file entry) := by
  refine ⟨h.path, h.nextKey, ⟨⟨_, rfl⟩, _, rfl⟩, fun n hn => ?_⟩
  rw [Vault.get?_put, Vault.get?_put, h.get? n hn]

theorem newKey (h : AlikeBut name v v') : AlikeBut name v.newKey.2 v'.newKey.2 :=
  ⟨h.path, congrArg (· + 1) h.nextKey, h.directory, h.get?⟩

end Vault.AlikeBut

/-- An errand that keeps to the files of its name does the same in directories that differ in the
files of another. -/
theorem Errand.Safe.run_alikeBut {α : Type} {errand : Errand α} {host name : String}
    {settled : Prop} {post : α → Held → Prop} {v v' : Vault}
    (h : errand.Safe host settled post v.get?) (hne : host ≠ name)
    (halike : v.AlikeBut name v') :
    (errand.run v').1 = (errand.run v).1 ∧ (errand.run v).2.AlikeBut name (errand.run v').2 := by
  have hapart {file : String} (hfile : IsFileOf host file) : ¬IsFileOf name file :=
    fun hname => hne (hfile.eq hname)
  induction errand generalizing v v' with
  | done result => exact ⟨rfl, halike⟩
  | make next ih =>
    obtain ⟨⟨entries, hplace⟩, entries', hplace'⟩ := halike.directory
    simp only [Errand.run, Vault.make, hplace, hplace']
    exact ih h halike
  | look file next ih =>
    have hhas : v'.has file = v.has file := by
      rw [Vault.has, Vault.has, halike.get? file (hapart h.1)]
    rw [Errand.run, Errand.run, hhas]
    exact ih _ h.2 halike
  | read file next ih =>
    rw [Errand.run, Errand.run, halike.read (hapart h.1)]
    cases hread : v.read file with
    | error e => exact ⟨rfl, halike⟩
    | ok content => exact ih content (h.2 content (Vault.get?_of_read hread)) halike
  | newKey next ih =>
    have hkey : v'.newKey.1 = v.newKey.1 := halike.nextKey
    rw [Errand.run, Errand.run]
    simp only [hkey]
    exact ih _ (h.2 _) halike.newKey
  | write file content next ih =>
    obtain ⟨-, hfile, hnext⟩ := h
    simp only [Errand.run, Authority.store, Vault.write, halike.obstacle (hapart hfile)]
    cases v.obstacle file with
    | some e =>
      have hfailure : Authority.writeFailure v' file e = Authority.writeFailure v file e := by
        rw [Authority.writeFailure, Authority.writeFailure, halike.path]
      exact ⟨congrArg Except.error hfailure, halike⟩
    | none =>
      refine ih (hnext _ (fun other hother => ?_) ?_) (halike.put file _)
      · rw [Vault.get?_put, if_neg hother]
      · rw [Vault.get?_put, if_pos rfl]

theorem ensure_alikeBut {host name : String} (r : Registry) {v v' : Vault} (hne : host ≠ name)
    (halike : v.AlikeBut name v') :
    (r.ensure v' host).1 = (r.ensure v host).1 ∧
      (r.ensure v' host).2.1 = (r.ensure v host).2.1 ∧
      (r.ensure v host).2.2.AlikeBut name (r.ensure v' host).2.2 := by
  by_cases hvalid : isValidHost host = true
  · cases hfind : r.find? host with
    | some record =>
      rw [Registry.ensure_of_find? hvalid hfind, Registry.ensure_of_find? hvalid hfind]
      exact ⟨rfl, rfl, halike⟩
    | none =>
      have hsafe : (Registry.fetching r.authority host).Safe host False (PairHeld host) v.get? :=
        safe_fetching r.authority nofun
      obtain ⟨hresult, hafter⟩ := hsafe.run_alikeBut hne halike
      rw [run_fetching, run_fetching] at hresult hafter
      rw [r.ensure_eq_conclude v hvalid hfind, r.ensure_eq_conclude v' hvalid hfind]
      generalize Registry.loadOrIssue r.authority v host = outcome at hresult hafter ⊢
      generalize Registry.loadOrIssue r.authority v' host = outcome' at hresult hafter ⊢
      obtain ⟨result, w⟩ := outcome
      obtain ⟨result', w'⟩ := outcome'
      cases hresult
      cases result <;> exact ⟨rfl, rfl, hafter⟩
  · rw [Registry.ensure_of_invalid r v hvalid, Registry.ensure_of_invalid r v' hvalid]
    exact ⟨rfl, rfl, halike⟩

/-! ## Whose a key pair is -/

/-- A key pair that was generated for the files of a name. -/
def IsKeyOf (owner : Key → String) (next : Key) (name : String) (key : Key) : Prop :=
  key < next ∧ owner key = name

/-- Files hold key pairs of their own name. -/
structure Vault.Labelled (owner : Key → String) (v : Vault) : Prop where
  certificate : ∀ {file c}, v.get? file = some (.file (.certificate c)) →
    ∃ name, file = certFile name ∧ IsKeyOf owner v.nextKey name c.key
  key : ∀ {file k}, v.get? file = some (.file (.key k)) →
    ∃ name, file = keyFile name ∧ IsKeyOf owner v.nextKey name k

/-- A record presents a key pair of its host. -/
def Record.Own (owner : Key → String) (next : Key) (record : Record) : Prop :=
  IsKeyOf owner next record.host record.key ∧ record.certificate.key = record.key

def Authority.Own (owner : Key → String) (next : Key) (a : Authority) : Prop :=
  IsKeyOf owner next ownName a.key ∧ IsKeyOf owner next ownName a.certificate.key

/-- Every key pair is of one name. -/
structure Upkeep.Owned (owner : Key → String) (seen : List Outcome) (u : Upkeep) : Prop where
  vault : u.vault.Labelled owner
  opened : ∀ a, .opened a ∈ seen → a.Own owner u.vault.nextKey
  answered : ∀ host record, .answered host record ∈ seen →
    record.host = host ∧ record.Own owner u.vault.nextKey
  records : ∀ r, u.registry = some r → ∀ record ∈ r.records, record.Own owner u.vault.nextKey

/-- A new key pair is for a name. -/
def assign (owner : Key → String) (key : Key) (name : String) : Key → String :=
  fun k => if k = key then name else owner k

section

variable {owner : Key → String} {v v' : Vault} {name : String} {key : Key}

theorem IsKeyOf.assign {next : Key} (h : IsKeyOf owner next name key) (other : String) :
    IsKeyOf (assign owner next other) (next + 1) name key := by
  obtain ⟨hlt, rfl⟩ := h
  exact ⟨Nat.lt_succ_of_lt hlt, if_neg (Nat.ne_of_lt hlt)⟩

theorem isKeyOf_assign (owner : Key → String) (next : Key) (name : String) :
    IsKeyOf (assign owner next name) (next + 1) name next :=
  ⟨Nat.lt_succ_self next, if_pos rfl⟩

theorem Vault.Labelled.congr (h : v.Labelled owner) (hnext : v'.nextKey = v.nextKey)
    (hget : ∀ n entry, v'.get? n = some entry → v.get? n = some entry) : v'.Labelled owner where
  certificate := fun hfile => hnext ▸ h.certificate (hget _ _ hfile)
  key := fun hfile => hnext ▸ h.key (hget _ _ hfile)

/-- Files that are written for a name hold the new key pair. -/
theorem Vault.Labelled.made {files : List (String × Content)} (h : v.Labelled owner)
    (hmade : v.Made v' files)
    (hfiles : ∀ entry ∈ files, entry = (keyFile name, .key v.nextKey) ∨
      ∃ c : Certificate, c.key = v.nextKey ∧ entry = (certFile name, .certificate c)) :
    v'.Labelled (assign owner v.nextKey name) := by
  have hcases {n : String} {content : Content} (hn : v'.get? n = some (.file content)) :
      (n, content) ∈ files ∨ v.get? n = some (.file content) :=
    (hmade.mem_or hn).imp_left fun ⟨_, heq, hmem⟩ => Entry.file.inj heq ▸ hmem
  constructor
  · intro file c hfile
    rcases hcases hfile with hmem | hold
    · rcases hfiles _ hmem with heq | ⟨c', hkey, heq⟩ <;> cases heq
      rw [hmade.nextKey, hkey]
      exact ⟨name, rfl, isKeyOf_assign owner v.nextKey name⟩
    · obtain ⟨other, rfl, hown⟩ := h.certificate hold
      exact ⟨other, rfl, hmade.nextKey ▸ hown.assign name⟩
  · intro file k hfile
    rcases hcases hfile with hmem | hold
    · rcases hfiles _ hmem with heq | ⟨c', hkey, heq⟩ <;> cases heq
      rw [hmade.nextKey]
      exact ⟨name, rfl, isKeyOf_assign owner v.nextKey name⟩
    · obtain ⟨other, rfl, hown⟩ := h.key hold
      exact ⟨other, rfl, hmade.nextKey ▸ hown.assign name⟩

end

namespace Upkeep

variable {owner owner' : Key → String} {seen more : List Outcome} {u u' : Upkeep}

/-- What was owned is owned later, and so are the outcomes of a deed if they are. -/
theorem Owned.extend (h : u.Owned owner seen)
    (hext : ∀ {name key}, IsKeyOf owner u.vault.nextKey name key →
      IsKeyOf owner' u'.vault.nextKey name key)
    (hvault : u'.vault.Labelled owner')
    (hopened : ∀ a, .opened a ∈ more → a.Own owner' u'.vault.nextKey)
    (hanswered : ∀ host record, .answered host record ∈ more →
      record.host = host ∧ record.Own owner' u'.vault.nextKey)
    (hrecords : ∀ r, u'.registry = some r → ∀ record ∈ r.records,
      (∃ old, u.registry = some old ∧ record ∈ old.records) ∨
        record.Own owner' u'.vault.nextKey) : u'.Owned owner' (seen ++ more) where
  vault := hvault
  opened := fun a hmem => (List.mem_append.mp hmem).elim
    (fun hmem => ⟨hext (h.opened a hmem).1, hext (h.opened a hmem).2⟩) (hopened a)
  answered := fun host record hmem => (List.mem_append.mp hmem).elim
    (fun hmem =>
      have hown := h.answered host record hmem
      ⟨hown.1, hext hown.2.1, hown.2.2⟩)
    (hanswered host record)
  records := fun r hr record hmem => (hrecords r hr record hmem).elim
    (fun ⟨old, hold, hmem⟩ =>
      have hown := h.records old hold record hmem
      ⟨hext hown.1, hown.2⟩)
    id

theorem Owned.found {name : String} {c : Certificate} {k : Key} (h : u.Owned owner seen)
    (hcert : u.vault.get? (certFile name) = some (.file (.certificate c)))
    (hkey : u.vault.get? (keyFile name) = some (.file (.key k))) :
    IsKeyOf owner u.vault.nextKey name c.key ∧ IsKeyOf owner u.vault.nextKey name k := by
  obtain ⟨n, hn, hc⟩ := h.vault.certificate hcert
  obtain ⟨m, hm, hk⟩ := h.vault.key hkey
  cases certFile_inj.mp hn
  cases keyFile_inj.mp hm
  exact ⟨hc, hk⟩

theorem Owned.opened_step {a : Authority} {v : Vault} (h : u.Owned owner seen)
    (hcourse : Authority.Course u.vault (.ok a) v) :
    ∃ owner', Owned owner' (seen ++ [.opened a]) ⟨v, some ⟨a, []⟩⟩ := by
  cases hcourse with
  | found hnext hget _ hcert hkey =>
    have hown := h.found hcert hkey
    refine ⟨owner, h.extend (fun hk => hnext ▸ hk) (h.vault.congr hnext fun n _ => ?_)
      (fun a ha => ?_) (by simp) ?_⟩
    · exact (congrFun hget n).symm.trans
    · cases List.mem_singleton.mp ha
      exact ⟨hnext ▸ hown.2, hnext ▸ hown.1⟩
    · rintro r ⟨⟩ record ⟨⟩
  | made hmissing _ hmade =>
    have hnew := isKeyOf_assign owner u.vault.nextKey ownName
    refine ⟨assign owner u.vault.nextKey ownName, h.extend (fun hk => hmade.nextKey ▸ hk.assign _)
      (h.vault.made hmade (by simp [Certificate.root])) (fun a ha => ?_) (by simp) ?_⟩
    · cases List.mem_singleton.mp ha
      exact ⟨hmade.nextKey ▸ hnew, hmade.nextKey ▸ hnew⟩
    · rintro r ⟨⟩ record ⟨⟩

theorem Owned.refused_step {e : Error} {v : Vault} (h : u.Owned owner seen)
    (hcourse : Authority.Course u.vault (.error e) v) :
    ∃ owner', Owned owner' (seen ++ [.refused e]) ⟨v, none⟩ := by
  cases hcourse with
  | refused _ hnext hget =>
    refine ⟨owner, h.extend (fun hk => hnext ▸ hk) (h.vault.congr hnext fun n _ => ?_) (by simp)
      (by simp) nofun⟩
    exact (congrFun hget n).symm.trans
  | unwritten _ _ hfiles hmade =>
    refine ⟨assign owner u.vault.nextKey ownName, h.extend (fun hk => hmade.nextKey ▸ hk.assign _)
      (h.vault.made hmade ?_) (by simp) (by simp) nofun⟩
    rcases hfiles with rfl | rfl <;> simp [Certificate.root]

theorem Owned.answered_step {host : String} {r r' : Registry} {record : Record} {v : Vault}
    (h : u.Owned owner seen) (hsome : u.registry = some r)
    (hcourse : r.Course u.vault host (.ok record) r' v) :
    ∃ owner', Owned owner' (seen ++ [.answered host record]) ⟨v, some r'⟩ := by
  have hold {record' : Record} (hmem : record' ∈ r.records) :
      ∃ old, u.registry = some old ∧ record' ∈ old.records := ⟨r, hsome, hmem⟩
  cases hcourse with
  | kept hfind =>
    have hmem : record ∈ r.records := List.mem_of_find?_eq_some hfind
    refine ⟨owner, h.extend id h.vault (by simp) (fun host' record' hmem' => ?_) ?_⟩
    · cases List.mem_singleton.mp hmem'
      exact ⟨Registry.host_of_find? hfind, h.records r hsome record hmem⟩
    · rintro r ⟨⟩ record hmem
      exact .inl (hold hmem)
  | found hfind hheld =>
    rename_i pair
    have hown := h.found hheld.certificate hheld.key
    have hrecord : (r.recordOf host pair).Own owner u.vault.nextKey := ⟨hown.2, hheld.belongs⟩
    refine ⟨owner, h.extend id h.vault (by simp) (fun host' record' hmem' => ?_) ?_⟩
    · cases List.mem_singleton.mp hmem'
      exact ⟨rfl, hrecord⟩
    · rintro r ⟨⟩ record (_ | ⟨_, hmem⟩)
      · exact .inr hrecord
      · exact .inl (hold hmem)
  | issued hfind hmissing hname hc hmade =>
    rename_i name c
    have hkey : c.key = u.vault.nextKey := by rw [hc]; rfl
    have hrecord : (r.recordOf host (c, u.vault.nextKey)).Own
        (assign owner u.vault.nextKey host) v.nextKey :=
      ⟨hmade.nextKey ▸ isKeyOf_assign owner u.vault.nextKey host, hkey⟩
    refine ⟨assign owner u.vault.nextKey host, h.extend (fun hk => hmade.nextKey ▸ hk.assign _)
      (h.vault.made hmade (by simp [hkey])) (by simp) (fun host' record' hmem' => ?_) ?_⟩
    · cases List.mem_singleton.mp hmem'
      exact ⟨rfl, hrecord⟩
    · rintro r ⟨⟩ record (_ | ⟨_, hmem⟩)
      · exact .inr hrecord
      · exact .inl (hold hmem)

theorem Owned.denied_step {host : String} {r r' : Registry} {e : Error} {v : Vault}
    (h : u.Owned owner seen) (hsome : u.registry = some r)
    (hcourse : r.Course u.vault host (.error e) r' v) :
    ∃ owner', Owned owner' (seen ++ [.denied host e]) ⟨v, some r'⟩ := by
  cases hcourse with
  | denied =>
    refine ⟨owner, h.extend id h.vault (by simp) (by simp) ?_⟩
    rintro r ⟨⟩ record hmem
    exact .inl ⟨_, hsome, hmem⟩
  | unwritten _ _ hfiles hmade =>
    refine ⟨assign owner u.vault.nextKey host, h.extend (fun hk => hmade.nextKey ▸ hk.assign _)
      (h.vault.made hmade ?_) (by simp) (by simp) ?_⟩
    · rcases hfiles with rfl | rfl <;> simp
    · rintro r ⟨⟩ record hmem
      exact .inl ⟨_, hsome, hmem⟩

/-- Every deed keeps each key pair with one name. -/
theorem Owned.step {deed : Deed} (h : u.Owned owner seen) (hstep : Step u deed more u') :
    ∃ owner', u'.Owned owner' (seen ++ more) := by
  cases hstep with
  | opened hcourse => exact h.opened_step hcourse
  | refused hcourse => exact h.refused_step hcourse
  | unasked => exact ⟨owner, by rwa [List.append_nil]⟩
  | answered hsome hcourse => exact h.answered_step hsome hcourse
  | denied hsome hcourse => exact h.denied_step hsome hcourse
  | removed hnext _ hget =>
    refine ⟨owner, h.extend (fun hk => hnext ▸ hk) (h.vault.congr hnext fun n entry hentry => ?_)
      (by simp) (by simp) fun r hr record hmem => .inl ⟨r, hr, hmem⟩⟩
    rw [hget n] at hentry
    split at hentry
    · cases hentry
    · exact hentry

theorem Owned.start (path : String) : (start path).Owned (fun _ => ownName) [] :=
  ⟨⟨nofun, nofun⟩, by simp, by simp, nofun⟩

theorem Owned.run (path : String) (deeds : List Deed) :
    ∃ owner, ((Upkeep.start path).run deeds).2.Owned owner ((Upkeep.start path).run deeds).1 :=
  run_induction (P := fun seen u => ∃ owner, u.Owned owner seen)
    (fun _ ⟨_, h⟩ hstep => h.step hstep) ⟨_, .start path⟩

/-! ## The root's files -/

/-- Only who opens the directory, asks for the name of the root or removes its files changes them. -/
theorem sameFiles_act (u : Upkeep) {deed : Deed} (hopen : deed ≠ .open)
    (hensure : deed ≠ .ensure ownName) (hcert : deed ≠ .remove (certFile ownName))
    (hkey : deed ≠ .remove (keyFile ownName)) :
    SameFiles ownName u.vault.get? (u.act deed).2.vault.get? := by
  have hstep := step_act u deed
  generalize u.act deed = after at hstep ⊢
  obtain ⟨more, u'⟩ := after
  cases hstep with
  | opened => exact absurd rfl hopen
  | refused => exact absurd rfl hopen
  | unasked => exact fun _ _ => rfl
  | answered _ hcourse => exact hcourse.sameFiles fun heq => hensure (congrArg Deed.ensure heq)
  | denied _ hcourse => exact hcourse.sameFiles fun heq => hensure (congrArg Deed.ensure heq)
  | removed _ _ hget =>
    rename_i name v
    rintro file (rfl | rfl)
    · exact (hget _).trans (if_neg fun heq => hcert (congrArg Deed.remove heq.symm))
    · exact (hget _).trans (if_neg fun heq => hkey (congrArg Deed.remove heq.symm))

/-- What the root's files hold does not matter to other hosts. -/
theorem ensure_act_alikeBut (u : Upkeep) {host name : String} (hne : host ≠ name) {v : Vault}
    (halike : u.vault.AlikeBut name v) :
    (act ⟨v, u.registry⟩ (.ensure host)).1 = (u.act (.ensure host)).1 ∧
      (act ⟨v, u.registry⟩ (.ensure host)).2.registry = (u.act (.ensure host)).2.registry ∧
      (u.act (.ensure host)).2.vault.AlikeBut name
        (act ⟨v, u.registry⟩ (.ensure host)).2.vault := by
  obtain ⟨w, registry⟩ := u
  cases registry with
  | none => exact ⟨rfl, rfl, halike⟩
  | some r =>
    obtain ⟨hresult, hregistry, hafter⟩ := ensure_alikeBut r hne halike
    refine ⟨?_, ?_, hafter⟩
    · exact congrArg (fun result => [answer host result]) hresult
    · exact congrArg some hregistry

end Upkeep

/-- In any use of a directory, the root's files change only when it is opened, when someone asks for
the name of the root, or when others remove them. To ask for any other host comes to the same
whatever they hold, and no record for another host presents the certificate or the key of a root,
be it that of a registry or the one that is stored. -/
theorem root_apart (path : String) (deeds : List Deed) :
    let seen := ((Upkeep.start path).run deeds).1
    let u := ((Upkeep.start path).run deeds).2
    (∀ deed, deed ≠ .open → deed ≠ .ensure ownName → deed ≠ .remove (certFile ownName) →
      deed ≠ .remove (keyFile ownName) →
      SameFiles ownName u.vault.get? (u.act deed).2.vault.get?) ∧
    (∀ host, host ≠ ownName → ∀ v, u.vault.AlikeBut ownName v →
      let after := u.act (.ensure host)
      let after' := Upkeep.act ⟨v, u.registry⟩ (.ensure host)
      after'.1 = after.1 ∧ after'.2.registry = after.2.registry ∧
        after.2.vault.AlikeBut ownName after'.2.vault) ∧
    ∀ host record, host ≠ ownName → .answered host record ∈ seen →
      (∀ a, .opened a ∈ seen → record.certificate ≠ a.certificate ∧ record.key ≠ a.key) ∧
      u.vault.get? (certFile ownName) ≠ some (.file (.certificate record.certificate)) ∧
      u.vault.get? (keyFile ownName) ≠ some (.file (.key record.key)) := by
  intro seen u
  refine ⟨fun deed => u.sameFiles_act, fun host hne v => u.ensure_act_alikeBut hne,
    fun host record hne hmem => ?_⟩
  obtain ⟨owner, howned⟩ := Upkeep.Owned.run path deeds
  obtain ⟨hhost, ⟨-, howner⟩, hkey⟩ := howned.answered host record hmem
  rw [hhost] at howner
  have hother {k : Key} {next : Key} (hk : IsKeyOf owner next ownName k) : record.key ≠ k :=
    fun heq => hne (howner.symm.trans (heq ▸ hk.2))
  refine ⟨fun a ha => ⟨fun heq => ?_, hother (howned.opened a ha).1⟩, fun hfile => ?_,
    fun hfile => ?_⟩
  · exact hother (howned.opened a ha).2 (hkey.symm.trans (congrArg Certificate.key heq))
  · obtain ⟨name, hname, hown⟩ := howned.vault.certificate hfile
    rw [← certFile_inj.mp hname, hkey] at hown
    exact hother hown rfl
  · obtain ⟨name, hname, hown⟩ := howned.vault.key hfile
    rw [← keyFile_inj.mp hname] at hown
    exact hother hown rfl

/-- Whoever asks for the name of the root is presented the root with its key, or makes other files
in its place. -/
theorem root_presented :
    isValidHost ownName = true ∧
    (∃ a record, ((Upkeep.start "certs").run [.open, .ensure ownName]).1 =
        [.opened a, .answered ownName record] ∧
      record.certificate = a.certificate ∧ record.key = a.key) ∧
    let u := ((Upkeep.start "certs").run [.open, .remove (certFile ownName)]).2
    ¬SameFiles ownName u.vault.get? (u.act (.ensure ownName)).2.vault.get? := by
  refine ⟨by decide, ⟨⟨.root 0, 0⟩, ⟨ownName, .root 0, 0, .root 0⟩, by decide +kernel, rfl, rfl⟩,
    fun hsame => ?_⟩
  exact absurd (hsame (certFile ownName) (.inl rfl)) (by decide +kernel)

end Wiretap.Cert
