import Wiretap.Cert.Upkeep
import Wiretap.Proofs.Cert.Errands
import Wiretap.Proofs.Cert.Records

/-!
# Courses

What opening a directory and asking for a host can come to, in a few courses each: all that is
answered, and all that becomes of the files (`course_ofVault`, `course_ensure`).
-/

namespace Wiretap.Cert

/-- A new key pair was taken and these files were written. -/
structure Vault.Made (v v' : Vault) (files : List (String × Content)) : Prop where
  nextKey : v'.nextKey = v.nextKey + 1
  get? : ∀ n, v'.get? n = ((files.lookup n).map .file).or (v.get? n)
  directory : (∃ entries, v.place = .directory entries) → ∃ entries, v'.place = .directory entries

namespace Vault

variable {v v' : Vault}

theorem made_newKey (v : Vault) : Made v v.newKey.2 [] := ⟨rfl, fun _ => rfl, id⟩

theorem Made.write {files : List (String × Content)} {file : String} {content : Content}
    {v'' : Vault} (h : Made v v' files) (hwrite : v'.write file content = .ok v'') :
    Made v v'' ((file, content) :: files) := by
  cases eq_put_of_write hwrite
  refine ⟨h.nextKey, fun n => ?_, fun _ => ⟨_, rfl⟩⟩
  rw [get?_put, List.lookup_cons]
  by_cases heq : n = file
  · simp [heq]
  · rw [if_neg heq, beq_false_of_ne heq, h.get? n]

theorem Made.get?_of_lookup {files : List (String × Content)} {n : String} {content : Content}
    (h : Made v v' files) (hn : files.lookup n = some content) :
    v'.get? n = some (.file content) := by
  rw [h.get? n, hn]
  rfl

/-- An entry was written, or stood there before. -/
theorem Made.mem_or {files : List (String × Content)} {n : String} {entry : Entry}
    (h : Made v v' files) (hn : v'.get? n = some entry) :
    (∃ content, entry = .file content ∧ (n, content) ∈ files) ∨ v.get? n = some entry := by
  rw [h.get? n] at hn
  cases hfile : files.lookup n with
  | none => exact .inr (by simpa [hfile] using hn)
  | some content =>
    obtain ⟨before, after, heq, -⟩ := List.lookup_eq_some_iff.mp hfile
    rw [hfile] at hn
    refine .inl ⟨content, (Option.some.inj hn).symm, ?_⟩
    rw [heq]
    exact List.mem_append_right _ List.mem_cons_self

/-- Files of other names are as they were. -/
theorem Made.sameFiles {files : List (String × Content)} {name : String} (h : Made v v' files)
    (hfiles : ∀ entry ∈ files, ¬IsFileOf name entry.1) : SameFiles name v.get? v'.get? := by
  intro file hfile
  have hnone : files.lookup file = none := by
    rw [List.lookup_eq_none_iff]
    intro entry hentry
    have hne : file ≠ entry.1 := by
      rintro rfl
      exact hfiles entry hentry hfile
    exact bne_iff_ne.mpr hne
  rw [h.get? file, hnone, Option.map_none, Option.none_or]

theorem obstacle_of_write {file : String} {content : Content} {e : Error}
    (h : v.write file content = .error e) : v.obstacle file ≠ none := by
  intro hnone
  rw [write, hnone] at h
  cases h

/-- A file of the name cannot be written. -/
def Stuck (v : Vault) (name : String) : Prop := ∃ file, IsFileOf name file ∧ v.obstacle file ≠ none

end Vault

namespace Authority

/-- What opening a directory can come to. -/
inductive Course (v : Vault) : Except Error Authority → Vault → Prop
  | refused (e : Error) {v' : Vault} (hnext : v'.nextKey = v.nextKey) (hget : v'.get? = v.get?) :
    Course v (.error e) v'
  /-- The root is read. -/
  | found {c : Certificate} {k : Key} {v' : Vault} (hnext : v'.nextKey = v.nextKey)
    (hget : v'.get? = v.get?) (hplace : ∃ entries, v'.place = .directory entries)
    (hcert : v.get? (certFile ownName) = some (.file (.certificate c)))
    (hkey : v.get? (keyFile ownName) = some (.file (.key k))) : Course v (.ok ⟨c, k⟩) v'
  /-- A root is made, since a file of it is missing. -/
  | made {v' : Vault} (hmissing : ¬(v.has (certFile ownName) ∧ v.has (keyFile ownName)))
    (hplace : ∃ entries, v'.place = .directory entries)
    (hmade : v.Made v' [(keyFile ownName, .key v.nextKey),
      (certFile ownName, .certificate (.root v.nextKey))]) :
    Course v (.ok ⟨.root v.nextKey, v.nextKey⟩) v'
  | unwritten (e : Error) {v' : Vault} {files : List (String × Content)}
    (hmissing : ¬(v.has (certFile ownName) ∧ v.has (keyFile ownName)))
    (hfiles : files = [] ∨ files = [(certFile ownName, .certificate (.root v.nextKey))])
    (hmade : v.Made v' files) (hplace : ∃ entries, v'.place = .directory entries)
    (hstuck : v'.Stuck ownName) : Course v (.error e) v'

theorem course_load {v made : Vault} (hnext : made.nextKey = v.nextKey)
    (hget : made.get? = v.get?) (hplace : ∃ entries, made.place = .directory entries) :
    Course v (load made) made := by
  unfold load
  split
  · exact .refused _ hnext hget
  · exact .refused _ hnext hget
  · rename_i c k hcert hkey
    exact .found hnext hget hplace (hget ▸ Vault.get?_of_read hcert)
      (hget ▸ Vault.get?_of_read hkey)
  · exact .refused _ hnext hget
  · exact .refused _ hnext hget

theorem course_generate {v made : Vault} (hnext : made.nextKey = v.nextKey)
    (hget : made.get? = v.get?) (hplace : ∃ entries, made.place = .directory entries)
    (hmissing : ¬(v.has (certFile ownName) ∧ v.has (keyFile ownName))) :
    Course v (generate made).1 (generate made).2 := by
  have hnew : v.Made made.newKey.2 [] :=
    ⟨congrArg (· + 1) hnext, fun n => (congrFun hget n).trans rfl, fun _ => hplace⟩
  have hpair : made.newKey = (v.nextKey, made.newKey.2) := Prod.ext hnext rfl
  rw [generate, hpair]
  cases hcert : made.newKey.2.write (certFile ownName) (.certificate (.root v.nextKey)) with
  | error e =>
    simp only [store_of_write_error hcert]
    exact .unwritten _ hmissing (.inl rfl) hnew hplace ⟨_, .inl rfl, Vault.obstacle_of_write hcert⟩
  | ok first =>
    have hfirst : ∃ entries, first.place = .directory entries := Vault.place_of_write hcert
    cases hkey : first.write (keyFile ownName) (.key v.nextKey) with
    | error e =>
      simp only [store_of_write hcert, store_of_write_error hkey]
      exact .unwritten _ hmissing (.inr rfl) (hnew.write hcert) hfirst
        ⟨_, .inr rfl, Vault.obstacle_of_write hkey⟩
    | ok second =>
      simp only [store_of_write hcert, store_of_write hkey]
      exact .made hmissing (Vault.place_of_write hkey) ((hnew.write hcert).write hkey)

theorem course_ofVault (v : Vault) : Course v (ofVault v).1 (ofVault v).2 := by
  unfold ofVault
  cases hmake : v.make with
  | error e => exact .refused _ rfl rfl
  | ok made =>
    have hget := Vault.get?_of_make hmake
    obtain ⟨hnext, hplace⟩ := Vault.place_of_make hmake
    have hhas (n : String) : made.has n = v.has n := by rw [Vault.has, Vault.has, hget]
    simp only [hhas]
    split
    · exact course_load hnext hget hplace
    · rename_i hmissing
      exact course_generate hnext hget hplace (by simpa using hmissing)

/-- What stands in the root's files after an opening. -/
theorem Course.opened {v v' : Vault} {a : Authority} (h : Course v (.ok a) v') :
    v'.get? (certFile ownName) = some (.file (.certificate a.certificate)) ∧
      v'.get? (keyFile ownName) = some (.file (.key a.key)) := by
  cases h with
  | found _ hget _ hcert hkey => exact ⟨(congrFun hget _).trans hcert, (congrFun hget _).trans hkey⟩
  | made _ _ hmade => exact ⟨hmade.get?_of_lookup rfl, hmade.get?_of_lookup rfl⟩

/-- A root that is there is left as it is. -/
theorem Course.sameFiles_of_has {v v' : Vault} {result : Except Error Authority}
    (h : Course v result v') (hthere : v.has (certFile ownName) ∧ v.has (keyFile ownName)) :
    SameFiles ownName v.get? v'.get? := by
  cases h with
  | refused _ _ hget => exact fun file _ => congrFun hget file
  | found _ hget => exact fun file _ => congrFun hget file
  | made hmissing => exact absurd hthere hmissing
  | unwritten _ hmissing => exact absurd hthere hmissing

/-- A root that is there is the one that is opened. -/
theorem Course.of_has {v v' : Vault} {a a' : Authority} (h : Course v (.ok a') v')
    (hcert : v.get? (certFile ownName) = some (.file (.certificate a.certificate)))
    (hkey : v.get? (keyFile ownName) = some (.file (.key a.key))) :
    SameFiles ownName v.get? v'.get? ∧ a' = a := by
  have hsame := h.sameFiles_of_has
    ⟨Option.isSome_of_eq_some hcert, Option.isSome_of_eq_some hkey⟩
  obtain ⟨hcert', hkey'⟩ := h.opened
  have hcertificates := hcert'.symm.trans ((hsame _ (.inl rfl)).trans hcert)
  have hkeys := hkey'.symm.trans ((hsame _ (.inr rfl)).trans hkey)
  cases a
  cases a'
  cases hcertificates
  cases hkeys
  exact ⟨hsame, rfl⟩

end Authority

namespace Registry

/-- What asking for a host can come to. -/
inductive Course (r : Registry) (v : Vault) (host : String) :
    Except Error Record → Registry → Vault → Prop
  | denied (e : Error) : Course r v host (.error e) r v
  | kept {record : Record} (hfind : r.find? host = some record) : Course r v host (.ok record) r v
  /-- The pair is read. -/
  | found {pair : Certificate × Key} (hfind : r.find? host = none)
    (hheld : PairHeld host pair v.get?) :
    Course r v host (.ok (r.recordOf host pair)) (r.keep (r.recordOf host pair)) v
  /-- The pair is made, since a file of it is missing. -/
  | issued {name : AltName} {c : Certificate} {v' : Vault} (hfind : r.find? host = none)
    (hmissing : ¬(v.has (certFile host) ∧ v.has (keyFile host)))
    (hname : Certificate.altName? host = some name)
    (hc : c = r.authority.leaf host name v.nextKey)
    (hmade : v.Made v' [(certFile host, .certificate c), (keyFile host, .key v.nextKey)]) :
    Course r v host (.ok (r.recordOf host (c, v.nextKey)))
      (r.keep (r.recordOf host (c, v.nextKey))) v'
  | unwritten (e : Error) {v' : Vault} {files : List (String × Content)}
    (hmissing : ¬(v.has (certFile host) ∧ v.has (keyFile host)))
    (hfiles : files = [] ∨ files = [(keyFile host, .key v.nextKey)])
    (hmade : v.Made v' files) (hstuck : v'.Stuck host) : Course r v host (.error e) r v'

theorem Course.sameFiles {r r' : Registry} {v v' : Vault} {host name : String}
    {result : Except Error Record} (h : r.Course v host result r' v') (hne : host ≠ name) :
    SameFiles name v.get? v'.get? := by
  have hapart {file : String} (hfile : IsFileOf host file) : ¬IsFileOf name file :=
    fun hname => hne (hfile.eq hname)
  cases h with
  | denied => exact fun _ _ => rfl
  | kept => exact fun _ _ => rfl
  | found => exact fun _ _ => rfl
  | issued _ _ _ _ hmade =>
    refine hmade.sameFiles ?_
    simp only [List.mem_cons, List.not_mem_nil, or_false, forall_eq_or_imp, forall_eq]
    exact ⟨hapart (.inl rfl), hapart (.inr rfl)⟩
  | unwritten _ _ hfiles hmade =>
    refine hmade.sameFiles ?_
    rcases hfiles with rfl | rfl
    · exact nofun
    · simp only [List.mem_singleton, forall_eq]
      exact hapart (.inr rfl)

/-- A pair that is there is left as it is. -/
theorem Course.sameFiles_of_has {r r' : Registry} {v v' : Vault} {host name : String}
    {result : Except Error Record} (h : r.Course v host result r' v')
    (hthere : v.has (certFile name) ∧ v.has (keyFile name)) :
    SameFiles name v.get? v'.get? := by
  by_cases hne : host = name
  · subst hne
    cases h with
    | denied => exact fun _ _ => rfl
    | kept => exact fun _ _ => rfl
    | found => exact fun _ _ => rfl
    | issued _ hmissing => exact absurd hthere hmissing
    | unwritten _ hmissing => exact absurd hthere hmissing
  · exact h.sameFiles hne

theorem Course.authority {r r' : Registry} {v v' : Vault} {host : String}
    {result : Except Error Record} (h : r.Course v host result r' v') :
    r'.authority = r.authority := by
  cases h <;> rfl

/-- A record comes with the root of its registry, if those in memory do. -/
theorem Course.root {r r' : Registry} {v v' : Vault} {host : String} {record : Record}
    (h : r.Course v host (.ok record) r' v')
    (hrecords : ∀ record ∈ r.records, record.root = r.authority.certificate) :
    record.root = r.authority.certificate := by
  cases h with
  | kept hfind => exact hrecords record (List.mem_of_find?_eq_some hfind)
  | found => rfl
  | issued => rfl

section

variable {v : Vault} {host : String}

/-- What is made of the outcome of an errand for a host. -/
def conclude (r : Registry) (host : String) (outcome : Except Error (Certificate × Key) × Vault) :
    Except Error Record × Registry × Vault :=
  match outcome with
  | (.error e, v) => (.error (failure host e), r, v)
  | (.ok pair, v) => (.ok (r.recordOf host pair), r.keep (r.recordOf host pair), v)

theorem ensure_of_find? {r : Registry} {record : Record} (hvalid : isValidHost host = true)
    (hfind : r.find? host = some record) (v : Vault) : r.ensure v host = (.ok record, r, v) := by
  rw [ensure, if_pos hvalid, hfind]

theorem ensure_of_invalid (r : Registry) (v : Vault) (hvalid : ¬isValidHost host = true) :
    r.ensure v host = (.error (invalidHost host), r, v) := if_neg hvalid

theorem ensure_eq_conclude (r : Registry) (v : Vault) (hvalid : isValidHost host = true)
    (hfind : r.find? host = none) :
    r.ensure v host = r.conclude host (loadOrIssue r.authority v host) := by
  rw [ensure, if_pos hvalid, hfind]
  rcases loadOrIssue r.authority v host with ⟨_ | _, _⟩ <;> rfl

theorem course_load (r : Registry) (hfind : r.find? host = none) :
    Course r v host (r.conclude host (load v host, v)).1 (r.conclude host (load v host, v)).2.1
      (r.conclude host (load v host, v)).2.2 := by
  cases hload : load v host with
  | error e => exact .denied _
  | ok pair =>
    unfold load at hload
    split at hload
    · cases hload
    · cases hload
    · rename_i certificate key hcert hkey
      obtain ⟨rfl, rfl, hbelongs⟩ := eq_of_pair? hload
      exact .found hfind ⟨Vault.get?_of_read hcert, Vault.get?_of_read hkey, hbelongs⟩

theorem course_issue (r : Registry) (hfind : r.find? host = none)
    (hmissing : ¬(v.has (certFile host) ∧ v.has (keyFile host))) :
    Course r v host (r.conclude host (issue r.authority v host)).1
      (r.conclude host (issue r.authority v host)).2.1
      (r.conclude host (issue r.authority v host)).2.2 := by
  unfold issue Authority.issue
  cases hname : Certificate.altName? host with
  | none => exact .denied _
  | some name =>
    have hpair : v.newKey = (v.nextKey, v.newKey.2) := rfl
    rw [hpair]
    cases hkey : v.newKey.2.write (keyFile host) (.key v.nextKey) with
    | error e =>
      simp only [Authority.store_of_write_error hkey]
      exact .unwritten _ hmissing (.inl rfl) (Vault.made_newKey v)
        ⟨_, .inr rfl, Vault.obstacle_of_write hkey⟩
    | ok first =>
      have hfirst := (Vault.made_newKey v).write hkey
      cases hcert : first.write (certFile host)
          (.certificate (r.authority.leaf host name v.nextKey)) with
      | error e =>
        simp only [Authority.leaf] at hcert
        simp only [Authority.store_of_write hkey, Authority.store_of_write_error hcert]
        exact .unwritten _ hmissing (.inr rfl) hfirst ⟨_, .inl rfl, Vault.obstacle_of_write hcert⟩
      | ok second =>
        have hsecond := hfirst.write hcert
        simp only [Authority.leaf] at hcert
        simp only [Authority.store_of_write hkey, Authority.store_of_write hcert]
        exact .issued hfind hmissing hname rfl hsecond

end

theorem course_ensure (r : Registry) (v : Vault) (host : String) :
    Course r v host (r.ensure v host).1 (r.ensure v host).2.1 (r.ensure v host).2.2 := by
  by_cases hvalid : isValidHost host = true
  · cases hfind : r.find? host with
    | some record =>
      rw [ensure_of_find? hvalid hfind]
      exact .kept hfind
    | none =>
      rw [ensure_eq_conclude r v hvalid hfind, loadOrIssue]
      split
      · exact course_load r hfind
      · rename_i hmissing
        exact course_issue r hfind (by simpa using hmissing)
  · rw [ensure_of_invalid r v hvalid]
    exact .denied _

end Registry

namespace Upkeep

/-- What one deed can come to. -/
inductive Step (u : Upkeep) : Deed → List Outcome → Upkeep → Prop
  | opened {a : Authority} {v : Vault} (hcourse : Authority.Course u.vault (.ok a) v) :
    Step u .open [.opened a] ⟨v, some ⟨a, []⟩⟩
  | refused {e : Error} {v : Vault} (hcourse : Authority.Course u.vault (.error e) v) :
    Step u .open [.refused e] ⟨v, none⟩
  | unasked {host : String} (hnone : u.registry = none) : Step u (.ensure host) [] u
  | answered {host : String} {r r' : Registry} {record : Record} {v : Vault}
    (hsome : u.registry = some r) (hcourse : r.Course u.vault host (.ok record) r' v) :
    Step u (.ensure host) [.answered host record] ⟨v, some r'⟩
  | denied {host : String} {r r' : Registry} {e : Error} {v : Vault}
    (hsome : u.registry = some r) (hcourse : r.Course u.vault host (.error e) r' v) :
    Step u (.ensure host) [.denied host e] ⟨v, some r'⟩
  | removed {name : String} {v : Vault} (hnext : v.nextKey = u.vault.nextKey)
    (hplace : (∃ entries, u.vault.place = .directory entries) →
      ∃ entries, v.place = .directory entries)
    (hget : ∀ n, v.get? n = if n = name then none else u.vault.get? n) :
    Step u (.remove name) [] ⟨v, u.registry⟩

theorem step_act (u : Upkeep) (deed : Deed) : Step u deed (u.act deed).1 (u.act deed).2 := by
  cases deed with
  | «open» =>
    have hcourse := Authority.course_ofVault u.vault
    unfold act Registry.ofVault
    generalize Authority.ofVault u.vault = opened at hcourse ⊢
    obtain ⟨_ | _, v⟩ := opened
    · exact .refused hcourse
    · exact .opened hcourse
  | ensure host =>
    unfold act
    cases hregistry : u.registry with
    | none => exact .unasked hregistry
    | some r =>
      have hcourse := r.course_ensure u.vault host
      simp only
      generalize r.ensure u.vault host = outcome at hcourse ⊢
      obtain ⟨_ | _, r', v⟩ := outcome
      · exact .denied hregistry hcourse
      · exact .answered hregistry hcourse
  | remove name =>
    exact .removed (Vault.nextKey_remove _ name) (Vault.place_of_remove _ name)
      (Vault.get?_remove _ name)

/-- What every deed preserves holds at the end. -/
theorem run_induction {P : List Outcome → Upkeep → Prop}
    {deeds : List Deed} (hstep : ∀ {seen u deed more u'}, deed ∈ deeds → P seen u →
      Step u deed more u' → P (seen ++ more) u')
    {seen : List Outcome} {u : Upkeep} (h : P seen u) :
    P (seen ++ (u.run deeds).1) (u.run deeds).2 := by
  induction deeds generalizing seen u with
  | nil => rwa [run, List.append_nil]
  | cons deed deeds ih =>
    rw [run, ← List.append_assoc]
    exact ih (fun hmem => hstep (List.mem_cons_of_mem deed hmem))
      (hstep List.mem_cons_self h (step_act u deed))

end Upkeep

end Wiretap.Cert
