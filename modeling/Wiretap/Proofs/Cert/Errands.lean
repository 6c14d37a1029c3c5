import Wiretap.Cert.Errand
import Wiretap.Proofs.Cert.Files

/-!
# What errands do

Done at once, the errands are opening a directory and fetching a pair (`run_opening`,
`run_fetching`), and going by single operations comes to the same (`run_step`). However its
operations go, an errand keeps to the files of its own name. Once these are settled it changes
nothing, and what it answers stands in them (`Errand.Safe`, `safe_fetching`, `Errand.Safe.step`).
-/

namespace Wiretap.Cert

/-! ## At once -/

namespace Errand

variable {α : Type}

theorem run_lookBoth (name : String) (there missing : Errand α) (v : Vault) :
    (lookBoth name there missing).run v =
      if v.has (certFile name) && v.has (keyFile name) then there.run v else missing.run v := by
  unfold lookBoth
  cases hcert : v.has (certFile name) with
  | false => simp [run, hcert]
  | true => cases hkey : v.has (keyFile name) <;> simp [run, hcert, hkey]

theorem run_step (name : String) (errand : Errand α) (v : Vault) :
    (errand.step name .whole v).2.1.run (errand.step name .whole v).2.2 = errand.run v := by
  cases errand with
  | done result => rfl
  | make next =>
    simp only [step, run, Progress.outcome]
    cases v.make <;> rfl
  | look file next => rfl
  | read file next =>
    simp only [step, run, Progress.outcome]
    cases v.read file <;> rfl
  | newKey next => rfl
  | write file content next =>
    simp only [step, run, Progress.outcome, Authority.store]
    cases v.write file content <;> rfl

end Errand

theorem run_opening (v : Vault) : Authority.opening.run v = Authority.ofVault v := by
  unfold Authority.opening Authority.ofVault
  rw [Errand.run]
  cases v.make with
  | error e => rfl
  | ok made =>
    simp only [Errand.run_lookBoth]
    split
    · unfold Errand.readBoth Authority.load
      simp only [Errand.run]
      cases hcert : made.read (certFile Authority.ownName) with
      | error e => rfl
      | ok certificate =>
        cases hkey : made.read (keyFile Authority.ownName) with
        | error e => rfl
        | ok key => cases certificate <;> cases key <;> rfl
    · unfold Authority.generating Authority.generate
      cases hcert : Authority.store made.newKey.2 (certFile Authority.ownName)
          (.certificate (Certificate.root made.newKey.1)) with
      | error e => simp only [Errand.run, hcert]
      | ok first =>
        cases hkey : Authority.store first (keyFile Authority.ownName) (.key made.newKey.1) <;>
          simp only [Errand.run, hcert, hkey]

theorem run_fetching (a : Authority) (host : String) (v : Vault) :
    (Registry.fetching a host).run v = Registry.loadOrIssue a v host := by
  unfold Registry.fetching Registry.loadOrIssue
  rw [Errand.run_lookBoth]
  split
  · unfold Errand.readBoth Registry.load
    simp only [Errand.run]
    cases v.read (certFile host) with
    | error e => rfl
    | ok certificate => cases v.read (keyFile host) <;> rfl
  · unfold Registry.issuing Registry.issue Authority.issue
    cases Certificate.altName? host with
    | none => rfl
    | some name =>
      cases hkey : Authority.store v.newKey.2 (keyFile host) (.key v.newKey.1) with
      | error e => simp only [Errand.run, hkey]
      | ok first =>
        cases hcert : Authority.store first (certFile host)
            (.certificate (a.leaf host name v.newKey.1)) <;>
          simp only [Authority.leaf] at hcert <;>
          simp only [Errand.run, Authority.leaf, hkey, hcert]

/-! ## One operation after another -/

theorem Progress.eq_of_outcome {α : Type} {p : Progress} {whole : Except Error α} {x : α}
    (h : p.outcome whole = .ok x) : whole = .ok x := by
  cases p with
  | fails e => cases h
  | whole => exact h
  | partly bytes => exact h

/-- What stands under the names of a directory. -/
abbrev Held := String → Option Entry

/-- The files of a name hold a certificate and the key that belongs to it. -/
structure Settled (held : Held) (name : String) (c : Certificate) (k : Key) : Prop where
  certificate : held (certFile name) = some (.file (.certificate c))
  key : held (keyFile name) = some (.file (.key k))
  belongs : c.key = k

theorem Settled.isSome {held : Held} {name : String} {c : Certificate} {k : Key}
    (h : Settled held name c k) :
    (held (certFile name)).isSome ∧ (held (keyFile name)).isSome :=
  ⟨Option.isSome_of_eq_some h.certificate, Option.isSome_of_eq_some h.key⟩

theorem Settled.unique {held : Held} {name : String} {c c' : Certificate} {k k' : Key}
    (h : Settled held name c k) (h' : Settled held name c' k') : c' = c ∧ k' = k := by
  have hcert := h'.certificate.symm.trans h.certificate
  have hkey := h'.key.symm.trans h.key
  simpa using And.intro hcert hkey

/-- The same stands in both files of a name. -/
def SameFiles (name : String) (held held' : Held) : Prop :=
  ∀ file, IsFileOf name file → held' file = held file

theorem Settled.congr {held held' : Held} {name : String} {c : Certificate} {k : Key}
    (h : Settled held name c k) (hsame : SameFiles name held held') : Settled held' name c k :=
  ⟨(hsame _ (.inl rfl)).trans h.certificate, (hsame _ (.inr rfl)).trans h.key, h.belongs⟩

/-- A change to the files of a name, or a key pair for them. -/
def Event.Touches (name : String) : Event → Prop
  | generated n => n = name
  | wrote file => IsFileOf name file
  | _ => False

namespace Errand

variable {α : Type} {name : String} {settled settled' : Prop} {post : α → Held → Prop}
  {held held' : Held}

/-- An errand that looks at no files but those of its name, that changes them only if they are not
`settled` yet, and whose answer leaves `post`. -/
def Safe (name : String) (settled : Prop) (post : α → Held → Prop) : Errand α → Held → Prop
  | done result, held => ∀ x, result = .ok x → post x held
  | make next, held => next.Safe name settled post held
  | look file next, held =>
    IsFileOf name file ∧ (next (held file).isSome).Safe name settled post held
  | read file next, held =>
    IsFileOf name file ∧
    ∀ content, held file = some (.file content) → (next content).Safe name settled post held
  | newKey next, held => ¬settled ∧ ∀ key, (next key).Safe name settled post held
  | write file content next, held =>
    ¬settled ∧ IsFileOf name file ∧
    ∀ held' : Held, (∀ other, other ≠ file → held' other = held other) →
      held' file = some (.file content) → next.Safe name settled post held'

/-- Changes to other files do not matter to an errand. -/
theorem Safe.congr {errand : Errand α} (h : errand.Safe name settled post held)
    (hsettled : settled' → settled) (hsame : SameFiles name held held')
    (hpost : ∀ x held held', SameFiles name held held' → post x held → post x held') :
    errand.Safe name settled' post held' := by
  induction errand generalizing held held' with
  | done result => exact fun x hx => hpost x _ _ hsame (h x hx)
  | make next ih => exact ih h hsame
  | look file next ih =>
    refine ⟨h.1, ih _ ?_ hsame⟩
    rw [hsame file h.1]
    exact h.2
  | read file next ih =>
    refine ⟨h.1, fun content hcontent => ih content (h.2 content ?_) hsame⟩
    rw [← hsame file h.1, hcontent]
  | newKey next ih => exact ⟨fun hs => h.1 (hsettled hs), fun key => ih key (h.2 key) hsame⟩
  | write file content next ih =>
    refine ⟨fun hs => h.1 (hsettled hs), h.2.1, fun after hothers hfile => ?_⟩
    -- what the write leaves over the old directory differs only in other files
    let overlaid : Held := fun n => if n = file then some (.file content) else held n
    have hoverlaid : next.Safe name settled post overlaid :=
      h.2.2 overlaid (fun other hne => if_neg hne) (if_pos rfl)
    refine ih hoverlaid fun n hn => ?_
    by_cases heq : n = file
    · rw [heq, hfile]
      exact (if_pos rfl).symm
    · rw [hothers n heq, hsame n hn]
      exact (if_neg heq).symm

theorem safe_lookBoth {there missing : Errand α}
    (hthere : (held (certFile name)).isSome → (held (keyFile name)).isSome →
      there.Safe name settled post held)
    (hmissing : ¬((held (certFile name)).isSome ∧ (held (keyFile name)).isSome) →
      missing.Safe name settled post held) :
    (lookBoth name there missing).Safe name settled post held := by
  refine ⟨.inl rfl, ?_⟩
  cases hcert : (held (certFile name)).isSome with
  | false => exact hmissing fun h => absurd (hcert.symm.trans h.1) (by decide)
  | true =>
    refine ⟨.inr rfl, ?_⟩
    cases hkey : (held (keyFile name)).isSome with
    | false => exact hmissing fun h => absurd (hkey.symm.trans h.2) (by decide)
    | true => exact hthere hcert hkey

theorem safe_readBoth {result : Content → Content → Except Error α}
    (h : ∀ certificate key, held (certFile name) = some (.file certificate) →
      held (keyFile name) = some (.file key) → ∀ x, result certificate key = .ok x → post x held) :
    (readBoth name result).Safe name settled post held :=
  ⟨.inl rfl, fun certificate hcert => ⟨.inr rfl, fun key hkey => h certificate key hcert hkey⟩⟩

/-- What one operation of a safe errand leaves. -/
structure Keeps (name : String) (settled : Prop) (v v' : Vault) (seen : List Event) : Prop where
  touches : ∀ event ∈ seen, event.Touches name
  others : ∀ file, ¬IsFileOf name file → v'.get? file = v.get? file
  settled : settled → seen = [] ∧ v'.get? = v.get?

theorem Keeps.of_get? {v v' : Vault} (h : v'.get? = v.get?) : Keeps name settled v v' [] :=
  ⟨by simp, fun file _ => congrFun h file, fun _ => ⟨rfl, h⟩⟩

theorem Keeps.of_write {v v' : Vault} {file : String} {content : Content} (hsettled : ¬settled)
    (hfile : IsFileOf name file) (h : v.write file content = .ok v') :
    Keeps name settled v v' [.wrote file] := by
  refine ⟨by simpa [Event.Touches] using hfile, fun other hother => ?_, fun hs => absurd hs hsettled⟩
  have hne : other ≠ file := by
    rintro rfl
    exact hother hfile
  rw [Vault.eq_put_of_write h, Vault.get?_put, if_neg hne]

theorem Safe.step {errand : Errand α} {v : Vault}
    (h : errand.Safe name settled post v.get?) (p : Progress) :
    (errand.step name p v).2.1.Safe name settled post (errand.step name p v).2.2.get? ∧
    Keeps name settled v (errand.step name p v).2.2 (errand.step name p v).1 := by
  have hunchanged : Keeps name settled v v [] := .of_get? rfl
  have herror (e : Error) : (done (.error e) : Errand α).Safe name settled post v.get? := nofun
  cases errand with
  | done result => exact ⟨h, hunchanged⟩
  | make next =>
    simp only [Errand.step]
    split
    · exact ⟨herror _, hunchanged⟩
    · rename_i v' hmake
      have hsame := Vault.get?_of_make (Progress.eq_of_outcome hmake)
      exact ⟨hsame ▸ h, .of_get? hsame⟩
  | look file next => exact ⟨h.2, hunchanged⟩
  | read file next =>
    simp only [Errand.step]
    split
    · exact ⟨herror _, hunchanged⟩
    · rename_i content hread
      exact ⟨h.2 content (Vault.get?_of_read (Progress.eq_of_outcome hread)), hunchanged⟩
  | newKey next =>
    exact ⟨h.2 _, by simp [Errand.step, Event.Touches], fun _ _ => rfl, fun hs => absurd hs h.1⟩
  | write file content next =>
    obtain ⟨hsettled, hfile, hnext⟩ := h
    simp only [Errand.step]
    split
    · split
      · exact ⟨⟨hsettled, hfile, hnext⟩, hunchanged⟩
      · rename_i v' hwrite
        refine ⟨⟨hsettled, hfile, fun after hothers => hnext after fun other hne => ?_⟩,
          .of_write hsettled hfile hwrite⟩
        rw [hothers other hne, Vault.eq_put_of_write hwrite, Vault.get?_put, if_neg hne]
    · split
      · exact ⟨herror _, hunchanged⟩
      · rename_i v' hwrite
        have hwrite := Progress.eq_of_outcome hwrite
        refine ⟨hnext _ (fun other hne => ?_) ?_, .of_write hsettled hfile hwrite⟩
        · rw [Vault.eq_put_of_write hwrite, Vault.get?_put, if_neg hne]
        · rw [Vault.eq_put_of_write hwrite, Vault.get?_put, if_pos rfl]

end Errand

/-! ## Openings and fetches -/

theorem safe_opening {settled : Prop} {held : Held}
    (h : settled → ∃ c k, Settled held Authority.ownName c k) :
    Authority.opening.Safe Authority.ownName settled (fun _ _ => True) held := by
  refine Errand.safe_lookBoth (fun _ _ => Errand.safe_readBoth fun _ _ _ _ _ _ => trivial)
    fun hmissing => ?_
  have hunsettled : ¬settled := fun hs => by
    obtain ⟨c, k, hsettled⟩ := h hs
    exact hmissing hsettled.isSome
  exact ⟨hunsettled, fun key => ⟨hunsettled, .inl rfl, fun _ _ _ =>
    ⟨hunsettled, .inr rfl, fun _ _ _ _ _ => trivial⟩⟩⟩

/-- The pair that a fetch answers is settled. -/
def PairHeld (host : String) (pair : Certificate × Key) (held : Held) : Prop :=
  Settled held host pair.1 pair.2

theorem eq_of_pair? {certificate key : Content} {pair : Certificate × Key}
    (h : Registry.pair? certificate key = .ok pair) :
    certificate = .certificate pair.1 ∧ key = .key pair.2 ∧ pair.1.key = pair.2 := by
  unfold Registry.pair? at h
  split at h
  · split at h
    · rename_i hkey
      cases h
      exact ⟨rfl, rfl, hkey⟩
    · cases h
  · cases h
  · cases h

theorem safe_fetching (a : Authority) {host : String} {settled : Prop} {held : Held}
    (h : settled → ∃ c k, Settled held host c k) :
    (Registry.fetching a host).Safe host settled (PairHeld host) held := by
  refine Errand.safe_lookBoth (fun _ _ => Errand.safe_readBoth ?_) fun hmissing => ?_
  · intro certificate key hcert hkey pair hpair
    obtain ⟨rfl, rfl, hbelongs⟩ := eq_of_pair? hpair
    exact ⟨hcert, hkey, hbelongs⟩
  · have hunsettled : ¬settled := fun hs => by
      obtain ⟨c, k, hsettled⟩ := h hs
      exact hmissing hsettled.isSome
    unfold Registry.issuing
    split
    · exact nofun
    · rename_i name _
      refine ⟨hunsettled, fun key => ⟨hunsettled, .inr rfl, fun first _ hkey =>
        ⟨hunsettled, .inl rfl, fun second hothers hcert pair hpair => ?_⟩⟩⟩
      cases hpair
      exact ⟨hcert, (hothers _ (certFile_ne_keyFile host host).symm).trans hkey, rfl⟩

end Wiretap.Cert
