import Wiretap.Tunnel.Relay

/-!
# Runs read by read

A run over reads that are put together is the run over the first and then, from where
it ended, the run over the others (`run_append_ok`); it crashes where one of the two
does (`run_append_error`), and then at one of its reads (`run_eq_error_iff`).
-/

namespace Wiretap.Tunnel

variable {σ : Type}

namespace Clock

theorem deadline_eq_ok_iff {c : Clock} {d : Option Moment} : c.deadline = .ok d ↔
    d = c.limit.map (c.last + ·) ∧ ∀ limit ∈ c.limit, c.last + limit ≤ lastMoment := by
  unfold deadline after
  cases c.limit with
  | none => simp [eq_comm]
  | some limit => by_cases h : c.last + limit ≤ lastMoment <;> simp [h, Except.map, eq_comm]

theorem deadline_eq_error_iff {c : Clock} {crash : Crash} : c.deadline = .error crash ↔
    crash = .clockOverflow ∧ ∃ limit ∈ c.limit, lastMoment < c.last + limit := by
  unfold deadline after
  cases c.limit with
  | none => simp
  | some limit =>
    by_cases h : c.last + limit ≤ lastMoment <;> simp [h, Except.map, eq_comm, Nat.lt_of_not_le]

end Clock

namespace Output

@[simp] theorem toClient_append (a b : Output) : (a ++ b).toClient = a.toClient ++ b.toClient := rfl

@[simp] theorem toOrigin_append (a b : Output) : (a ++ b).toOrigin = a.toOrigin ++ b.toOrigin := rfl

@[simp] theorem published_append (a b : Output) :
    (a ++ b).published = a.published ++ b.published := rfl

theorem append_none (a : Output) : a ++ none = a := by
  obtain ⟨toClient, toOrigin, published⟩ := a
  change append _ _ = _
  simp [append, none]

theorem append_assoc (a b c : Output) : a ++ b ++ c = a ++ (b ++ c) := by
  change append (append _ _) _ = append _ (append _ _)
  simp [append]

end Output

theorem run_cons (i : Interceptor σ) (t : Tunnel σ) (r : Read) (rest : List Read) :
    t.run i (r :: rest) = match t.step i r with
      | .error crash => .error crash
      | .ok (out, t) => (t.run i rest).map fun (later, t) => (out ++ later, t) := by
  rw [run]
  cases t.step i r with
  | error => rfl
  | ok result =>
    obtain ⟨out, t⟩ := result
    simp only [bind, Except.bind]
    cases t.run i rest <;> rfl

theorem run_cons_ok {i : Interceptor σ} {t t' : Tunnel σ} {r : Read} {rest : List Read}
    {out : Output} :
    t.run i (r :: rest) = .ok (out, t') ↔ ∃ out₁ t₁ out₂, t.step i r = .ok (out₁, t₁) ∧
      t₁.run i rest = .ok (out₂, t') ∧ out = out₁ ++ out₂ := by
  rw [run_cons]
  constructor
  · intro h
    split at h
    · cases h
    · rename_i out₁ t₁ hs
      cases hr : t₁.run i rest with
      | error => rw [hr] at h; cases h
      | ok result => rw [hr] at h; cases h; exact ⟨_, _, _, hs, hr, rfl⟩
  · rintro ⟨out₁, t₁, out₂, hs, hr, rfl⟩
    simp only [hs, hr]
    rfl

theorem run_cons_error {i : Interceptor σ} {t : Tunnel σ} {r : Read} {rest : List Read}
    {crash : Crash} :
    t.run i (r :: rest) = .error crash ↔ t.step i r = .error crash ∨
      ∃ out₁ t₁, t.step i r = .ok (out₁, t₁) ∧ t₁.run i rest = .error crash := by
  rw [run_cons]
  constructor
  · intro h
    split at h
    · rename_i hs
      exact .inl (hs.trans h)
    · rename_i out₁ t₁ hs
      cases hr : t₁.run i rest with
      | error => rw [hr] at h; cases h; exact .inr ⟨_, _, hs, hr⟩
      | ok result => rw [hr] at h; cases h
  · rintro (hs | ⟨out₁, t₁, hs, hr⟩)
    · simp only [hs]
    · simp only [hs, hr]
      rfl

theorem run_append_ok {i : Interceptor σ} {t t' : Tunnel σ} {reads more : List Read}
    {out : Output} :
    t.run i (reads ++ more) = .ok (out, t') ↔ ∃ out₁ t₁ out₂, t.run i reads = .ok (out₁, t₁) ∧
      t₁.run i more = .ok (out₂, t') ∧ out = out₁ ++ out₂ := by
  induction reads generalizing t out with
  | nil =>
    refine ⟨fun h => ⟨.none, t, out, rfl, h, rfl⟩, ?_⟩
    rintro ⟨out₁, t₁, out₂, ⟨⟩, hm, rfl⟩
    exact hm
  | cons r rest ih =>
    rw [List.cons_append, run_cons_ok]
    constructor
    · rintro ⟨out₁, t₁, out₂, hs, hr, rfl⟩
      obtain ⟨out₃, t₂, out₄, hr₁, hr₂, rfl⟩ := ih.mp hr
      exact ⟨_, t₂, out₄, run_cons_ok.mpr ⟨_, _, _, hs, hr₁, rfl⟩, hr₂,
        (Output.append_assoc _ _ _).symm⟩
    · rintro ⟨out₁, t₁, out₂, hr, hm, rfl⟩
      obtain ⟨out₃, t₂, out₄, hs, hr₁, rfl⟩ := run_cons_ok.mp hr
      exact ⟨out₃, t₂, _, hs, ih.mpr ⟨_, _, _, hr₁, hm, rfl⟩, Output.append_assoc _ _ _⟩

theorem run_append_error {i : Interceptor σ} {t : Tunnel σ} {reads more : List Read}
    {crash : Crash} :
    t.run i (reads ++ more) = .error crash ↔ t.run i reads = .error crash ∨
      ∃ out₁ t₁, t.run i reads = .ok (out₁, t₁) ∧ t₁.run i more = .error crash := by
  induction reads generalizing t with
  | nil =>
    refine ⟨fun h => .inr ⟨.none, t, rfl, h⟩, ?_⟩
    rintro (hs | ⟨out₁, t₁, ⟨⟩, hm⟩)
    · cases hs
    · exact hm
  | cons r rest ih =>
    rw [List.cons_append, run_cons_error, run_cons_error]
    constructor
    · rintro (hs | ⟨out₁, t₁, hs, hr⟩)
      · exact .inl (.inl hs)
      · rcases ih.mp hr with hr | ⟨out₂, t₂, hr, hm⟩
        · exact .inl (.inr ⟨_, _, hs, hr⟩)
        · exact .inr ⟨_, _, run_cons_ok.mpr ⟨_, _, _, hs, hr, rfl⟩, hm⟩
    · rintro ((hs | ⟨out₁, t₁, hs, hr⟩) | ⟨out₁, t₁, hr, hm⟩)
      · exact .inl hs
      · exact .inr ⟨_, _, hs, ih.mpr (.inl hr)⟩
      · obtain ⟨out₂, t₂, out₃, hs, hrest, rfl⟩ := run_cons_ok.mp hr
        exact .inr ⟨_, _, hs, ih.mpr (.inr ⟨_, _, hrest, hm⟩)⟩

theorem run_singleton_ok {i : Interceptor σ} {t t' : Tunnel σ} {r : Read} {out : Output} :
    t.run i [r] = .ok (out, t') ↔ t.step i r = .ok (out, t') := by
  rw [run_cons_ok]
  constructor
  · rintro ⟨out₁, t₁, out₂, hs, hr, rfl⟩
    cases hr
    rw [hs, Output.append_none]
  · exact fun hs => ⟨out, t', .none, hs, rfl, (Output.append_none out).symm⟩

theorem run_singleton_error {i : Interceptor σ} {t : Tunnel σ} {r : Read} {crash : Crash} :
    t.run i [r] = .error crash ↔ t.step i r = .error crash := by
  rw [run_cons_error]
  exact ⟨fun h => h.resolve_right (fun ⟨_, _, _, hr⟩ => nomatch hr), .inl⟩

/-- A run breaks down at one of its reads, and up to it goes on. -/
theorem run_eq_error_iff {i : Interceptor σ} {t : Tunnel σ} {reads : List Read} {crash : Crash} :
    t.run i reads = .error crash ↔
      ∃ before r after out t', reads = before ++ r :: after ∧ t.run i before = .ok (out, t') ∧
        t'.step i r = .error crash := by
  constructor
  · intro h
    induction reads generalizing t with
    | nil => cases h
    | cons r rest ih =>
      rcases run_cons_error.mp h with hs | ⟨out, t₁, hs, hrest⟩
      · exact ⟨[], r, rest, .none, t, rfl, rfl, hs⟩
      · obtain ⟨before, r', after, out', t', rfl, hbefore, hs'⟩ := ih hrest
        exact ⟨r :: before, r', after, out ++ out', t', rfl,
          run_cons_ok.mpr ⟨out, t₁, out', hs, hbefore, rfl⟩, hs'⟩
  · rintro ⟨before, r, after, out, t', rfl, hbefore, hs⟩
    exact run_append_error.mpr (.inr ⟨out, t', hbefore, run_cons_error.mpr (.inl hs)⟩)

end Wiretap.Tunnel
