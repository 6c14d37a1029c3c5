import Wiretap.Proofs.Text.Ascii
import Wiretap.Proofs.Tunnel.Asking

/-!
# Requests in pieces

Every read from the client is looked at by itself, whatever came before it. So a request
whose head comes in pieces is recognised exactly if its last piece would be as a request
of its own, which it is not once the path has begun before (`run_cut_head`). And what
comes behind a head is left alone exactly as long as nothing in it looks like a request
(`run_continued`).
-/

namespace Wiretap

namespace Http

/-- A request line holds two spaces. -/
theorem IsRequestLine.count_space {line : Bytes} {path : String} (h : IsRequestLine line path) :
    line.count Bytes.space = 2 := by
  obtain ⟨method, version, hmethod, hpath, hversion, hdecode⟩ := h
  rw [Utf8.count_decode? (by decide) (by decide) hdecode,
    show Char.ofNat Bytes.space.toNat = ' ' from rfl]
  simp [List.count_eq_zero_of_not_mem, *]

theorem count_space_chomp (line : Bytes) :
    (Bytes.chomp line).count Bytes.space = line.count Bytes.space := by
  unfold Bytes.chomp
  split
  · rename_i b hb
    split
    · rename_i hcr
      obtain ⟨front, rfl⟩ := List.getLast?_eq_some_iff.mp hb
      rw [List.dropLast_concat, List.count_append, List.count_singleton, hcr,
        if_neg (by decide), Nat.add_zero]
    · rfl
  · rfl

/-- A request whose first space stands in what came before is none. -/
theorem not_asks_of_cut {sent piece : Bytes} {path : String} (h : Asks (sent ++ piece) path)
    (hspace : Bytes.space ∈ sent) (hlf : Bytes.lf ∉ sent) (other : String) :
    ¬ Asks piece other := by
  intro ho
  have hwhole := h.line.count_space
  have hpiece := ho.line.count_space
  rw [firstLine, count_space_chomp] at hwhole hpiece
  rw [List.takeWhile_append_of_pos fun b hb => bne_iff_ne.mpr (ne_of_mem_of_not_mem hb hlf),
    List.count_append, hpiece] at hwhole
  have hpos := List.count_pos_iff.mpr hspace
  omega

/-- No head ends before its last byte. -/
theorem headless_front {front piece : Bytes}
    (ends : headerEnd (front ++ piece) = some (front ++ piece).length) (h : piece ≠ []) :
    ¬ headerTerminator <:+: front := by
  have hpos := List.length_pos_iff.mpr h
  have hshort : ¬ (front ++ piece).length ≤ front.length := by
    rw [List.length_append]
    omega
  rw [← isSome_headerEnd_iff, headerEnd_of_isPrefix (List.prefix_append front piece) ends,
    if_neg hshort]
  exact Bool.false_ne_true

end Http

namespace Tunnel

variable {σ : Type}

namespace Exchange

/-- What an interceptor has been called for, but for what it was shown of responses. -/
def asked (e : Exchange (σ × List Call)) : List Call := e.state.2.filter (!·.isResponse)

/-- How often it has been reset. -/
def resets (e : Exchange (σ × List Call)) : Nat := e.asked.count .reset

/-- All that a request sets is as it was, and the interceptor has not been called for one. -/
structure SameTap (e e' : Exchange (σ × List Call)) : Prop where
  markers : e'.markers = e.markers
  tapping : e'.tapping = e.tapping
  requested : e'.requested = e.requested
  asked : e'.asked = e.asked

theorem SameTap.refl (e : Exchange (σ × List Call)) : SameTap e e := ⟨rfl, rfl, rfl, rfl⟩

theorem SameTap.trans {a b c : Exchange (σ × List Call)} (h : SameTap a b) (h' : SameTap b c) :
    SameTap a c :=
  ⟨h'.markers.trans h.markers, h'.tapping.trans h.tapping, h'.requested.trans h.requested,
    h'.asked.trans h.asked⟩

theorem SameTap.resets {e e' : Exchange (σ × List Call)} (h : SameTap e e') :
    e'.resets = e.resets := by
  rw [Exchange.resets, h.asked, Exchange.resets]

/-- A read from the origin sets nothing that a request sets. -/
theorem sameTap_of_fromOrigin {i : Interceptor σ} {e e' : Exchange (σ × List Call)}
    {chunk : Bytes} {published : List Envelope}
    (h : e.fromOrigin i.logged chunk = .ok (published, e')) : SameTap e e' := by
  obtain ⟨state, response, rfl, hstate⟩ := fromOrigin_frame h
  refine ⟨rfl, rfl, rfl, ?_⟩
  rcases hstate with rfl | ⟨body, headers, rfl⟩
  · rfl
  · simp [asked, Interceptor.logged, Call.isResponse]

/-- A read from the client is left alone exactly if it holds no request, or one that is not to be
tapped while the last one was not tapped either. -/
theorem fromClient_logged_eq_self_iff {i : Interceptor σ} {e : Exchange (σ × List Call)}
    {now : Number.Double} {chunk : Bytes} :
    e.fromClient i.logged now chunk = (chunk, e) ↔
      ∀ path, Http.Asks chunk path → ¬ Http.Marked e.markers path ∧ e.tapping = false := by
  cases hpath : Http.pathIn chunk with
  | none =>
    have hasks := Http.pathIn_eq_none_iff.mp hpath
    rw [fromClient_of_none _ e now hpath]
    exact ⟨fun _ path hask => absurd hask (hasks path), fun _ => rfl⟩
  | some path =>
    have hask := Http.pathIn_eq_some_iff.mp hpath
    have hall : (∀ path, Http.Asks chunk path →
        ¬ Http.Marked e.markers path ∧ e.tapping = false) ↔
        ¬ Http.Marked e.markers path ∧ e.tapping = false :=
      ⟨fun h => h path hask, fun h other ho => hask.unique ho ▸ h⟩
    rw [hall, ← Http.hasMarker_iff, Bool.not_eq_true]
    cases hm : Http.hasMarker e.markers path with
    | false =>
      rw [fromClient_of_other _ e now hpath hm, Prod.mk.injEq]
      refine ⟨fun h => ⟨rfl, (congrArg tapping h.2).symm⟩, fun h => ⟨rfl, ?_⟩⟩
      rw [← h.2]
    | true =>
      obtain ⟨n, -, heq⟩ := fromClient_of_tapped i.logged e now hpath hm
      rw [heq]
      -- its calls are in the list
      refine ⟨fun h => ?_, fun h => nomatch h.1⟩
      have hlog := congrArg (fun result => result.2.state.2.length) h
      simp [Interceptor.logged] at hlog

/-- A request that is to be tapped resets the interceptor once, and no other read from the client
does. -/
theorem resets_fromClient (i : Interceptor σ) (e : Exchange (σ × List Call)) {r : Read}
    (hr : r.side = .client) :
    (r.Taps e.markers → (e.fromClient i.logged r.time r.bytes).2.tapping = true ∧
        (e.fromClient i.logged r.time r.bytes).2.resets = e.resets + 1) ∧
      (¬ r.Taps e.markers → (e.fromClient i.logged r.time r.bytes).2.resets = e.resets) := by
  constructor
  · rintro ⟨-, path, hpath, hm⟩
    obtain ⟨n, -, heq⟩ := fromClient_of_tapped i.logged e r.time hpath hm
    rw [heq]
    refine ⟨rfl, ?_⟩
    simp [resets, asked, Interceptor.logged, Call.isResponse]
  · intro htaps
    cases hpath : Http.pathIn r.bytes with
    | none => rw [fromClient_of_none _ e r.time hpath]
    | some path =>
      cases hm : Http.hasMarker e.markers path with
      | false => rw [fromClient_of_other _ e r.time hpath hm]; rfl
      | true => exact absurd ⟨hr, path, hpath, hm⟩ htaps

end Exchange

open Exchange (SameTap)

variable {i : Interceptor σ} {clock now : Clock} {e e' : Exchange (σ × List Call)}
  {reads : List Read} {out : Output}

/-- Reads that are left alone. -/
theorem run_sameTap
    (h : (⟨clock, .tapped e⟩ : Tunnel (σ × List Call)).run i.logged reads =
      .ok (out, ⟨now, .tapped e'⟩))
    (hreads : ∀ r ∈ reads, ∀ path, r.Asks path →
      ¬ Http.Marked e.markers path ∧ e.tapping = false) : SameTap e e' := by
  induction reads generalizing clock e out with
  | nil => cases h; exact .refl _
  | cons r rest ih =>
    obtain ⟨out₁, t₁, out₂, hs, hr, rfl⟩ := run_cons_ok.mp h
    obtain ⟨d, e₁, -, hpass, rfl⟩ := step_tapped_ok.mp hs
    have hsame : SameTap e e₁ := by
      cases hpass with
      | client side =>
        rw [Exchange.fromClient_logged_eq_self_iff.mpr fun path hask =>
          hreads r List.mem_cons_self path ⟨side, hask⟩]
        exact .refl e
      | origin side observed => exact Exchange.sameTap_of_fromOrigin observed
    refine hsame.trans (ih hr fun r' hr' path hask => ?_)
    rw [hsame.markers, hsame.tapping]
    exact hreads r' (List.mem_cons_of_mem r hr') path hask

/-! ## Cut in its head -/

theorem infix_bytesFrom {side : Side} {r : Read} (hr : r ∈ reads) (hside : r.side = side) :
    r.bytes <:+: bytesFrom side reads := by
  obtain ⟨before, after, rfl⟩ := List.append_of_mem hr
  rw [bytesFrom_append, ← List.singleton_append, bytesFrom_append, bytesFrom_singleton hside]
  exact ⟨_, _, List.append_assoc _ _ _⟩

/-- The read with which the bytes of one side end. -/
theorem exists_last_read {side : Side} (h : bytesFrom side reads ≠ []) :
    ∃ before r after, reads = before ++ r :: after ∧ r.side = side ∧ r.bytes ≠ [] ∧
      bytesFrom side before ++ r.bytes = bytesFrom side reads ∧ bytesFrom side after = [] := by
  induction reads using List.reverseRecOn with
  | nil => exact absurd rfl h
  | append_singleton reads r ih =>
    by_cases hr : bytesFrom side [r] = []
    · rw [bytesFrom_append, hr, List.append_nil] at h ⊢
      obtain ⟨before, last, after, rfl, hside, hne, hbytes, hafter⟩ := ih h
      refine ⟨before, last, after ++ [r], by simp, hside, hne, hbytes, ?_⟩
      rw [bytesFrom_append, hafter, hr, List.append_nil]
    · have hside : r.side = side := by
        by_contra hne
        exact hr (bytesFrom_singleton_ne hne)
      rw [bytesFrom_singleton hside] at hr
      exact ⟨reads, r, [], rfl, hside, hr, by rw [bytesFrom_append, bytesFrom_singleton hside], rfl⟩

/-- No read holds a request while the bytes of the client hold no end of a head. -/
theorem not_asks_of_headless (h : ¬ Http.headerTerminator <:+: bytesFrom .client reads) :
    ∀ r ∈ reads, ∀ path, ¬ r.Asks path :=
  fun _ hr _ hask => h (hask.2.terminated.trans (infix_bytesFrom hr hask.1))

/-- A tapped request whose head comes in pieces is recognised, with one reset, exactly if its last
piece is a tapped request itself. The whole head is; what is left of it is none once its first
space, the one before the path, has come in an earlier piece, as long as its first line has not
ended there. -/
theorem run_cut_head {head : Bytes} {path : String}
    (ends : Http.headerEnd head = some head.length) (asks : Http.Asks head path)
    (marked : Http.Marked e.markers path) (hreads : bytesFrom .client reads = head)
    (h : (⟨clock, .tapped e⟩ : Tunnel (σ × List Call)).run i.logged reads =
      .ok (out, ⟨now, .tapped e'⟩)) :
    ∃ before last after, reads = before ++ last :: after ∧ last.side = .client ∧
      last.bytes ≠ [] ∧ bytesFrom .client before ++ last.bytes = head ∧
      (e'.tapping = true ∧ e'.resets = e.resets + 1 ↔ last.Taps e.markers) ∧
      (¬ last.Taps e.markers → e'.resets = e.resets) ∧
      (bytesFrom .client before = [] → last.Taps e.markers) ∧
      (Bytes.space ∈ bytesFrom .client before → Bytes.lf ∉ bytesFrom .client before →
        ¬ last.Taps e.markers) := by
  have hne : bytesFrom .client reads ≠ [] := by
    rintro hnil
    rw [← hreads, hnil] at ends
    cases ends
  obtain ⟨before, last, after, rfl, hside, hlast, hbytes, hafter⟩ := exists_last_read hne
  rw [hreads] at hbytes
  have hheadless : ¬ Http.headerTerminator <:+: bytesFrom .client before :=
    Http.headless_front (hbytes ▸ ends) hlast
  have hempty : ¬ Http.headerTerminator <:+: bytesFrom .client after := by
    rw [hafter]
    decide
  obtain ⟨out₁, t₁, out₂, hrun₁, hrun, -⟩ := run_append_ok.mp h
  obtain ⟨now₁, e₁, rfl⟩ := exists_of_run_tapped hrun₁
  obtain ⟨told, t₂, out₃, hstep, hrun₂, -⟩ := run_cons_ok.mp hrun
  obtain ⟨d, e₂, -, hpass, rfl⟩ := step_tapped_ok.mp hstep
  -- only the last piece can hold a request
  have hsame₁ := run_sameTap hrun₁ fun r hr path hask =>
    absurd hask (not_asks_of_headless hheadless r hr path)
  have hsame₂ := run_sameTap hrun₂ fun r hr path hask =>
    absurd hask (not_asks_of_headless hempty r hr path)
  cases hpass with
  | origin side => cases hside.symm.trans side
  | client =>
    obtain ⟨htaps, hother⟩ := Exchange.resets_fromClient i e₁ hside
    rw [hsame₁.markers, hsame₁.resets, ← hsame₂.resets] at htaps hother
    rw [← hsame₂.tapping] at htaps
    refine ⟨before, last, after, rfl, hside, hlast, hbytes, ⟨fun hrecognised => ?_, htaps⟩,
      hother, fun hwhole => ?_, fun hspace hlf hcut => ?_⟩
    · by_contra hn
      have hresets := hrecognised.2
      rw [hother hn] at hresets
      omega
    · rw [hwhole, List.nil_append] at hbytes
      exact taps_iff.mpr ⟨path, ⟨hside, hbytes ▸ asks⟩, marked⟩
    · obtain ⟨other, hask, -⟩ := taps_iff.mp hcut
      exact Http.not_asks_of_cut (hbytes ▸ asks) hspace hlf other hask.2

/-- A request for `/ask`, cut in two. -/
def cutAsk (n : Nat) : List Read :=
  [{ ask with bytes := ask.bytes.take n }, { ask with bytes := ask.bytes.drop n }]

theorem asks_ask : ask.Asks "/ask" := ⟨rfl, Http.pathIn_eq_some_iff.mp (by decide +kernel)⟩

theorem marked_ask : Http.Marked ["/ask"] "/ask" := ⟨"/ask", List.mem_cons_self, List.infix_rfl⟩

/-- Cut in its method. -/
theorem run_cut_head_method :
    let i := Tap.Stream.interceptor false false
    let start : Exchange (Tap.Stream × List Call) := .fresh i.logged "localhost" ["/ask"]
    Http.headerEnd ask.bytes = some ask.bytes.length ∧ Http.Asks ask.bytes "/ask" ∧
    Http.Marked ["/ask"] "/ask" ∧ bytesFrom .client (cutAsk 2) = ask.bytes ∧
    ∃ out now e', (⟨⟨some 600, 0⟩, .tapped start⟩ : Tunnel (Tap.Stream × List Call)).run i.logged
        (cutAsk 2) = .ok (out, ⟨now, .tapped e'⟩) ∧
      ∃ before last after, cutAsk 2 = before ++ last :: after ∧ last.side = .client ∧
        last.bytes ≠ [] ∧ bytesFrom .client before ++ last.bytes = ask.bytes ∧
        (e'.tapping = true ∧ e'.resets = start.resets + 1 ↔ last.Taps ["/ask"]) ∧
        (¬ last.Taps ["/ask"] → e'.resets = start.resets) ∧
        (bytesFrom .client before = [] → last.Taps ["/ask"]) ∧
        (Bytes.space ∈ bytesFrom .client before → Bytes.lf ∉ bytesFrom .client before →
          ¬ last.Taps ["/ask"]) := by
  intro i start
  have hends : Http.headerEnd ask.bytes = some ask.bytes.length := by decide +kernel
  have hreads : bytesFrom .client (cutAsk 2) = ask.bytes := by decide +kernel
  obtain ⟨out, now, e', hrun⟩ := exists_of_isOk i.logged "localhost" ["/ask"] ⟨some 600, 0⟩
    (cutAsk 2) (by decide +kernel)
  exact ⟨hends, asks_ask.2, marked_ask, hreads, out, now, e', hrun,
    run_cut_head hends asks_ask.2 marked_ask hreads hrun⟩

/-- Whether a run leaves the connection tapping, and how often it has reset the interceptor. -/
def tapOf (result : Except Crash (Output × Tunnel (σ × List Call))) : Option (Bool × Nat) :=
  match result with
  | .ok (_, ⟨_, .tapped e⟩) => some (e.tapping, e.resets)
  | _ => none

/-- Cut in its path, it is not recognised. -/
theorem not_recognised_cutAsk :
    let i := (Tap.Stream.interceptor false false).logged
    Http.headerEnd ask.bytes = some ask.bytes.length ∧ Http.Asks ask.bytes "/ask" ∧
    Http.Marked ["/ask"] "/ask" ∧ bytesFrom .client (cutAsk 7) = ask.bytes ∧
    tapOf ((tappedTunnel i "localhost" ["/ask"] ⟨some 600, 0⟩).run i (cutAsk 7)) =
      some (false, 0) :=
  ⟨by decide +kernel, asks_ask.2, marked_ask, by decide +kernel, by decide +kernel⟩

/-! ## Cut in its body -/

namespace Exchange

/-- What a request for a path sets. -/
structure SetBy (e : Exchange (σ × List Call)) (time : Number.Double) (path : String)
    (e' : Exchange (σ × List Call)) : Prop where
  markers : e'.markers = e.markers
  tapping : e'.tapping = Http.hasMarker e.markers path
  requested : e'.requested = if Http.hasMarker e.markers path then time else e.requested

theorem SetBy.sameTap {e e₁ e₂ : Exchange (σ × List Call)} {time : Number.Double} {path : String}
    (h : e.SetBy time path e₁) (h' : SameTap e₁ e₂) : e.SetBy time path e₂ :=
  ⟨h'.markers.trans h.markers, h'.tapping.trans h.tapping, h'.requested.trans h.requested⟩

theorem setBy_fromClient (i : Interceptor σ) (e : Exchange (σ × List Call)) (now : Number.Double)
    {chunk : Bytes} {path : String} (h : Http.Asks chunk path) :
    e.SetBy now path (e.fromClient i.logged now chunk).2 := by
  have hpath := Http.pathIn_eq_some_iff.mpr h
  cases hm : Http.hasMarker e.markers path with
  | false =>
    rw [fromClient_of_other _ e now hpath hm]
    exact ⟨rfl, hm.symm, by rw [hm]; rfl⟩
  | true =>
    obtain ⟨n, -, heq⟩ := fromClient_of_tapped i.logged e now hpath hm
    rw [heq]
    exact ⟨rfl, hm.symm, by rw [hm]; rfl⟩

end Exchange

/-- Every read behind a request is sent on as it is, with no call of the interceptor and all that
the request has set as it was, exactly if none of them holds another request, or only ones that are
not to be tapped, and the request is not either. -/
theorem run_continued {asking : Read} {path : String} {rest : List Read} (asks : asking.Asks path)
    (h : (⟨clock, .tapped e⟩ : Tunnel (σ × List Call)).run i.logged (asking :: rest) =
      .ok (out, ⟨now, .tapped e'⟩)) :
    (∀ before r after, rest = before ++ r :: after → r.side = .client →
      ∃ told now₁ e₁, (⟨clock, .tapped e⟩ : Tunnel (σ × List Call)).run i.logged
          (asking :: before) = .ok (told, ⟨now₁, .tapped e₁⟩) ∧
        e₁.fromClient i.logged r.time r.bytes = (r.bytes, e₁) ∧
        e.SetBy asking.time path e₁) ↔
      ∀ r ∈ rest, ∀ other, r.Asks other →
        ¬ Http.Marked e.markers other ∧ ¬ Http.Marked e.markers path := by
  constructor
  · intro hleft r hr other hask
    obtain ⟨before, after, hsplit⟩ := List.append_of_mem hr
    obtain ⟨told, now₁, e₁, -, heq, hset⟩ := hleft before r after hsplit hask.1
    have halone := Exchange.fromClient_logged_eq_self_iff.mp heq other hask.2
    rw [hset.markers, hset.tapping, ← Bool.not_eq_true, Http.hasMarker_iff] at halone
    exact halone
  · rintro hrest before r after rfl hside
    obtain ⟨told, t₁, later, hrun, -, -⟩ := run_append_ok.mp (List.cons_append ▸ h)
    obtain ⟨now₁, e₁, rfl⟩ := exists_of_run_tapped hrun
    obtain ⟨first, t₀, second, hstep, hbefore, -⟩ := run_cons_ok.mp hrun
    obtain ⟨d, e₀, -, hpass, rfl⟩ := step_tapped_ok.mp hstep
    have hset : e.SetBy asking.time path e₀ := by
      cases hpass with
      | client side => exact Exchange.setBy_fromClient i e asking.time asks.2
      | origin side => cases asks.1.symm.trans side
    have halone : ∀ r' ∈ before ++ r :: after, ∀ other, r'.Asks other →
        ¬ Http.Marked e₀.markers other ∧ e₀.tapping = false := by
      intro r' hr' other hask
      rw [hset.markers, hset.tapping, ← Bool.not_eq_true, Http.hasMarker_iff]
      exact hrest r' hr' other hask
    have hsame := run_sameTap hbefore fun r' hr' => halone r' (List.mem_append_left _ hr')
    refine ⟨told, now₁, e₁, hrun, ?_, hset.sameTap hsame⟩
    rw [Exchange.fromClient_logged_eq_self_iff, hsame.markers, hsame.tapping]
    exact fun other hask => halone r (by simp) other ⟨hside, hask⟩

/-- A request for `/ask` with ten bytes of body to come. -/
def askTen : Read :=
  ⟨.client, Utf8.encode "POST /ask HTTP/1.1\r\nContent-Length: 10\r\n\r\n", 0, .zero⟩

def Read.ofBody (body : String) : Read := { askTen with bytes := Utf8.encode body }

theorem asks_askTen : askTen.Asks "/ask" := ⟨rfl, Http.pathIn_eq_some_iff.mp (by decide +kernel)⟩

/-- Ten bytes without the end of a head. -/
theorem run_continued_digits :
    let i := Tap.Stream.interceptor false false
    let start : Exchange (Tap.Stream × List Call) := .fresh i.logged "localhost" ["/ask"]
    let rest := [Read.ofBody "01234", .ofOrigin [], .ofBody "56789"]
    askTen.Asks "/ask" ∧
    ∃ out now e', (⟨⟨some 600, 0⟩, .tapped start⟩ : Tunnel (Tap.Stream × List Call)).run i.logged
        (askTen :: rest) = .ok (out, ⟨now, .tapped e'⟩) ∧
      ((∀ before r after, rest = before ++ r :: after → r.side = .client →
        ∃ told now₁ e₁, (⟨⟨some 600, 0⟩, .tapped start⟩ : Tunnel (Tap.Stream × List Call)).run
            i.logged (askTen :: before) = .ok (told, ⟨now₁, .tapped e₁⟩) ∧
          e₁.fromClient i.logged r.time r.bytes = (r.bytes, e₁) ∧
          start.SetBy askTen.time "/ask" e₁) ↔
        ∀ r ∈ rest, ∀ other, r.Asks other →
          ¬ Http.Marked ["/ask"] other ∧ ¬ Http.Marked ["/ask"] "/ask") ∧
      ∀ r ∈ rest, ∀ other, ¬ r.Asks other := by
  intro i start rest
  obtain ⟨out, now, e', hrun⟩ := exists_of_isOk i.logged "localhost" ["/ask"] ⟨some 600, 0⟩
    (askTen :: rest) (by decide +kernel)
  have hnone : ∀ r ∈ rest, ∀ other, ¬ r.Asks other := by
    intro r hr other hask
    have hpath : ∀ r ∈ rest, Http.pathIn r.bytes = none := by decide +kernel
    exact Http.pathIn_eq_none_iff.mp (hpath r hr) other hask.2
  exact ⟨asks_askTen, out, now, e', hrun, run_continued asks_askTen hrun, hnone⟩

/-- Ten bytes that end in CR LF CR LF, with two spaces in them: the connection stops tapping, or
taps them as a request. -/
theorem not_alone_askTen :
    let i := (Tap.Stream.interceptor false false).logged
    let tap (reads : List Read) :=
      tapOf ((tappedTunnel i "localhost" ["/ask"] ⟨some 600, 0⟩).run i reads)
    askTen.Asks "/ask" ∧ (Read.ofBody "a /b c\r\n\r\n").bytes.length = 10 ∧
    (Read.ofBody " /ask \r\n\r\n").bytes.length = 10 ∧ tap [askTen] = some (true, 1) ∧
    tap [askTen, .ofBody "a /b c\r\n\r\n"] = some (false, 1) ∧
    tap [askTen, .ofBody " /ask \r\n\r\n"] = some (true, 2) :=
  ⟨asks_askTen, by decide +kernel, by decide +kernel, by decide +kernel, by decide +kernel,
    by decide +kernel⟩

end Tunnel

end Wiretap
