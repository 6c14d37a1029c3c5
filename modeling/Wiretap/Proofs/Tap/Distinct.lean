import Wiretap.Proofs.Tap.Backlog

/-!
# The list of calls

However texts grow, shrink or start again, and whichever are passed over, each list of calls that
is reported holds the first of all calls that are the same, in the order of their frames, and the
lists only grow (`responses_function`). Calls whose numbers are whole are the same only if they
are equal.
-/

namespace Wiretap.Tap.Stream

theorem length_pendings (n : Nat) (texts : List Bytes) :
    (pendings n texts).length = texts.length := by
  induction texts generalizing n with
  | nil => rfl
  | cons text later ih => rw [pendings, List.length_cons, List.length_cons, ih]

theorem length_responses (s : Stream) (bodies : List (Bytes × Http.Headers)) :
    (s.responses bodies).length = bodies.length := by
  induction bodies generalizing s with
  | nil => rfl
  | cons first later ih => rw [responses, List.length_cons, List.length_cons, ih]

theorem exists_pending {s : Stream} {bodies : List (Bytes × Http.Headers)} {k : Nat}
    {r : Except Error Report} (h : (s.responses bodies)[k]? = some r) (n : Nat) :
    ∃ pending, (pendings n (texts bodies))[k]? = some pending := by
  obtain ⟨hk, -⟩ := List.getElem?_eq_some_iff.mp h
  rw [length_responses] at hk
  exact ⟨_, List.getElem?_eq_getElem (by rwa [length_pendings, texts, List.length_map])⟩

/-- The calls in all parts that were not passed over, up to the `k`-th. -/
def seen (bodies : List (Bytes × Http.Headers)) (k : Nat) : List FunctionCall :=
  ((pendings 0 (texts bodies)).take (k + 1)).flatMap heard

theorem seen_prefix (bodies : List (Bytes × Http.Headers)) {j k : Nat} (h : j ≤ k) :
    seen bodies j <+: seen bodies k := by
  obtain ⟨t, ht⟩ := List.take_prefix_take_left (l := pendings 0 (texts bodies))
    (Nat.succ_le_succ h)
  exact ⟨t.flatMap heard, by rw [seen, seen, ← ht, List.flatMap_append]⟩

theorem ofBytes_of_mem_seen {bodies : List (Bytes × Http.Headers)} {k : Nat} {call : FunctionCall}
    (h : call ∈ seen bodies k) : ∃ frame, Finding.ofBytes frame = .call call := by
  obtain ⟨pending, -, hheard⟩ := List.mem_flatMap.mp h
  unfold heard at hheard
  split at hheard
  · cases hheard
  · obtain ⟨finding, hfinding, hcall⟩ := List.mem_filterMap.mp hheard
    obtain ⟨frame, -, rfl⟩ := List.mem_map.mp hfinding
    exact ⟨frame, Finding.call?_eq_some_iff.mp hcall⟩

/-- The calls that are reported are those that were seen, one after another. -/
theorem function_eq {s : Stream} {bodies : List (Bytes × Http.Headers)} {k : Nat} {report : Report}
    (h : (s.reset.responses bodies)[k]? = some (.ok report)) :
    report.function = (seen bodies k).foldl addCall [] := by
  obtain ⟨pending, hpending⟩ := exists_pending h 0
  obtain ⟨done, hresponse⟩ := getElem?_responses s.reset hpending
  rw [h, answer] at hresponse
  split at hresponse
  · cases hresponse
  · cases hresponse
    rw [seen, List.take_add_one, hpending, List.flatMap_append, List.foldl_append,
      Option.toList_some, List.flatMap_singleton]
    rfl

theorem responses_function (s : Stream) (bodies : List (Bytes × Http.Headers)) :
    (∀ k report, (s.reset.responses bodies)[k]? = some (.ok report) →
      report.function = (seen bodies k).eraseDupsBy FunctionCall.same ∧
      (report.function.Pairwise fun a b => a.same b = false) ∧
      (∀ call ∈ seen bodies k, ∃ kept ∈ report.function, call.same kept = true) ∧
      ∀ j later, k ≤ j → (s.reset.responses bodies)[j]? = some (.ok later) →
        report.function <+: later.function) ∧
    ∀ k, ∀ a ∈ seen bodies k, a.params.Ordered ∧
      ∀ b ∈ seen bodies k, a.params.Numbers Json.Number.Whole →
        b.params.Numbers Json.Number.Whole →
        (a.same b = true ↔ a.name = b.name ∧ a.params = b.params) := by
  refine ⟨fun k report h => ?_, fun k a ha => ?_⟩
  · have hfunction := function_eq h
    refine ⟨hfunction.trans (foldl_addCall _), ?_, ?_, fun j later hle hlater => ?_⟩
    · rw [hfunction]
      exact pairwise_foldl_addCall List.Pairwise.nil _
    · rw [hfunction]
      exact fun call hcall => exists_same_of_mem hcall
    · obtain ⟨t, ht⟩ := seen_prefix bodies hle
      rw [hfunction, function_eq hlater, ← ht, List.foldl_append]
      exact prefix_foldl_addCall _ t
  · obtain ⟨frame, hframe⟩ := ofBytes_of_mem_seen ha
    refine ⟨ordered_ofBytes hframe, fun b hb hwhole hwhole' => ?_⟩
    obtain ⟨frame', hframe'⟩ := ofBytes_of_mem_seen hb
    rw [same_iff (legible_ofBytes hframe hwhole) (legible_ofBytes hframe' hwhole')]
    constructor
    · rintro rfl
      exact ⟨rfl, rfl⟩
    · obtain ⟨name, params⟩ := a
      obtain ⟨name', params'⟩ := b
      rintro ⟨rfl, rfl⟩
      rfl

/-- A text that starts again, with another call. -/
theorem responses_function_restarted :
    let frame (name : String) := Utf8.encode
      ("[[[null,null,null,null,null,null,null,null,null,null,[\"" ++ name ++
        "\",[[\"x\",[null,1]]]]]],\"model\"]")
    let bodies := [(frame "f" ++ frame "g", ⟨[]⟩), (frame "h", ⟨[]⟩)]
    ∃ first second, ((fresh false false).reset.responses bodies)[0]? = some (.ok first) ∧
      ((fresh false false).reset.responses bodies)[1]? = some (.ok second) ∧
      first.function <+: second.function ∧
      second.function.map FunctionCall.name = ["f", "g", "h"] := by
  intro frame bodies
  obtain ⟨done, hfirst⟩ := getElem?_responses (fresh false false).reset
    (show (pendings 0 (texts bodies))[0]? = some (frame "f" ++ frame "g") by decide +kernel)
  obtain ⟨done', hsecond⟩ := getElem?_responses (fresh false false).reset
    (show (pendings 0 (texts bodies))[1]? = some (frame "h") by decide +kernel)
  rw [answer, if_neg (by decide +kernel)] at hfirst hsecond
  obtain ⟨hlists, -⟩ := responses_function (fresh false false) bodies
  obtain ⟨-, -, -, hgrow⟩ := hlists 0 _ hfirst
  obtain ⟨hcalls, -⟩ := hlists 1 _ hsecond
  have hnames : ((seen bodies 1).eraseDupsBy FunctionCall.same).map FunctionCall.name =
      ["f", "g", "h"] := by decide +kernel
  exact ⟨_, _, hfirst, hsecond, hgrow 1 _ (Nat.zero_le 1) hsecond,
    (congrArg _ hcalls).trans hnames⟩

end Wiretap.Tap.Stream
