import Wiretap.Proofs.Json.Parsed
import Wiretap.Tap.Stream

/-!
# Calls that are made once

Of calls that are the same the first one is kept (`foldl_addCall`). Two calls are the same if their
names are and the texts of their arguments, which for arguments whose numbers are read back means
that the calls are equal (`same_iff`); decoding leaves the numbers as they are
(`legible_arguments`).
-/

namespace Wiretap

namespace Tap

/-! ## What arguments are made of -/

section

variable {P : Json → Prop}

mutual

theorem closed_params (h : Json.Closed P) (levels : Nat) {args : Json} (hargs : P args) :
    P (.obj (params levels args)) := by
  unfold params
  split
  · split
    · exact h.obj
    · exact closed_paramsIn h levels (h.arr.mp hargs)
  · exact h.obj

theorem closed_paramsIn (h : Json.Closed P) (levels : Nat) : ∀ {items : List Json},
    (∀ v ∈ items, P v) → P (.obj (paramsIn levels items))
  | [], _ => by
    rw [paramsIn]
    exact h.obj
  | first :: rest, hitems => by
    rw [paramsIn]
    split
    · exact closed_paramList h h.obj hitems
    · exact closed_params h _ (hitems first List.mem_cons_self)

theorem closed_paramList (h : Json.Closed P) {acc : Json.Members} {pairs : List Json}
    (hacc : P (.obj acc)) (hpairs : ∀ v ∈ pairs, P v) : P (.obj (paramList acc pairs)) := by
  unfold paramList
  split
  · exact hacc
  · rw [List.forall_mem_cons] at hpairs
    have hpair := h.arr.mp hpairs.1
    exact closed_paramList h (h.insert (closed_typed h (hpair _ (by simp))) hacc) hpairs.2
  · rw [List.forall_mem_cons] at hpairs
    exact closed_paramList h hacc hpairs.2

theorem closed_typed (h : Json.Closed P) {v : Json} (hv : P v) : P (typed v) := by
  unfold typed
  split
  · exact h.null
  · exact h.arr.mp hv _ (by simp)
  · exact h.arr.mp hv _ (by simp)
  · exact h.bool _
  · exact closed_params h _ (h.arr.mp hv _ (by simp))
  · exact h.arr.mpr (closed_arrayItems h (h.arr.mp (h.arr.mp hv _ (by simp))))
  · exact h.arr.mpr (List.forall_mem_nil _)
  · exact hv

theorem closed_arrayItems (h : Json.Closed P) {items : List Json} (hitems : ∀ v ∈ items, P v) :
    ∀ v ∈ arrayItems items, P v := by
  unfold arrayItems
  split
  · exact List.forall_mem_nil _
  · rw [List.forall_mem_cons] at hitems ⊢
    exact ⟨closed_arrayItem h hitems.1, closed_arrayItems h hitems.2⟩

theorem closed_arrayItem (h : Json.Closed P) : ∀ {v : Json}, P v → P (arrayItem v)
  | .arr items, hv => by
    have hitems := h.arr.mp hv
    unfold arrayItem
    split
    · exact closed_paramList h h.obj hitems
    split
    · exact h.null
    · split
      · exact closed_arrayItem h (hitems _ (by simp))
      · exact h.null
    · split
      · exact closed_arrayItem h (hitems _ (by simp))
      · exact hitems _ (by simp)
    · split
      · exact closed_arrayItem h (hitems _ (by simp))
      · exact hitems _ (by simp)
    · split
      · exact closed_arrayItem h (hitems _ (by simp))
      · exact h.bool _
    · exact closed_params h _ (hitems _ (by simp))
    · exact h.arr.mpr (closed_arrayItems h (h.arr.mp (hitems _ (by simp))))
    · exact h.arr.mpr (List.forall_mem_nil _)
    · split
      · exact closed_arrayItem h (hitems _ (by simp))
      · exact hv
  | .null, hv | .bool _, hv | .num _, hv | .str _, hv | .obj _, hv => by
    unfold arrayItem
    exact hv

end

theorem closed_arguments (h : Json.Closed P) {args : Json} (hargs : P args) :
    P (.obj (arguments args)) :=
  closed_params h maxLevels hargs

theorem closed_ofCall (h : Json.Closed P) {items : List Json} (hitems : ∀ v ∈ items, P v)
    {call : FunctionCall} (hcall : Finding.ofCall items = .call call) : P call.params := by
  unfold Finding.ofCall at hcall
  split at hcall
  · rename_i name rest
    cases hcall
    refine closed_arguments h ?_
    cases rest with
    | nil => exact h.null
    | cons args rest => exact hitems args (by simp)
  · cases hcall

theorem closed_ofPayload (h : Json.Closed P) {payload : List Json} (hpayload : ∀ v ∈ payload, P v)
    {call : FunctionCall} (hcall : Finding.ofPayload payload = .call call) : P call.params := by
  have htext {v : Json} {f : String → Finding} (hf : ∀ s, f s ≠ .call call) :
      Finding.ofText v f ≠ .call call := by
    unfold Finding.ofText
    split
    · exact hf _
    · nofun
  unfold Finding.ofPayload at hcall
  split at hcall
  · exact absurd hcall (htext nofun)
  · exact closed_ofCall h (h.arr.mp (hpayload _ (by simp))) hcall
  · exact absurd hcall (htext nofun)
  · cases hcall

/-- A property of all that is parsed is one of the arguments of all calls. -/
theorem closed_ofBytes (h : Json.Closed P)
    (hparse : ∀ {s : List Char} {v : Json}, Json.parseChars s = some v → P v) {frame : Bytes}
    {call : FunctionCall} (hcall : Finding.ofBytes frame = .call call) : P call.params := by
  have hitem {v w : Json} {i : Nat} (hv : P v) (hw : v.item? i = some w) : P w := by
    unfold Json.item? at hw
    split at hw
    · exact h.arr.mp hv w (List.mem_of_getElem? hw)
    · cases hw
  unfold Finding.ofBytes at hcall
  split at hcall
  · rename_i v hv
    obtain ⟨cs, -, hparsed⟩ := Option.bind_eq_some_iff.mp hv
    unfold Finding.ofFrame at hcall
    split at hcall
    · rename_i payload hitems
      obtain ⟨w, hw, hpayload⟩ := Option.bind_eq_some_iff.mp hitems
      exact closed_ofPayload h (h.arr.mp (hitem (hitem (hparse hparsed) hw) hpayload)) hcall
    · cases hcall
  · cases hcall

end

theorem legible_arguments {args : Json} (h : args.Legible) : Json.LegibleMembers (arguments args) :=
  closed_arguments Json.closed_legible h

/-! ## First calls -/

theorem same_iff_chars {a b : FunctionCall} :
    a.same b = true ↔ a.name = b.name ∧ a.params.chars = b.params.chars := by
  rw [FunctionCall.same, Bool.and_eq_true, beq_iff_eq, beq_iff_eq]

theorem same_iff {a b : FunctionCall} (ha : a.params.Legible) (hb : b.params.Legible) :
    a.same b = true ↔ a = b := by
  rw [same_iff_chars]
  constructor
  · rintro ⟨hname, hparams⟩
    cases a
    cases b
    cases hname
    cases Json.chars_inj ha hb hparams
    rfl
  · rintro rfl
    exact ⟨rfl, rfl⟩

theorem ordered_ofBytes {frame : Bytes} {call : FunctionCall}
    (h : Finding.ofBytes frame = .call call) : call.params.Ordered :=
  closed_ofBytes Json.closed_ordered Json.ordered_parseChars h

/-- Whole numbers that are parsed are read back. -/
theorem legible_ofBytes {frame : Bytes} {call : FunctionCall}
    (h : Finding.ofBytes frame = .call call) (hwhole : call.params.Numbers Json.Number.Whole) :
    call.params.Legible :=
  ((hwhole.and (closed_ofBytes (Json.closed_numbers _) Json.sized_parseChars h)).imp
    fun _ hn => hn.1.legible hn.2).legible

theorem same_refl (a : FunctionCall) : a.same a = true := same_iff_chars.mpr ⟨rfl, rfl⟩

theorem same_comm (a b : FunctionCall) : a.same b = b.same a := by
  rw [Bool.eq_iff_iff, same_iff_chars, same_iff_chars, eq_comm, @eq_comm _ a.params.chars]

/-- A call is added unless one that is the same is known, and then one is. -/
theorem addCall_cases (known : List FunctionCall) (call : FunctionCall) :
    (∃ kept ∈ known, call.same kept = true) ∧ addCall known call = known ∨
      (∀ kept ∈ known, call.same kept = false) ∧ addCall known call = known ++ [call] := by
  unfold addCall
  split
  · rename_i h
    exact .inl ⟨List.any_eq_true.mp h, rfl⟩
  · rename_i h
    have hnone := List.any_eq_false.mp (Bool.eq_false_iff.mpr h)
    exact .inr ⟨fun kept hkept => Bool.eq_false_iff.mpr (hnone kept hkept), rfl⟩

theorem prefix_foldl_addCall (known later : List FunctionCall) :
    known <+: later.foldl addCall known := by
  induction later generalizing known with
  | nil => exact List.prefix_rfl
  | cons call later ih =>
    refine List.IsPrefix.trans ?_ (ih (addCall known call))
    rcases addCall_cases known call with ⟨-, heq⟩ | ⟨-, heq⟩
    · exact ⟨[], (List.append_nil known).trans heq.symm⟩
    · rw [heq]
      exact List.prefix_append known [call]

/-- Of every call that is added one that is the same is known from then on. -/
theorem exists_same_of_mem {known later : List FunctionCall} {call : FunctionCall}
    (h : call ∈ later) : ∃ kept ∈ later.foldl addCall known, call.same kept = true := by
  obtain ⟨before, behind, rfl⟩ := List.append_of_mem h
  rw [List.foldl_append, List.foldl_cons]
  generalize before.foldl addCall known = known
  have hkept : ∃ kept ∈ addCall known call, call.same kept = true := by
    rcases addCall_cases known call with ⟨hsame, heq⟩ | ⟨-, heq⟩
    · rwa [heq]
    · exact ⟨call, by rw [heq]; simp, same_refl call⟩
  obtain ⟨kept, hmem, hsame⟩ := hkept
  exact ⟨kept, (prefix_foldl_addCall _ behind).subset hmem, hsame⟩

/-- No call is known twice. -/
theorem pairwise_foldl_addCall {known : List FunctionCall}
    (h : known.Pairwise fun a b => a.same b = false) (later : List FunctionCall) :
    (later.foldl addCall known).Pairwise fun a b => a.same b = false := by
  induction later generalizing known with
  | nil => exact h
  | cons call later ih =>
    refine ih ?_
    rcases addCall_cases known call with ⟨-, heq⟩ | ⟨hnew, heq⟩
    · rwa [heq]
    · rw [heq]
      refine List.pairwise_append.mpr ⟨h, List.pairwise_singleton _ _, fun a ha b hb => ?_⟩
      rw [List.mem_singleton.mp hb, same_comm]
      exact hnew a ha

/-- Calls that are added one after another. -/
theorem foldl_addCall (calls : List FunctionCall) :
    calls.foldl addCall [] = calls.eraseDupsBy FunctionCall.same := by
  have hloop (later known : List FunctionCall) :
      later.foldl addCall known = List.eraseDupsBy.loop FunctionCall.same later known.reverse := by
    induction later generalizing known with
    | nil => rw [List.eraseDupsBy.loop, List.reverse_reverse, List.foldl_nil]
    | cons call later ih =>
      rw [List.eraseDupsBy.loop, List.foldl_cons, ih, List.any_reverse, addCall]
      cases known.any (FunctionCall.same call) with
      | true => rfl
      | false => rw [if_neg (by decide), List.reverse_append]; rfl
  exact hloop calls []

end Tap

end Wiretap
