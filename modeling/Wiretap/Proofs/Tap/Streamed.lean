import Wiretap.Proofs.Tap.Payloads

/-!
# What is reported of a text of frames

A stream that has been reset reports of a text that was put together of frames of payloads and of
other texts between them what the payloads say (`response_textOf`): the answer texts and the
reasoning texts one after another, and the calls that are asked for, each once. No frame is left
out, none is taken together with what stands beside it, and none is read twice. Only a number in
the arguments of a call may be another one, if it is not read back from its text.
-/

namespace Wiretap.Tap.Stream

open Payload

/-! ## Texts of frames -/

/-- A text, and then frames of payloads, each with the text behind it. -/
def textOf (first : Bytes) (parts : List (Payload × Bytes)) : Bytes :=
  woven first (parts.map (Prod.map Payload.bytes id))

section

variable {first : Bytes} {parts : List (Payload × Bytes)}

theorem frames_textOf (hproper : ∀ part ∈ parts, part.1.Proper) (hfirst : ¬ opening <:+: first)
    (hbehind : ∀ part ∈ parts, ¬ opening <:+: part.2) :
    (scan (textOf first parts)).frames = (parts.map Prod.fst).map Payload.bytes := by
  rw [textOf, frames_woven ?_ hfirst ?_, List.map_map, List.map_map]
  · simp only [Function.comp_def, Prod.map_fst]
  · rw [List.forall_mem_map]
    intro part hpart
    rw [Prod.map_fst]
    exact (hproper part hpart).isFrame_bytes
  · rw [List.forall_mem_map]
    exact hbehind

theorem said_textOf (hproper : ∀ part ∈ parts, part.1.Proper) (hfirst : ¬ opening <:+: first)
    (hbehind : ∀ part ∈ parts, ¬ opening <:+: part.2) :
    said (textOf first parts) = gather [] ((parts.map Prod.fst).map Payload.bytes) := by
  rw [said, frames_textOf hproper hfirst hbehind]

end

/-- A stream that has been reset reports what all frames of a text say. -/
theorem response_reset (s : Stream) {body : Bytes} {headers : Http.Headers}
    (hfit : (content body headers).1.length ≤ maxBacklog) :
    ∃ report s', s.reset.response body headers = (.ok report, s') ∧
      report.reason = (said (content body headers).1).reason ∧
      report.body = (said (content body headers).1).body ∧
      report.function = (said (content body headers).1).calls := by
  obtain ⟨report, s', hresponse, hreported, hcalls, -⟩ :=
    reported_response (reported_reset s) (.inl List.nil_prefix) hfit
  refine ⟨report, s', hresponse, ?_, ?_, hcalls⟩
  · simpa using hreported.reason
  · simpa using hreported.body

theorem response_textOf (s : Stream) {body : Bytes} {headers : Http.Headers} {first : Bytes}
    {parts : List (Payload × Bytes)} (hproper : ∀ part ∈ parts, part.1.Proper)
    (hfirst : ¬ opening <:+: first) (hbehind : ∀ part ∈ parts, ¬ opening <:+: part.2)
    (htext : (content body headers).1 = textOf first parts)
    (hfit : (content body headers).1.length ≤ maxBacklog) :
    let payloads := parts.map Prod.fst
    let requests := payloads.filterMap request?
    (scan (content body headers).1).frames = payloads.map Payload.bytes ∧
    ∃ report s', s.reset.response body headers = (.ok report, s') ∧
      report.body = String.join (payloads.filterMap answer?) ∧
      report.reason = String.join (payloads.filterMap reasoning?) ∧
      report.function = (requests.map fun (name, args) => call (name, args.reread)).eraseDupsBy
        FunctionCall.same ∧
      ((∀ request ∈ requests, request.2.Legible) →
        report.function = (requests.map call).eraseDupsBy FunctionCall.same ∧
        ∀ a ∈ requests.map call, ∀ b ∈ requests.map call, a.same b = true ↔ a = b) := by
  intro payloads requests
  have hpayloads : ∀ p ∈ payloads, p.Proper := by
    rw [List.forall_mem_map]
    exact hproper
  obtain ⟨report, s', hresponse, hreason, hbody, hcalls⟩ := response_reset s hfit
  rw [htext, said_textOf hproper hfirst hbehind, gather_bytes hpayloads] at hreason hbody hcalls
  simp only at hreason hbody hcalls
  refine ⟨by rw [htext, frames_textOf hproper hfirst hbehind], report, s', hresponse, hbody, hreason,
    hcalls, fun hlegible => ⟨?_, ?_⟩⟩
  · refine hcalls.trans (congrArg _ (List.map_congr_left fun request hrequest => ?_))
    simp only [(hlegible request hrequest).reread_eq]
  · simp only [List.forall_mem_map]
    exact fun a ha b hb =>
      same_iff (legible_arguments (hlegible a ha)) (legible_arguments (hlegible b hb))

/-- A payload that asks for a call of `name` with one argument. -/
def asking (name : String) (args : Json) : Payload :=
  ⟨.null, [.null, .null, .null, .null, .null, .null, .null, .null, .arr [.str name, args]]⟩

/-- One argument as a pair of a name and a typed value. -/
def argument (name : String) (value : Json) : Json :=
  .arr [.arr [.str name, .arr [.null, value]]]

theorem arguments_argument (name : String) (v : Json) :
    arguments (argument name v) = [(name, v)] ∧ arguments (.arr [argument name v]) = [(name, v)] := by
  simp [arguments, argument, params, paramsIn, isParamList, paramList, typed, Json.insert, maxLevels]

/-- A half, as a double. -/
def half : Json := .num (.double ⟨false, Number.Double.one / 2⟩)

/-- A double whose text, 0.9007199254740993, is read as the one before it. -/
def misread : Json.Number := .double ⟨false, 8112963841460669 * Nat.pow 2 1021⟩

/-- The double with the text 0.9007199254740992. -/
def readInstead : Json.Number := .double ⟨false, 8112963841460668 * Nat.pow 2 1021⟩

/-- Frames of each kind, one of a call that is asked for twice and one that says nothing. -/
def mixed : List (Payload × Bytes) :=
  [(⟨.str "Hel", []⟩, Utf8.encode "[["),
    (⟨.str "why?\n", [.null, .num misread]⟩, Utf8.encode "]\n[[[nul"),
    (asking "f" (argument "x" half), []), (⟨.ofInt 1, []⟩, Utf8.encode ",\n[["),
    (asking "f" (.arr [argument "x" half]), []), (⟨.str "lo", []⟩, closing),
    (asking "g" .null, Utf8.encode "\n")]

theorem response_textOf_mixed :
    let first := Utf8.encode "\n]],\"model\"][["
    let body := textOf first mixed
    (∀ part ∈ mixed, part.1.Proper) ∧ ¬ opening <:+: first ∧
    (∀ part ∈ mixed, ¬ opening <:+: part.2) ∧ (content body ⟨[]⟩).1 = body ∧
    (content body ⟨[]⟩).1.length ≤ maxBacklog ∧
    ∃ report s', (fresh false false).reset.response body ⟨[]⟩ = (.ok report, s') ∧
      report.body = "Hello" ∧ report.reason = "why?\n" ∧
      report.function = [⟨"f", .obj [("x", half)]⟩, ⟨"g", .obj []⟩] := by
  intro first body
  have hproper : ∀ part ∈ mixed, part.1.Proper := by decide +kernel
  have hfirst : ¬ opening <:+: first := by decide +kernel
  have hbehind : ∀ part ∈ mixed, ¬ opening <:+: part.2 := by decide +kernel
  have htext : (content body ⟨[]⟩).1 = body := by decide +kernel
  have hfit : (content body ⟨[]⟩).1.length ≤ maxBacklog := by decide +kernel
  obtain ⟨-, report, s', hresponse, hbody, hreason, -, hcalls⟩ :=
    response_textOf (fresh false false) hproper hfirst hbehind htext hfit
  have hlegible : ∀ request ∈ (mixed.map Prod.fst).filterMap request?, request.2.Legible := by
    decide +kernel
  refine ⟨hproper, hfirst, hbehind, htext, hfit, report, s', hresponse, ?_, ?_, ?_⟩
  · exact hbody.trans (by decide +kernel)
  · exact hreason.trans (by decide +kernel)
  · have hrequests : (mixed.map Prod.fst).filterMap request? =
        [("f", argument "x" half), ("f", .arr [argument "x" half]), ("g", .null)] := rfl
    have hnone : arguments .null = [] := by simp [arguments, params]
    have hsame : FunctionCall.same ⟨"f", .obj [("x", half)]⟩ ⟨"f", .obj [("x", half)]⟩ = true := by
      decide +kernel
    have hother : FunctionCall.same ⟨"g", .obj []⟩ ⟨"f", .obj [("x", half)]⟩ = false := by
      decide +kernel
    rw [(hcalls hlegible).1, hrequests]
    simp [call, arguments_argument, hnone, List.eraseDupsBy, List.eraseDupsBy.loop, hsame, hother]

theorem response_misread :
    let args := argument "x" (.num misread)
    let parts := [(asking "f" args, [])]
    let body := textOf [] parts
    (∀ part ∈ parts, part.1.Proper) ∧ ¬ opening <:+: ([] : Bytes) ∧
    (∀ part ∈ parts, ¬ opening <:+: part.2) ∧ (content body ⟨[]⟩).1 = body ∧
    (content body ⟨[]⟩).1.length ≤ maxBacklog ∧
    (parts.map Prod.fst).filterMap request? = [("f", args)] ∧
    ∃ report s', (fresh false false).reset.response body ⟨[]⟩ = (.ok report, s') ∧
      report.function ≠ [call ("f", args)] := by
  intro args parts body
  have hproper : ∀ part ∈ parts, part.1.Proper := by decide +kernel
  have hfirst : ¬ opening <:+: ([] : Bytes) := by decide
  have hbehind : ∀ part ∈ parts, ¬ opening <:+: part.2 := by decide
  have htext : (content body ⟨[]⟩).1 = body := by decide +kernel
  have hfit : (content body ⟨[]⟩).1.length ≤ maxBacklog := by decide +kernel
  refine ⟨hproper, hfirst, hbehind, htext, hfit, rfl, ?_⟩
  obtain ⟨report, s', hresponse, -, -, hcalls⟩ := response_reset (fresh false false) hfit
  rw [htext, said_textOf hproper hfirst hbehind, gather_bytes (List.forall_mem_map.mpr hproper)]
    at hcalls
  have hreread : args.reread = argument "x" (.num readInstead) := by
    have hnumber : misread.reread = readInstead := by decide +kernel
    simp [args, argument, Json.reread, Json.rereadItems, hnumber]
  have hrequests : (parts.map Prod.fst).filterMap request? = [("f", args)] := rfl
  have hne : misread ≠ readInstead := by decide +kernel
  refine ⟨report, s', hresponse, fun heq => hne ?_⟩
  rw [heq, hrequests] at hcalls
  simpa [call, hreread, args, arguments_argument, List.eraseDupsBy, List.eraseDupsBy.loop]
    using hcalls

end Wiretap.Tap.Stream
