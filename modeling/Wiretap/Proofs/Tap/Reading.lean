import Wiretap.Proofs.Tap.Frames
import Wiretap.Proofs.Text.Valid
import Wiretap.Tap.Stream

/-!
# Reading a text that grows

However a text has come to be read, its reports taken together say what all of its
frames say (`Reported`). A stream that has read a text goes on behind the last frame
in it (`resume_consumed`), so that each call reports what the frames say that were
not there before (`reported_response`).
-/

namespace Wiretap.Tap

namespace Finding

def answer? : Finding → Option String
  | .answer text => some text
  | _ => none

def reasoning? : Finding → Option String
  | .reasoning text => some text
  | _ => none

def call? : Finding → Option FunctionCall
  | .call c => some c
  | _ => none

theorem call?_eq_some_iff {f : Finding} {call : FunctionCall} :
    f.call? = some call ↔ f = .call call := by
  cases f <;> simp [call?]

end Finding

namespace Stream

theorem join_filterMap_cons {α : Type} (f : α → Option String) (a : α) (l : List α) :
    String.join ((a :: l).filterMap f) = (f a).getD "" ++ String.join (l.filterMap f) := by
  cases h : f a <;> simp [h]

theorem foldl_add (g : Gathered) (findings : List Finding) :
    findings.foldl Gathered.add g =
      ⟨g.reason ++ String.join (findings.filterMap Finding.reasoning?),
        g.body ++ String.join (findings.filterMap Finding.answer?),
        (findings.filterMap Finding.call?).foldl addCall g.calls⟩ := by
  induction findings generalizing g with
  | nil => simp
  | cons f rest ih =>
    rw [List.foldl_cons, ih, join_filterMap_cons, join_filterMap_cons]
    cases f <;> simp [Gathered.add, Finding.answer?, Finding.reasoning?, Finding.call?,
      String.append_assoc, List.filterMap_cons]

/-- What frames say, and the calls with those that were known before. -/
def gather (calls : List FunctionCall) (frames : List Bytes) : Gathered :=
  (frames.map Finding.ofBytes).foldl Gathered.add ⟨"", "", calls⟩

theorem gather_eq (calls : List FunctionCall) (frames : List Bytes) :
    gather calls frames =
      let findings := frames.map Finding.ofBytes
      ⟨String.join (findings.filterMap Finding.reasoning?),
        String.join (findings.filterMap Finding.answer?),
        (findings.filterMap Finding.call?).foldl addCall calls⟩ := by
  simp only [gather, foldl_add, String.empty_append]

theorem gather_append (calls : List FunctionCall) (frames later : List Bytes) :
    gather calls (frames ++ later) =
      let g := gather calls frames
      let g' := gather g.calls later
      ⟨g.reason ++ g'.reason, g.body ++ g'.body, g'.calls⟩ := by
  simp only [gather_eq, List.map_append, List.filterMap_append, String.join_append,
    List.foldl_append]

/-- What all frames of a text say. -/
def said (text : Bytes) : Gathered := gather [] (scan text).frames

/-- Reading may go on from one text to the other: it has grown, or nothing was found in it. -/
def Continues (text text' : Bytes) : Prop := text <+: text' ∨ scan text = ⟨[], 0⟩

theorem closing_eq : closing = closing.dropLast ++ [0x5d] := by decide

/-- Behind a frame a character starts. -/
theorem resume_of_closing {n : Nat} {text : Bytes} (hv : Utf8.Valid text) (hle : n ≤ text.length)
    (hc : closing <:+ text.take n) : resume n text = n := by
  obtain ⟨u, hu⟩ := hc
  unfold resume
  split
  · rename_i hd
    exact if_pos (Nat.le_antisymm (List.drop_eq_nil_iff.mp hd) hle)
  · rename_i b rest hd
    have heq := (List.take_append_drop n text).symm
    rw [← hu, hd, closing_eq, ← List.append_assoc, List.append_assoc, List.singleton_append] at heq
    rw [heq] at hv
    exact if_neg (Utf8.not_isContinuation_of_ascii hv (by decide))

theorem resume_zero (text : Bytes) : resume 0 text = 0 := by
  unfold resume
  split <;> split <;> rfl

/-- Reading goes on behind the last frame. -/
theorem resume_consumed {text text' : Bytes} (hc : Continues text text')
    (hv : Utf8.Valid text') :
    resume (scan text).consumed text' = (scan text).consumed := by
  rcases scan_consumed text with hs | ⟨hle, hclose⟩
  · rw [hs, resume_zero]
  · rcases hc with ⟨t, rfl⟩ | hs
    · refine resume_of_closing hv ?_ ?_
      · rw [List.length_append]
        omega
      · rwa [List.take_append_of_le_length hle]
    · rw [hs, resume_zero]

/-- Where reading goes on, the frames of the text are those that were read and those behind. -/
theorem scan_of_continues {text text' : Bytes} (hc : Continues text text') :
    scan text' = ⟨(scan text).frames ++ (scan (text'.drop (scan text).consumed)).frames,
      (scan text).consumed + (scan (text'.drop (scan text).consumed)).consumed⟩ := by
  rcases hc with ⟨t, rfl⟩ | hs
  · rw [List.drop_append_of_le_length (scan_consumed_le text)]
    exact scan_append text t
  · simp [hs]

/-- What a stream and its reports say of a text that has been read. -/
structure Reported (s : Stream) (reports : List Report) (text : Bytes) : Prop where
  scanned : s.scanned = (scan text).consumed
  calls : s.calls = (said text).calls
  reason : String.join (reports.map Report.reason) = (said text).reason
  body : String.join (reports.map Report.body) = (said text).body

theorem scan_nil : scan [] = ⟨[], 0⟩ := scan_of_none (by rw [next, nextFrom])

theorem reported_reset (s : Stream) : Reported s.reset [] [] := by
  constructor <;> simp [reset, said, scan_nil, gather, String.join]

theorem said_of_continues {text text' : Bytes} (hc : Continues text text') :
    said text' =
      let g := gather (said text).calls (scan (text'.drop (scan text).consumed)).frames
      ⟨(said text).reason ++ g.reason, (said text).body ++ g.body, g.calls⟩ := by
  rw [said, scan_of_continues hc, gather_append]
  rfl

theorem read_of_reported {s : Stream} {reports : List Report} {text text' : Bytes}
    (hr : Reported s reports text) (hc : Continues text text') (hv : Utf8.Valid text')
    (hfit : text'.length ≤ maxBacklog) :
    ∃ g, s.read text' =
        (.ok g, { s with scanned := (scan text').consumed, calls := (said text').calls }) ∧
      (said text').reason = (said text).reason ++ g.reason ∧
      (said text').body = (said text).body ++ g.body ∧ g.calls = (said text').calls := by
  refine ⟨gather (said text).calls (scan (text'.drop (scan text).consumed)).frames, ?_, ?_, ?_, ?_⟩
  · unfold read
    rw [hr.scanned, resume_consumed hc hv, if_neg (by rw [List.length_drop]; omega),
      said_of_continues hc, scan_of_continues hc, hr.calls]
    rfl
  all_goals rw [said_of_continues hc]

@[simp] theorem dump_scanned (s : Stream) (text : Bytes) (done : Bool) :
    (s.dump text done).scanned = s.scanned := by
  unfold dump
  split <;> rfl

@[simp] theorem dump_calls (s : Stream) (text : Bytes) (done : Bool) :
    (s.dump text done).calls = s.calls := by
  unfold dump
  split <;> rfl

theorem valid_content (body : Bytes) (headers : Http.Headers) :
    Utf8.Valid (content body headers).1 := Utf8.valid_validPart _

theorem response_of_read {s s' : Stream} {body : Bytes} {headers : Http.Headers} {g : Gathered}
    (h : s.read (content body headers).1 = (.ok g, s')) :
    s.response body headers = (.ok ⟨g.reason, g.body, g.calls, (Http.unframe body headers).2⟩,
      s'.dump (content body headers).1 (Http.unframe body headers).2) := by
  simp only [response, h]
  rfl

/-- A call reports what is new in the text, and all calls. -/
theorem reported_response {s : Stream} {reports : List Report} {text : Bytes}
    (hr : Reported s reports text) {body : Bytes} {headers : Http.Headers}
    (hc : Continues text (content body headers).1)
    (hfit : (content body headers).1.length ≤ maxBacklog) :
    ∃ report s', s.response body headers = (.ok report, s') ∧
      Reported s' (reports ++ [report]) (content body headers).1 ∧
      report.function = (said (content body headers).1).calls ∧
      report.done = (Http.unframe body headers).2 := by
  obtain ⟨g, hread, hreason, hbody, hcalls⟩ :=
    read_of_reported hr hc (valid_content body headers) hfit
  refine ⟨_, _, response_of_read hread, ⟨dump_scanned _ _ _, dump_calls _ _ _, ?_, ?_⟩, hcalls, rfl⟩
  · simp [String.join_append, hr.reason, hreason]
  · simp [String.join_append, hr.body, hbody]

/-! ## Where reading goes on -/

/-- The part of a text that is read when reading goes on at `n`. -/
def unread (n : Nat) (text : Bytes) : Bytes := text.drop (resume n text)

/-- Where reading goes on behind a text: at its end if too much of it was unread, or else behind
the last frame. -/
def advance (n : Nat) (text : Bytes) : Nat :=
  if maxBacklog < (unread n text).length then text.length
  else resume n text + (scan (unread n text)).consumed

theorem resume_le (n : Nat) (text : Bytes) : resume n text ≤ text.length := by
  unfold resume
  split
  · split
    · rename_i h
      exact Nat.le_of_eq h.symm
    · exact Nat.zero_le _
  · rename_i b rest hd
    split
    · exact Nat.zero_le _
    · have := congrArg List.length hd
      rw [List.length_drop, List.length_cons] at this
      omega

/-- Behind a text that is valid by itself a character starts. -/
theorem resume_length {text t : Bytes} (hv : Utf8.Valid text) (hv' : Utf8.Valid (text ++ t)) :
    resume text.length (text ++ t) = text.length := by
  unfold resume
  rw [List.drop_left]
  cases t with
  | nil => simp
  | cons b rest => simp [Utf8.not_isContinuation_of_valid hv hv']

theorem resume_resume (n : Nat) {text t : Bytes} (hv : Utf8.Valid text)
    (hv' : Utf8.Valid (text ++ t)) : resume (resume n text) (text ++ t) = resume n text := by
  cases hd : text.drop n with
  | nil =>
    by_cases hlen : text.length = n
    · have hn : resume n text = n := by simp [resume, hd, hlen]
      rw [hn, ← hlen, resume_length hv hv']
    · rw [show resume n text = 0 by simp [resume, hd, hlen], resume_zero]
  | cons b rest =>
    have hd' : (text ++ t).drop n = b :: (rest ++ t) := by
      rw [List.drop_append_of_le_length, hd, List.cons_append]
      refine Nat.le_of_not_lt fun hlt => ?_
      rw [List.drop_eq_nil_of_le hlt.le] at hd
      cases hd
    by_cases hb : Utf8.isContinuation b
    · rw [show resume n text = 0 by simp [resume, hd, hb], resume_zero]
    · rw [show resume n text = n by simp [resume, hd, hb]]
      simp [resume, hd', hb]

/-- When a text grows, reading goes on where it has got to. -/
theorem resume_advance (n : Nat) {text next : Bytes} (hgrow : text <+: next)
    (hv : Utf8.Valid text) (hv' : Utf8.Valid next) :
    resume (advance n text) next = advance n text := by
  obtain ⟨t, rfl⟩ := hgrow
  unfold advance
  split
  · exact resume_length hv hv'
  · rcases scan_consumed (unread n text) with hs | ⟨hle, hc⟩
    · rw [hs]
      exact resume_resume n hv hv'
    · have hstart := resume_le n text
      rw [unread, List.length_drop] at hle
      have hend : resume n text + (scan (unread n text)).consumed ≤ text.length := by
        unfold unread
        omega
      refine resume_of_closing hv' ?_ ?_
      · rw [List.length_append]
        omega
      · rw [List.take_append_of_le_length hend, List.take_add]
        exact hc.trans (List.suffix_append _ _)

/-! ## Texts that are too long -/

/-- More of a text is unread than may wait for a frame. -/
def Overflows (s : Stream) (text : Bytes) : Prop :=
  maxBacklog < (text.drop (resume s.scanned text)).length

theorem read_of_overflows {s : Stream} {text : Bytes} (h : s.Overflows text) :
    s.read text = (.error (backlogError (unread s.scanned text).length),
      { s with scanned := advance s.scanned text }) := by
  have hlong : maxBacklog < (unread s.scanned text).length := h
  rw [advance, if_pos hlong]
  exact if_pos hlong

theorem read_of_not_overflows {s : Stream} {text : Bytes} (h : ¬ s.Overflows text) :
    let g := gather s.calls (scan (unread s.scanned text)).frames
    s.read text = (.ok g, { s with scanned := advance s.scanned text, calls := g.calls }) := by
  have hshort : ¬ maxBacklog < (unread s.scanned text).length := h
  simp only [advance, if_neg hshort]
  exact if_neg hshort

theorem read_scanned (s : Stream) (text : Bytes) :
    (s.read text).2.scanned = advance s.scanned text := by
  by_cases h : s.Overflows text
  · rw [read_of_overflows h]
  · rw [read_of_not_overflows h]

/-- Whatever came of it, a text that has been read does not have to wait again. -/
theorem not_overflows_read (s : Stream) {text : Bytes} (hv : Utf8.Valid text) :
    ¬ (s.read text).2.Overflows text := by
  rw [Overflows, read_scanned, resume_advance _ List.prefix_rfl hv hv, List.length_drop, advance]
  split
  · omega
  · rename_i h
    rw [unread, List.length_drop] at h
    omega

theorem response_of_read_error {s s' : Stream} {body : Bytes} {headers : Http.Headers}
    {error : Error} (h : s.read (content body headers).1 = (.error error, s')) :
    s.response body headers = (.error error, s') := by
  simp only [response, h]

/-- A call is answered unless the text overflows. -/
theorem response_of_overflows {s : Stream} {body : Bytes} {headers : Http.Headers}
    (h : s.Overflows (content body headers).1) :
    ∃ error s', s.response body headers = (.error error, s') := by
  exact ⟨_, _, response_of_read_error (read_of_overflows h)⟩

theorem response_of_not_overflows {s : Stream} {body : Bytes} {headers : Http.Headers}
    (h : ¬ s.Overflows (content body headers).1) :
    ∃ report s', s.response body headers = (.ok report, s') ∧
      report.done = (Http.unframe body headers).2 := by
  exact ⟨_, _, response_of_read (read_of_not_overflows h), rfl⟩

/-- A text that was the same in the last call does not overflow. -/
theorem not_overflows_response (s : Stream) (body : Bytes) (headers : Http.Headers) :
    ¬ (s.response body headers).2.Overflows (content body headers).1 := by
  have h := not_overflows_read s (valid_content body headers)
  rcases hr : s.read (content body headers).1 with ⟨error | g, s'⟩
  · rw [response_of_read_error hr]
    rwa [hr] at h
  · rw [response_of_read hr, Overflows, dump_scanned]
    rwa [hr] at h

end Stream

end Wiretap.Tap
