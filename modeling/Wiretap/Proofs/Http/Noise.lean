import Wiretap.Proofs.Http.Heads
import Wiretap.Proofs.Number.Digits
import Wiretap.Proofs.Text.Encoded

/-!
# Heads among noise

A line of a head is a field, however its name is cased and its value spaced, or noise that no
field can be read from (`field?_eq_none_iff`). A head is recovered from what is written, whatever
ends its lines have and whatever noise stands between them (`parse_written`).
-/

namespace Wiretap.Http

open Bytes (cr lf crlf colon)

/-! ## Names and values -/

structure IsName (name : Bytes) : Prop where
  nonempty : name ≠ []
  short : name.length ≤ 65535
  token : ∀ b ∈ name, isTokenByte b

def IsValue (value : Bytes) : Prop := ∀ b ∈ value, isValueByte b

instance (value : Bytes) : Decidable (IsValue value) :=
  inferInstanceAs (Decidable (∀ b ∈ value, _))

/-- A text between blanks. -/
def Padded (text s : Bytes) : Prop :=
  ∃ before after, s = before ++ text ++ after ∧
    (∀ b ∈ before, Bytes.isBlank b) ∧ ∀ b ∈ after, Bytes.isBlank b

/-- A text with no blank at either end. -/
structure Bare (text : Bytes) : Prop where
  first : ∀ b ∈ text.head?, ¬ Bytes.isBlank b
  last : ∀ b ∈ text.getLast?, ¬ Bytes.isBlank b

theorem IsName.bare {name : Bytes} (h : IsName name) : Bare name :=
  ⟨fun b hb => not_isBlank_of_isTokenByte (h.token b (List.mem_of_head? hb)),
    fun b hb => not_isBlank_of_isTokenByte (h.token b (List.mem_of_getLast? hb))⟩

theorem Padded.trim_eq {text s : Bytes} (h : Padded text s) (hbare : Bare text) :
    Bytes.trim s = text := by
  obtain ⟨before, after, rfl, hbefore, hafter⟩ := h
  exact Bytes.trim_of_blanks hbefore hafter hbare.first hbare.last

theorem padded_trim (s : Bytes) : Padded (Bytes.trim s) s := by
  refine ⟨s.takeWhile Bytes.isBlank,
    ((s.dropWhile Bytes.isBlank).reverse.takeWhile Bytes.isBlank).reverse, ?_,
    fun b hb => List.mem_takeWhile_imp hb,
    fun b hb => List.mem_takeWhile_imp (List.mem_reverse.mp hb)⟩
  rw [Bytes.trim, List.append_assoc, ← List.reverse_append, List.takeWhile_append_dropWhile,
    List.reverse_reverse, List.takeWhile_append_dropWhile]

theorem fieldName?_eq_some_iff {name lower : Bytes} :
    fieldName? name = some lower ↔ IsName name ∧ Bytes.lower name = lower := by
  unfold fieldName? maxNameLength
  split
  · rename_i h
    simp only [Bool.and_eq_true, Bool.not_eq_true', List.isEmpty_eq_false_iff, decide_eq_true_eq,
      List.all_eq_true] at h
    simp [show IsName name from ⟨h.1.1, h.1.2, h.2⟩]
  · rename_i h
    simp only [Bool.and_eq_true, Bool.not_eq_true', List.isEmpty_eq_false_iff, decide_eq_true_eq,
      List.all_eq_true] at h
    simp only [reduceCtorEq, false_iff, not_and]
    exact fun hname => absurd ⟨⟨hname.nonempty, hname.short⟩, hname.token⟩ h

theorem fieldValue?_eq_some_iff {value v : Bytes} :
    fieldValue? value = some v ↔ IsValue value ∧ value = v := by
  unfold fieldValue? IsValue
  split
  · rename_i h
    rw [List.all_eq_true] at h
    exact ⟨fun heq => ⟨h, Option.some.inj heq⟩, fun heq => congrArg some heq.2⟩
  · rename_i h
    rw [List.all_eq_true] at h
    exact ⟨nofun, fun heq => absurd heq.1 h⟩

/-! ## Lines -/

/-- A line from which no field can be read: it has no colon, or what stands in front of its first
colon is no name between blanks, or what stands behind it is no value between blanks. -/
inductive Noise : Bytes → Prop where
  | noColon {line : Bytes} (h : colon ∉ line) : Noise line
  | noName {front back : Bytes} (hcolon : colon ∉ front)
      (h : ∀ name, IsName name → ¬ Padded name front) : Noise (front ++ colon :: back)
  | noValue {front back : Bytes} (hcolon : colon ∉ front)
      (h : ∀ value, IsValue value → ¬ Padded value back) : Noise (front ++ colon :: back)

/-- The empty text is no name. -/
theorem noise_colon (back : Bytes) : Noise (colon :: back) := by
  refine @Noise.noName [] back List.not_mem_nil fun name hname => ?_
  rintro ⟨before, after, heq, -⟩
  exact hname.nonempty (List.append_eq_nil_iff.mp (List.append_eq_nil_iff.mp heq.symm).1).2

theorem field?_colon {front back : Bytes} (hcolon : colon ∉ front)
    (hcr : cr ∉ front ++ colon :: back) {f : Field} :
    field? (front ++ colon :: back) = some f ↔
      fieldName? (Bytes.trim front) = some f.name ∧
      fieldValue? (Bytes.trim back) = some f.value := by
  rw [field?, Bytes.chomp_of_notMem hcr, Bytes.takeWhile_of_notMem hcolon,
    Bytes.dropWhile_of_notMem hcolon]
  obtain ⟨name, value⟩ := f
  simp only
  cases fieldName? (Bytes.trim front) <;> cases fieldValue? (Bytes.trim back) <;> simp

theorem field?_noise {line : Bytes} (hcr : cr ∉ line) (h : Noise line) : field? line = none := by
  cases h with
  | noColon hcolon =>
    have hdrop : line.dropWhile (· != colon) = [] :=
      List.dropWhile_eq_nil_iff.mpr fun b hb => bne_iff_ne.mpr (ne_of_mem_of_not_mem hb hcolon)
    rw [field?, Bytes.chomp_of_notMem hcr, hdrop]
  | noName hcolon hname =>
    refine Option.eq_none_iff_forall_ne_some.mpr fun f hf => ?_
    obtain ⟨hread, -⟩ := (field?_colon hcolon hcr).mp hf
    exact hname _ (fieldName?_eq_some_iff.mp hread).1 (padded_trim _)
  | noValue hcolon hvalue =>
    refine Option.eq_none_iff_forall_ne_some.mpr fun f hf => ?_
    obtain ⟨-, hread⟩ := (field?_colon hcolon hcr).mp hf
    exact hvalue _ (fieldValue?_eq_some_iff.mp hread).1 (padded_trim _)

/-- A field as it is written: its name in any case, and spaces and tabs around its value. -/
structure WrittenField where
  name : Bytes
  before : Bytes
  value : Bytes
  after : Bytes
  isName : IsName name
  isValue : IsValue value
  bare : Bare value
  blank : ∀ b ∈ before ++ after, b = 0x20 ∨ b = 0x09

namespace WrittenField

def bytes (f : WrittenField) : Bytes := f.name ++ colon :: (f.before ++ f.value ++ f.after)

def field (f : WrittenField) : Field := ⟨Bytes.lower f.name, f.value⟩

theorem padded (f : WrittenField) : Padded f.value (f.before ++ f.value ++ f.after) := by
  have hblank : ∀ b ∈ f.before ++ f.after, Bytes.isBlank b := fun b hb => by
    rcases f.blank b hb with rfl | rfl <;> decide
  exact ⟨f.before, f.after, rfl, fun b hb => hblank b (List.mem_append_left _ hb),
    fun b hb => hblank b (List.mem_append_right _ hb)⟩

/-- Neither a name nor a value nor a blank holds a line end. -/
theorem isLine (f : WrittenField) : IsLine f.bytes := by
  have hno (b : UInt8) (htoken : ¬ isTokenByte b) (hcolon : b ≠ colon) (hvalue : ¬ isValueByte b)
      (hblank : ¬ (b = 0x20 ∨ b = 0x09)) : b ∉ f.bytes := by
    simp only [bytes, List.mem_append, List.mem_cons, not_or]
    exact ⟨fun hb => htoken (f.isName.token b hb), hcolon,
      ⟨fun hb => hblank (f.blank b (List.mem_append_left _ hb)), fun hb => hvalue (f.isValue b hb)⟩,
      fun hb => hblank (f.blank b (List.mem_append_right _ hb))⟩
  exact ⟨List.append_ne_nil_of_left_ne_nil f.isName.nonempty _,
    hno cr (by decide) (by decide) (by decide) (by decide),
    hno lf (by decide) (by decide) (by decide) (by decide)⟩

theorem field?_bytes (f : WrittenField) : field? f.bytes = some f.field := by
  have hcolon : colon ∉ f.name := fun hb => absurd (f.isName.token _ hb) (by decide)
  have hname : Bytes.trim f.name = f.name :=
    Padded.trim_eq ⟨[], [], (List.append_nil _).symm, nofun, nofun⟩ f.isName.bare
  refine (field?_colon hcolon f.isLine.cr).mpr ⟨?_, ?_⟩
  · rw [hname]
    exact fieldName?_eq_some_iff.mpr ⟨f.isName, rfl⟩
  · rw [f.padded.trim_eq f.bare]
    exact fieldValue?_eq_some_iff.mpr ⟨f.isValue, rfl⟩

end WrittenField

/-- A line behind the status line. -/
inductive Entry where
  | field (f : WrittenField)
  | noise (line : Bytes) (isLine : IsLine line) (noise : Noise line)

namespace Entry

def content : Entry → Bytes
  | .field f => f.bytes
  | .noise line _ _ => line

def field? : Entry → Option WrittenField
  | .field f => some f
  | .noise .. => none

theorem isLine : (e : Entry) → IsLine e.content
  | .field f => f.isLine
  | .noise _ isLine _ => isLine

theorem field?_content (e : Entry) : Http.field? e.content = e.field?.map WrittenField.field := by
  cases e with
  | field f => exact f.field?_bytes
  | noise line isLine noise => exact field?_noise isLine.cr noise

end Entry

/-! ## Status lines -/

/-- The text of a status line. -/
def statusText (s : Status) : String := "HTTP/1.1 " ++ toString s.code ++ " " ++ s.reason

theorem toList_statusText (s : Status) :
    (statusText s).toList =
      "HTTP/1.1".toList ++ ' ' :: (Number.decimal s.code ++ ' ' :: s.reason.toList) := by
  simp [statusText, Number.decimal]

theorem space_notMem_decimal (n : Nat) : ' ' ∉ Number.decimal n := fun h =>
  absurd (Number.isDigit_decimal h) (by decide)

theorem status?_front (l : Line) {s : Status} (hcontent : l.content = Utf8.encode (statusText s))
    (hcode : s.code ≤ Number.word16) : status? l.front = some s := by
  rw [status?, l.chomp_front, hcontent, Utf8.decode?_encode, toList_statusText]
  simp only [Bytes.dropWhile_of_notMem (show ' ' ∉ "HTTP/1.1".toList by decide),
    Bytes.dropWhile_of_notMem (space_notMem_decimal s.code),
    Bytes.takeWhile_of_notMem (space_notMem_decimal s.code),
    show Number.word16? (Number.decimal s.code) = some s.code from
      Number.unsigned?_decimal hcode, List.drop_one, List.tail_cons, String.ofList_toList]

/-! ## Heads -/

/-- A head as it is written: a line with the status, more lines, each with its own end, and an
empty line that closes the head where the line in front of it ends in CR LF. -/
structure WrittenHead where
  status : Status
  eol : Eol
  entries : List (Entry × Eol)
  code : status.code ≤ 65535
  cr : '\r' ∉ status.reason.toList
  lf : '\n' ∉ status.reason.toList
  closed : (eol :: entries.map Prod.snd).getLast (List.cons_ne_nil _ _) = .crlf

namespace WrittenHead

variable (w : WrittenHead)

theorem isLine_status : IsLine (Utf8.encode (statusText w.status)) := by
  have hno (c : Char) (hversion : c ∉ "HTTP/1.1".toList) (hspace : c ≠ ' ')
      (hdigit : ¬ c.isDigit) (hreason : c ∉ w.status.reason.toList) :
      c ∉ (statusText w.status).toList := by
    rw [toList_statusText]
    simp only [List.mem_append, List.mem_cons, not_or]
    exact ⟨hversion, hspace, fun hc => hdigit (Number.isDigit_decimal hc), hspace, hreason⟩
  refine ⟨?_, Utf8.cr_notMem_encode (hno '\r' (by decide) (by decide) (by decide) w.cr),
    Utf8.lf_notMem_encode (hno '\n' (by decide) (by decide) (by decide) w.lf)⟩
  rw [Utf8.encode, toList_statusText]
  exact List.cons_ne_nil _ _

def statusLine : Line := ⟨Utf8.encode (statusText w.status), w.eol, w.isLine_status⟩

def lines : List Line := w.entries.map fun e => ⟨e.1.content, e.2, e.1.isLine⟩

def bytes : Bytes := linesBytes (w.statusLine :: w.lines) ++ crlf

/-- What is written apart from noise. -/
def fields : List WrittenField := w.entries.filterMap fun e => e.1.field?

theorem headerEnd_bytes (rest : Bytes) : headerEnd (w.bytes ++ rest) = some w.bytes.length := by
  refine headerEnd_linesBytes ?_ rest
  have heols : (w.statusLine :: w.lines).map Line.eol = w.eol :: w.entries.map Prod.snd := by
    simp [lines, statusLine, Function.comp_def]
  rw [← List.getLast?_map, heols, List.getLast?_eq_some_getLast (List.cons_ne_nil _ _), w.closed]

theorem headFields_bytes : headFields w.bytes = w.fields.map WrittenField.field := by
  rw [bytes, headFields_linesBytes, lines, fields, List.filterMap_map, List.map_filterMap]
  exact List.filterMap_congr fun e _ => e.1.field?_content

theorem status?_bytes : (Bytes.splitOn Bytes.lf w.bytes).head?.bind status? = some w.status := by
  rw [bytes, splitOn_linesBytes, List.map_cons, List.cons_append, List.head?_cons,
    Option.bind_some]
  exact status?_front w.statusLine rfl w.code

theorem parse_bytes
    (hnames : (w.fields.map fun f => Bytes.lower f.name).dedup.length < Headers.capacity) :
    ResponseHead.parse w.bytes =
      .ok ⟨w.bytes.length, w.status, ⟨w.fields.map WrittenField.field⟩⟩ := by
  have hfits : Headers.fits (headFields w.bytes) = true := by
    refine fits_of_dedup_lt ?_
    rw [headFields_bytes, List.map_map]
    exact hnames
  have hparse : ResponseHead.parse w.bytes =
      .ok ⟨w.bytes.length, _, ⟨headFields w.bytes⟩⟩ := if_pos hfits
  rw [hparse, status?_bytes, headFields_bytes, Option.getD_some]

end WrittenHead

theorem values_fields (fields : List WrittenField) (name : Bytes) :
    Headers.values ⟨fields.map WrittenField.field⟩ name =
      (fields.filter fun f => Bytes.lower f.name = name).map WrittenField.value := by
  rw [Headers.values, List.filterMap_map]
  induction fields with
  | nil => rfl
  | cons f fields ih =>
    by_cases h : Bytes.lower f.name = name <;> simp [WrittenField.field, h, ← ih]

end Wiretap.Http
