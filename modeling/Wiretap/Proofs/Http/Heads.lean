import Mathlib.Data.List.Dedup
import Mathlib.Data.List.Perm.Subperm
import Wiretap.Http.Response
import Wiretap.Proofs.Http.Lines

/-!
# Heads

A head is lines and an empty line, and its fields are those of its lines, whatever ends they
have (`headFields_linesBytes`). What it says (`ResponseHead.stated`) is what a response head is
read as, unless a table has no room for its fields (`Crowded`): of a head with different names in
all its fields this is their count (`crowded_lines_iff`).
-/

namespace Wiretap

open Bytes (cr lf crlf colon)

namespace Http

/-- A head ends with its terminator. -/
theorem headerTerminator_suffix {s : Bytes} {n : Nat} (h : headerEnd s = some n) :
    headerTerminator <:+ s.take n := by
  obtain ⟨k, hk, rfl⟩ := Option.map_eq_some_iff.mp h
  obtain ⟨⟨t, ht⟩, -⟩ := (Bytes.find_eq_some_iff headerTerminator_ne_nil).mp hk
  rw [List.take_add, ← ht, List.take_left]
  exact List.suffix_append _ _

/-- The first line of a head is that of the bytes at whose front it stands. -/
theorem firstLine_take {s : Bytes} {n : Nat} (h : headerEnd s = some n) :
    (s.take n).takeWhile (· != lf) = s.takeWhile (· != lf) := by
  have hlf : lf ∈ s.take n := (headerTerminator_suffix h).mem (by decide)
  have hshort : ((s.take n).takeWhile (· != lf)).length ≠ (s.take n).length := by
    intro hlen
    have hall := List.takeWhile_eq_self_iff.mp
      ((List.takeWhile_prefix (· != lf)).eq_of_length hlen)
    exact absurd (hall lf hlf) (by decide)
  conv_rhs => rw [← List.take_append_drop n s, List.takeWhile_append, if_neg hshort]

theorem takeWhile_lines {line : Bytes} (h : IsLine line) (lines : List Bytes) (s : Bytes) :
    ((line :: lines).flatMap (· ++ crlf) ++ s).takeWhile (· != lf) = line ++ [cr] := by
  have hlf : lf ∉ line ++ [cr] := by
    have hnot := h.lf
    simpa [cr, lf] using hnot
  have hcut : (line :: lines).flatMap (· ++ crlf) ++ s =
      (line ++ [cr]) ++ lf :: (lines.flatMap (· ++ crlf) ++ s) := by
    simp [crlf, cr, lf]
  rw [hcut, Bytes.takeWhile_of_notMem hlf]

theorem status?_concat_cr {line : Bytes} (h : IsLine line) :
    status? (line ++ [cr]) = status? line := by
  rw [status?, status?, Bytes.chomp_concat_cr, Bytes.chomp_of_notMem h.cr]

/-! ## Fields -/

/-- The fields on the lines of a head. -/
def headFields (head : Bytes) : List Field :=
  ((Bytes.splitOn Bytes.lf head).drop 1).filterMap field?

theorem field?_front (l : Line) : field? l.front = field? l.content := by
  rw [field?, field?, l.chomp_front, Bytes.chomp_of_notMem l.isLine.cr]

theorem headFields_linesBytes (status : Line) (lines : List Line) :
    headFields (linesBytes (status :: lines) ++ crlf) =
      lines.filterMap fun l => field? l.content := by
  have hlast : Bytes.splitOn lf crlf = [[cr], []] := by
    rw [show crlf = [cr] ++ lf :: [] from rfl, Bytes.splitOn_append (by decide),
      Bytes.splitOn_of_notMem (by decide)]
  have hnone : List.filterMap field? [[cr], []] = [] := by decide
  rw [headFields, splitOn_linesBytes, hlast, List.map_cons, List.cons_append, List.drop_one,
    List.tail_cons, List.filterMap_append, hnone, List.append_nil, List.filterMap_map]
  exact List.filterMap_congr fun l _ => field?_front l

theorem headFields_lines {status : Bytes} {lines : List Bytes}
    (h : ∀ l ∈ status :: lines, IsLine l) :
    headFields ((status :: lines).flatMap (· ++ crlf) ++ crlf) = lines.filterMap field? := by
  obtain ⟨ended, hbytes, hcontent, -⟩ := exists_linesBytes h .crlf
  obtain ⟨first, rest, rfl, -, rfl⟩ := List.map_eq_cons_iff.mp hcontent
  rw [show (status :: rest.map Line.content).flatMap (· ++ crlf) = _ from hbytes.symm,
    headFields_linesBytes, List.filterMap_map]
  rfl

theorem Headers.values_append (fields more : List Field) (name : Bytes) :
    values ⟨fields ++ more⟩ name = values ⟨fields⟩ name ++ values ⟨more⟩ name :=
  List.filterMap_append

theorem Headers.values_of_ne {fields : List Field} {name : Bytes}
    (h : ∀ f ∈ fields, f.name ≠ name) : values ⟨fields⟩ name = [] :=
  List.filterMap_eq_nil_iff.mpr fun f hf => if_neg (h f hf)

theorem isTokenByte_of_fieldName? {name n : Bytes} (h : fieldName? name = some n) :
    name ≠ [] ∧ ∀ b ∈ name, isTokenByte b = true := by
  unfold fieldName? at h
  split at h
  · rename_i hname
    simp only [Bool.and_eq_true, Bool.not_eq_true', List.isEmpty_eq_false_iff] at hname
    exact ⟨hname.1.1, List.all_eq_true.mp hname.2⟩
  · cases h

theorem not_isBlank_of_isTokenByte {b : UInt8} (h : isTokenByte b = true) :
    ¬ Bytes.isBlank b := by
  intro hb
  simp only [Bytes.isBlank, Bool.or_eq_true, beq_iff_eq] at hb
  rcases hb with (((rfl | rfl) | rfl) | rfl) | rfl <;> exact absurd h (by decide)

/-- A line with a name and no value. -/
def bareField (name : Bytes) : Bytes := name ++ [colon]

theorem isLine_bareField {name n : Bytes} (h : fieldName? name = some n) :
    IsLine (bareField name) := by
  obtain ⟨-, htoken⟩ := isTokenByte_of_fieldName? h
  refine ⟨List.concat_ne_nil _ _, fun hm => ?_, fun hm => ?_⟩
  all_goals
    rcases List.mem_append.mp hm with hm | hm
    · exact absurd (htoken _ hm) (by decide)
    · exact absurd hm (by decide)

theorem isLine_bareFields {status : Bytes} (hs : IsLine status) {names : List Bytes}
    (hn : ∀ name ∈ names, fieldName? name = some name) :
    ∀ l ∈ status :: names.map bareField, IsLine l := by
  refine List.forall_mem_cons.mpr ⟨hs, fun l hl => ?_⟩
  obtain ⟨name, hname, rfl⟩ := List.mem_map.mp hl
  exact isLine_bareField (hn name hname)

theorem field?_bareField {name n : Bytes} (h : fieldName? name = some n) :
    field? (bareField name) = some ⟨n, []⟩ := by
  obtain ⟨hne, htoken⟩ := isTokenByte_of_fieldName? h
  have hcolon : colon ∉ name := fun hm => absurd (htoken _ hm) (by decide)
  have htrim : Bytes.trim name = name := by
    have hmiddle := Bytes.trim_of_blanks (List.forall_mem_nil _) (List.forall_mem_nil _)
      (fun b hb => not_isBlank_of_isTokenByte (htoken b (List.mem_of_head? hb)))
      (fun b hb => not_isBlank_of_isTokenByte (htoken b (List.mem_of_getLast? hb)))
    rwa [List.nil_append, List.append_nil] at hmiddle
  rw [field?, Bytes.chomp_of_notMem (isLine_bareField h).cr, bareField,
    Bytes.dropWhile_of_notMem hcolon, Bytes.takeWhile_of_notMem hcolon]
  simp only [htrim, h]
  rfl

/-! ## Room for fields -/

theorem distinct_eq (fields : List Field) :
    Headers.distinct fields = (fields.map (·.name)).dedup.length := by
  have hnodup : (Std.HashSet.ofList (fields.map (·.name))).toList.Nodup :=
    Std.HashSet.distinct_toList.imp fun h => beq_eq_false_iff_ne.mp h
  have hperm := (List.perm_ext_iff_of_nodup hnodup (List.nodup_dedup (fields.map (·.name)))).mpr
    fun name => by simp
  rw [Headers.distinct, ← Std.HashSet.length_toList, hperm.length_eq]

theorem Headers.distinct_le_of_subset {fields more : List Field} (h : fields ⊆ more) :
    Headers.distinct fields ≤ Headers.distinct more := by
  have hnames : (fields.map Field.name).dedup ⊆ (more.map Field.name).dedup := fun name hname => by
    rw [List.mem_dedup] at hname ⊢
    exact List.map_subset _ h hname
  rw [distinct_eq, distinct_eq]
  exact ((List.nodup_dedup _).subperm hnames).length_le

/-- Of fields with different names a table has room for as many as its capacity. -/
theorem fits_of_nodup {fields : List Field} (h : (fields.map (·.name)).Nodup) :
    Headers.fits fields = decide (fields.length ≤ Headers.capacity) := by
  have hdrop : (fields.dropLast.map (·.name)).Nodup := by
    rw [List.map_dropLast]
    exact h.sublist (List.dropLast_sublist _)
  have hdistinct : Headers.distinct fields.dropLast = fields.length - 1 := by
    rw [distinct_eq, hdrop.dedup, List.length_map, List.length_dropLast]
  have hroom : 0 < Headers.capacity := by decide
  rw [Headers.fits, hdistinct, Bool.eq_iff_iff]
  simp only [Bool.or_eq_true, decide_eq_true_eq]
  omega

/-- Of fields with few names a table has room for any number. -/
theorem fits_of_dedup_lt {fields : List Field}
    (h : (fields.map (·.name)).dedup.length < Headers.capacity) : Headers.fits fields = true := by
  rw [← distinct_eq] at h
  have hle := Headers.distinct_le_of_subset (List.dropLast_subset fields)
  rw [Headers.fits, decide_eq_true (Nat.lt_of_le_of_lt hle h), Bool.or_true]

/-- What a head says, be there room for its fields or not. -/
def ResponseHead.stated (head : Bytes) : ResponseHead :=
  ⟨head.length, ((Bytes.splitOn lf head).head?.bind status?).getD .ok, ⟨headFields head⟩⟩

theorem status_stated {s : Bytes} {n : Nat} (h : headerEnd s = some n) :
    (ResponseHead.stated (s.take n)).status = (status? (s.takeWhile (· != lf))).getD .ok := by
  rw [ResponseHead.stated, Bytes.head?_splitOn, firstLine_take h, Option.bind_some]

/-- What a head of lines says. -/
theorem stated_lines {status : Bytes} {lines : List Bytes} (h : ∀ l ∈ status :: lines, IsLine l) :
    let head := (status :: lines).flatMap (· ++ crlf) ++ crlf
    ResponseHead.stated head =
      ⟨head.length, (status? status).getD .ok, ⟨lines.filterMap field?⟩⟩ := by
  have hstatus := h status List.mem_cons_self
  intro head
  rw [ResponseHead.stated, headFields_lines h, Bytes.head?_splitOn, takeWhile_lines hstatus,
    Option.bind_some, status?_concat_cr hstatus]

theorem parse_eq (head : Bytes) : ResponseHead.parse head =
    if Headers.fits (headFields head) then .ok (.stated head) else .error .crowdedHead := rfl

theorem eq_stated_of_parse {head : Bytes} {h : ResponseHead}
    (hp : ResponseHead.parse head = .ok h) : h = .stated head := by
  rw [parse_eq] at hp
  split at hp
  · exact (Except.ok.inj hp).symm
  · cases hp

theorem parse_eq_error_iff {head : Bytes} {crash : Crash} :
    ResponseHead.parse head = .error crash ↔
      crash = .crowdedHead ∧ Headers.fits (headFields head) = false := by
  rw [parse_eq]
  cases Headers.fits (headFields head) with
  | true => simp
  | false => simp [eq_comm]

/-- A head has come for whose fields a table has no room. -/
def Crowded (seen : Bytes) : Prop :=
  ∃ n, headerEnd seen = some n ∧ Headers.fits (headFields (seen.take n)) = false

instance (seen : Bytes) : Decidable (Crowded seen) :=
  decidable_of_iff ((headerEnd seen).any fun n => !Headers.fits (headFields (seen.take n)))
    (by cases h : headerEnd seen <;> simp [Crowded, h])

theorem Crowded.append {s : Bytes} (h : Crowded s) (t : Bytes) : Crowded (s ++ t) := by
  obtain ⟨n, hn, hfull⟩ := h
  exact ⟨n, headerEnd_append hn, by rwa [List.take_append_of_le_length (headerEnd_le hn)]⟩

theorem Crowded.of_isPrefix {seen s : Bytes} (h : Crowded s) (hp : seen <+: s) {n : Nat}
    (hn : headerEnd s = some n) (hle : n ≤ seen.length) : Crowded seen := by
  obtain ⟨n', hn', hfull⟩ := h
  cases hn.symm.trans hn'
  obtain ⟨t, rfl⟩ := hp
  rw [List.take_append_of_le_length hle] at hfull
  refine ⟨n, ?_, hfull⟩
  rw [headerEnd_of_isPrefix (List.prefix_append seen t) hn, if_pos hle]

/-- A head with a different name in every field is crowded exactly if they are too many. -/
theorem crowded_lines_iff {status : Bytes} {lines : List Bytes}
    (h : ∀ l ∈ status :: lines, IsLine l)
    (hd : ((lines.filterMap field?).map Field.name).Nodup) (rest : Bytes) :
    Crowded ((status :: lines).flatMap (· ++ crlf) ++ crlf ++ rest) ↔
      Headers.capacity < (lines.filterMap field?).length := by
  simp only [Crowded, headerEnd_lines h (List.cons_ne_nil _ _), Option.some.injEq,
    exists_eq_left', List.take_left, headFields_lines h, fits_of_nodup hd,
    decide_eq_false_iff_not, Nat.not_le]

theorem filterMap_bareField {names : List Bytes}
    (hn : ∀ name ∈ names, fieldName? name = some name) :
    (names.map bareField).filterMap field? = names.map fun name => ⟨name, []⟩ := by
  rw [List.filterMap_map, ← List.filterMap_eq_map]
  exact List.filterMap_congr fun name hname => field?_bareField (hn name hname)

theorem map_name_bare (names : List Bytes) :
    (names.map fun name => (⟨name, []⟩ : Field)).map Field.name = names := by
  rw [List.map_map]
  exact List.map_id names

/-! ## Many names -/

/-- The letters from a to p, over and over. -/
def letter (k : Nat) : UInt8 := UInt8.ofNat (0x61 + k % 16)

theorem lower_letter (k : Nat) :
    isTokenByte (letter k) = true ∧ Bytes.lowerByte (letter k) = letter k := by
  have hall : ∀ m < 16, isTokenByte (UInt8.ofNat (0x61 + m)) = true ∧
      Bytes.lowerByte (UInt8.ofNat (0x61 + m)) = UInt8.ofNat (0x61 + m) := by decide
  exact hall (k % 16) (Nat.mod_lt k (by decide))

theorem letter_inj {j k : Nat} (h : letter j = letter k) : j % 16 = k % 16 := by
  have hall : ∀ m < 16, ∀ n < 16, UInt8.ofNat (0x61 + m) = UInt8.ofNat (0x61 + n) → m = n := by
    decide +kernel
  exact hall _ (Nat.mod_lt j (by decide)) _ (Nat.mod_lt k (by decide)) h

/-- The names of four letters, in the order of the alphabet. -/
def shortName (k : Nat) : Bytes := [letter (k / 4096), letter (k / 256), letter (k / 16), letter k]

theorem fieldName?_shortName (k : Nat) : fieldName? (shortName k) = some (shortName k) := by
  simp [fieldName?, shortName, maxNameLength, Bytes.lower, lower_letter]

theorem shortName_inj {j k : Nat} (hj : j < 65536) (hk : k < 65536)
    (h : shortName j = shortName k) : j = k := by
  simp only [shortName, List.cons.injEq, and_true] at h
  obtain ⟨h₁, h₂, h₃, h₄⟩ := h
  have h₁ := letter_inj h₁
  have h₂ := letter_inj h₂
  have h₃ := letter_inj h₃
  have h₄ := letter_inj h₄
  omega

/-- The first `n` of them. -/
def shortNames (n : Nat) : List Bytes := (List.range n).map shortName

theorem fieldName?_of_mem_shortNames {n : Nat} : ∀ x ∈ shortNames n, fieldName? x = some x := by
  intro x hx
  obtain ⟨k, -, rfl⟩ := List.mem_map.mp hx
  exact fieldName?_shortName k

theorem length_of_mem_shortNames {n : Nat} : ∀ x ∈ shortNames n, x.length = 4 := by
  intro x hx
  obtain ⟨k, -, rfl⟩ := List.mem_map.mp hx
  rfl

theorem length_shortNames (n : Nat) : (shortNames n).length = n := by
  rw [shortNames, List.length_map, List.length_range]

theorem nodup_shortNames {n : Nat} (h : n ≤ 65536) : (shortNames n).Nodup := by
  refine List.Nodup.map_on (fun j hj k hk => ?_) List.nodup_range
  rw [List.mem_range] at hj hk
  exact shortName_inj (Nat.lt_of_lt_of_le hj h) (Nat.lt_of_lt_of_le hk h)

end Http

end Wiretap
