import Wiretap.Proofs.Json.Numerals

/-!
# What is printed is read back

The text of a value is read as that value with each number replaced by what is read in its own
text (`value_chars`), so that a value is read back, members as they are written, if its numbers
are (`read_text`): any strings, whole numbers within 64 bits, doubles whose own text is read back,
and no more levels of nesting than the parser allows. A printed text has no line feed in it
(`lf_notMem_chars`). A value whose members are in order is its own canonical form
(`canonical_of_ordered`).
-/

namespace Wiretap.Json

/-! ## Strings -/

theorem digit?_hexDigit (n : Nat) : Number.digit? 16 (hexDigit n) = some (n % 16) := by
  have hall : ∀ m < 16, Number.digit? 16 (Nat.digitChar m) = some m := by decide
  exact hall _ (Nat.mod_lt _ (by decide))

theorem stringFrom_plain {c : Char} (hquote : c ≠ '"') (hescape : c ≠ '\\')
    (hcontrol : 0x20 ≤ c.toNat) (acc rest : List Char) :
    stringFrom .plain acc (c :: rest) = stringFrom .plain (c :: acc) rest := by
  rw [stringFrom, if_neg fun h => hquote h.2]
  simp only [StringState.step, if_neg hescape, if_neg (Nat.not_lt_of_le hcontrol)]

theorem stringFrom_hex (n : Nat) (hn : n < 0x20) (acc rest : List Char) :
    stringFrom .plain acc ('\\' :: 'u' :: '0' :: '0' :: hexDigit (n / 16) :: hexDigit n :: rest) =
      stringFrom .plain (Char.ofNat n :: acc) rest := by
  have hzero : Number.digit? 16 '0' = some 0 := rfl
  have hvalue : n / 16 % 16 * 16 + n % 16 = n := by omega
  simp [stringFrom, StringState.step, digit?_hexDigit, hzero, codeUnit, hvalue]
  rw [if_neg (by omega), if_neg (by omega)]

/-- An escaped character is read as itself. -/
theorem stringFrom_escapeChar (c : Char) (acc rest : List Char) :
    stringFrom .plain acc (escapeChar c ++ rest) = stringFrom .plain (c :: acc) rest := by
  have hshort {n : Nat} (h : c.toNat = n) : c = Char.ofNat n := by rw [← h, Char.ofNat_toNat]
  unfold escapeChar
  simp only
  split
  · subst c; rfl
  rename_i hquote
  split
  · subst c; rfl
  rename_i hescape
  split
  · rename_i hcontrol
    exact stringFrom_plain hquote hescape hcontrol acc rest
  rename_i hcontrol
  split
  · rename_i h
    rw [hshort h]; rfl
  split
  · rename_i h
    rw [hshort h]; rfl
  split
  · rename_i h
    rw [hshort h]; rfl
  split
  · rename_i h
    rw [hshort h]; rfl
  split
  · rename_i h
    rw [hshort h]; rfl
  · exact (stringFrom_hex c.toNat (by omega) acc rest).trans (by rw [Char.ofNat_toNat])

theorem stringFrom_quoted (cs acc rest : List Char) :
    stringFrom .plain acc (cs.flatMap escapeChar ++ '"' :: rest) =
      some (acc.reverse ++ cs, rest) := by
  induction cs generalizing acc with
  | nil => simp [stringFrom]
  | cons c cs ih =>
    rw [List.flatMap_cons, List.append_assoc, stringFrom_escapeChar, ih]
    simp

theorem quoted_append (s : String) (rest : List Char) :
    quoted s ++ rest = '"' :: (s.toList.flatMap escapeChar ++ '"' :: rest) := by
  simp [quoted]

theorem string_quoted (s : String) (rest : List Char) :
    string (s.toList.flatMap escapeChar ++ '"' :: rest) = some (s, rest) := by
  unfold string
  rw [stringFrom_quoted]
  simp

/-! ## Numbers -/

/-- A number whose text the parser inverts. -/
def Number.Readable (n : Json.Number) : Prop := read (text (.num n)) = some (.num n)

/-- A whole number within 64 bits, or a double whose text the parser inverts. -/
def Number.Legible : Json.Number → Prop
  | .int n => Fits n
  | .double x => Number.Readable (.double x)

theorem skipBlank_of_notBlank {c : Char} (hc : isBlank c = false) (rest : List Char) :
    skipBlank (c :: rest) = c :: rest := List.dropWhile_cons_of_neg (by simp [hc])

theorem isBlank_of_isNumeralChar {c : Char} (hc : isNumeralChar c = true) : isBlank c = false := by
  rw [Bool.eq_false_iff]
  intro hblank
  simp only [isBlank, Bool.or_eq_true, beq_iff_eq] at hblank
  rcases hblank with ((rfl | rfl) | rfl) | rfl <;> revert hc <;> decide

theorem value_of_isNumeralChar {c : Char} (hc : isNumeralChar c = true) (fuel depth : Nat)
    (rest : List Char) :
    value (fuel + 1) depth (c :: rest) = (numeral (c :: rest)).map fun (n, rest) => (num n, rest) := by
  rw [value, skipBlank_of_notBlank (isBlank_of_isNumeralChar hc)]
  split
  case h_7 => rfl
  all_goals
    rename_i heq
    cases heq
    exact absurd hc (by decide)

theorem Number.Readable.numeral_chars {n : Json.Number} (h : n.Readable) :
    numeral n.chars = some (n, []) := by
  unfold Number.Readable read text readChars at h
  rw [String.toList_ofList] at h
  have hall := isNumeralChar_chars n
  rw [Json.chars] at h
  generalize n.chars = cs at h hall ⊢
  cases cs with
  | nil => cases h
  | cons c t =>
    rw [List.length_cons, value_of_isNumeralChar (hall c List.mem_cons_self)] at h
    cases hnumeral : numeral (c :: t) with
    | none => simp [hnumeral] at h
    | some read =>
      obtain ⟨m, rest⟩ := read
      have hsub := (numeral_suffix hnumeral).subset
      cases rest with
      | nil =>
        simp only [hnumeral, Option.map_some, skipBlank, List.dropWhile_nil, List.isEmpty_nil,
          if_true, Option.some.injEq, num.injEq] at h
        rw [h]
      | cons d rest =>
        have hd := isBlank_of_isNumeralChar (hall d (hsub List.mem_cons_self))
        simp [hnumeral, skipBlank_of_notBlank hd] at h

theorem Number.readable_iff {n : Json.Number} : n.Readable ↔ numeral n.chars = some (n, []) := by
  refine ⟨Number.Readable.numeral_chars, fun h => ?_⟩
  have hall := isNumeralChar_chars n
  rw [Readable, read, text, String.toList_ofList, readChars, Json.chars]
  generalize n.chars = cs at h hall ⊢
  cases cs with
  | nil => cases h
  | cons c t =>
    rw [value_of_isNumeralChar (hall c List.mem_cons_self), h]
    rfl

instance (n : Json.Number) : Decidable n.Readable := decidable_of_iff _ Number.readable_iff.symm

instance : (n : Json.Number) → Decidable n.Legible
  | .int n => inferInstanceAs (Decidable (Fits n))
  | .double x => inferInstanceAs (Decidable (Number.Readable (.double x)))

theorem Number.Legible.numeral_chars {n : Json.Number} (h : n.Legible) :
    numeral n.chars = some (n, []) := by
  cases n with
  | int n => exact numeral_int h
  | double x => exact Number.Readable.numeral_chars h

/-- The number that is read in the text of a number. -/
def Number.reread (n : Json.Number) : Json.Number := ((numeral n.chars).map Prod.fst).getD n

/-- A number in whose text a number is read, if perhaps another one. -/
def Number.Accepted (n : Json.Number) : Prop := numeral n.chars = some (n.reread, [])

theorem Number.Legible.reread_eq {n : Json.Number} (h : n.Legible) : n.reread = n := by
  rw [reread, h.numeral_chars]
  rfl

theorem Number.Legible.accepted {n : Json.Number} (h : n.Legible) : n.Accepted := by
  rw [Accepted, h.reread_eq, h.numeral_chars]

theorem Number.Accepted.chars_cons {n : Json.Number} (h : n.Accepted) :
    ∃ c rest, n.chars = c :: rest ∧ isNumeralChar c = true := by
  have hall := isNumeralChar_chars n
  unfold Accepted at h
  generalize n.chars = cs at hall h
  cases cs with
  | nil => cases h
  | cons c rest => exact ⟨c, rest, rfl, hall c List.mem_cons_self⟩

/-! ## Values -/

mutual

/-- Levels of nesting. -/
def depth : Json → Nat
  | arr items => depthItems items + 1
  | obj members => depthMembers members + 1
  | _ => 0

def depthItems : List Json → Nat
  | [] => 0
  | v :: rest => max (depth v) (depthItems rest)

def depthMembers : List (String × Json) → Nat
  | [] => 0
  | (_, v) :: rest => max (depth v) (depthMembers rest)

end

mutual

/-- All numbers of a value are legible. -/
def Legible : Json → Prop
  | num n => n.Legible
  | arr items => LegibleItems items
  | obj members => LegibleMembers members
  | _ => True

def LegibleItems : List Json → Prop
  | [] => True
  | v :: rest => Legible v ∧ LegibleItems rest

def LegibleMembers : List (String × Json) → Prop
  | [] => True
  | (_, v) :: rest => Legible v ∧ LegibleMembers rest

end

mutual

instance decidableLegible : (v : Json) → Decidable v.Legible
  | null | bool _ | str _ => .isTrue trivial
  | num n => inferInstanceAs (Decidable n.Legible)
  | arr items => decidableLegibleItems items
  | obj members => decidableLegibleMembers members

instance decidableLegibleItems : (items : List Json) → Decidable (LegibleItems items)
  | [] => .isTrue trivial
  | v :: rest => @instDecidableAnd _ _ (decidableLegible v) (decidableLegibleItems rest)

instance decidableLegibleMembers :
    (members : List (String × Json)) → Decidable (LegibleMembers members)
  | [] => .isTrue trivial
  | (_, v) :: rest => @instDecidableAnd _ _ (decidableLegible v) (decidableLegibleMembers rest)

end

mutual

/-- All numbers of a value are such. -/
def Numbers (p : Json.Number → Prop) : Json → Prop
  | num n => p n
  | arr items => ItemNumbers p items
  | obj members => MemberNumbers p members
  | _ => True

def ItemNumbers (p : Json.Number → Prop) : List Json → Prop
  | [] => True
  | v :: rest => Numbers p v ∧ ItemNumbers p rest

def MemberNumbers (p : Json.Number → Prop) : List (String × Json) → Prop
  | [] => True
  | (_, v) :: rest => Numbers p v ∧ MemberNumbers p rest

end

mutual

instance decidableNumbers (p : Json.Number → Prop) [DecidablePred p] :
    (v : Json) → Decidable (v.Numbers p)
  | null | bool _ | str _ => .isTrue trivial
  | num n => inferInstanceAs (Decidable (p n))
  | arr items => decidableItemNumbers p items
  | obj members => decidableMemberNumbers p members

instance decidableItemNumbers (p : Json.Number → Prop) [DecidablePred p] :
    (items : List Json) → Decidable (ItemNumbers p items)
  | [] => .isTrue trivial
  | v :: rest => @instDecidableAnd _ _ (decidableNumbers p v) (decidableItemNumbers p rest)

instance decidableMemberNumbers (p : Json.Number → Prop) [DecidablePred p] :
    (members : List (String × Json)) → Decidable (MemberNumbers p members)
  | [] => .isTrue trivial
  | (_, v) :: rest => @instDecidableAnd _ _ (decidableNumbers p v) (decidableMemberNumbers p rest)

end

mutual

theorem Numbers.imp {p q : Json.Number → Prop} (hpq : ∀ n, p n → q n) :
    ∀ {v : Json}, v.Numbers p → v.Numbers q
  | null, _ | bool _, _ | str _, _ => trivial
  | num n, h => hpq n h
  | arr items, h => @ItemNumbers.imp p q hpq items h
  | obj members, h => @MemberNumbers.imp p q hpq members h

theorem ItemNumbers.imp {p q : Json.Number → Prop} (hpq : ∀ n, p n → q n) :
    ∀ {items : List Json}, ItemNumbers p items → ItemNumbers q items
  | [], _ => trivial
  | _ :: _, h => ⟨h.1.imp hpq, h.2.imp hpq⟩

theorem MemberNumbers.imp {p q : Json.Number → Prop} (hpq : ∀ n, p n → q n) :
    ∀ {members : List (String × Json)}, MemberNumbers p members → MemberNumbers q members
  | [], _ => trivial
  | (_, _) :: _, h => ⟨h.1.imp hpq, h.2.imp hpq⟩

end

mutual

/-- The value with each number replaced by the one that is read in its text. -/
def reread : Json → Json
  | num n => num n.reread
  | arr items => arr (rereadItems items)
  | obj members => obj (rereadMembers members)
  | v => v

def rereadItems : List Json → List Json
  | [] => []
  | v :: rest => reread v :: rereadItems rest

def rereadMembers : List (String × Json) → Members
  | [] => []
  | (name, v) :: rest => (name, reread v) :: rereadMembers rest

end

theorem rereadItems_eq_map (items : List Json) : rereadItems items = items.map reread := by
  induction items with
  | nil => rfl
  | cons v rest ih => rw [rereadItems, List.map_cons, ih]

mutual

theorem Legible.numbers : ∀ {v : Json}, v.Legible → v.Numbers Number.Legible
  | null, _ | bool _, _ | str _, _ => trivial
  | num _, h => h
  | arr items, h => @LegibleItems.numbers items h
  | obj members, h => @LegibleMembers.numbers members h

theorem LegibleItems.numbers : ∀ {items : List Json}, LegibleItems items →
    ItemNumbers Number.Legible items
  | [], _ => trivial
  | _ :: _, h => ⟨h.1.numbers, h.2.numbers⟩

theorem LegibleMembers.numbers : ∀ {members : List (String × Json)}, LegibleMembers members →
    MemberNumbers Number.Legible members
  | [], _ => trivial
  | (_, _) :: _, h => ⟨h.1.numbers, h.2.numbers⟩

end

theorem Legible.accepted {v : Json} (h : v.Legible) : v.Numbers Number.Accepted :=
  h.numbers.imp fun _ => Number.Legible.accepted

mutual

theorem Legible.reread_eq : ∀ {v : Json}, v.Legible → v.reread = v
  | null, _ | bool _, _ | str _, _ => rfl
  | num _, h => by rw [reread, Number.Legible.reread_eq h]
  | arr items, h => by rw [reread, @LegibleItems.reread_eq items h]
  | obj members, h => by rw [reread, @LegibleMembers.reread_eq members h]

theorem LegibleItems.reread_eq : ∀ {items : List Json}, LegibleItems items →
    rereadItems items = items
  | [], _ => rfl
  | _ :: _, h => by rw [rereadItems, h.1.reread_eq, h.2.reread_eq]

theorem LegibleMembers.reread_eq : ∀ {members : List (String × Json)}, LegibleMembers members →
    rereadMembers members = members
  | [], _ => rfl
  | (_, _) :: _, h => by rw [rereadMembers, h.1.reread_eq, h.2.reread_eq]

end

/-- A text begins with a character that is no blank and closes no array. -/
def Begins (s : List Char) : Prop := ∃ c rest, s = c :: rest ∧ isBlank c = false ∧ c ≠ ']'

theorem Begins.append {s : List Char} (h : Begins s) (rest : List Char) : Begins (s ++ rest) := by
  obtain ⟨c, t, rfl, hc⟩ := h
  exact ⟨c, t ++ rest, rfl, hc⟩

theorem begins_chars {v : Json} (h : v.Numbers Number.Accepted) : Begins (chars v) := by
  cases v with
  | null => exact ⟨_, _, rfl, rfl, by decide⟩
  | bool b => cases b <;> exact ⟨_, _, rfl, rfl, by decide⟩
  | num n =>
    obtain ⟨c, rest, hcons, hc⟩ := Number.Accepted.chars_cons h
    refine ⟨c, rest, hcons, isBlank_of_isNumeralChar hc, ?_⟩
    rintro rfl
    exact absurd hc (by decide)
  | str s => exact ⟨_, _, rfl, rfl, by decide⟩
  | arr items => exact ⟨_, _, rfl, rfl, by decide⟩
  | obj members => exact ⟨_, _, rfl, rfl, by decide⟩

theorem value_num {n : Json.Number} (h : n.Accepted) (fuel limit : Nat) {rest : List Char}
    (hrest : Follows rest) :
    value (fuel + 1) limit (n.chars ++ rest) = some (num n.reread, rest) := by
  obtain ⟨c, t, hcons, hc⟩ := h.chars_cons
  have hnumeral := numeral_append n.chars hrest
  rw [show numeral n.chars = some (n.reread, []) from h] at hnumeral
  rw [hcons, List.cons_append] at hnumeral ⊢
  rw [value_of_isNumeralChar hc, hnumeral]
  rfl

theorem value_str (s : String) (fuel limit : Nat) (rest : List Char) :
    value (fuel + 1) limit (quoted s ++ rest) = some (str s, rest) := by
  rw [quoted_append, value, skipBlank_of_notBlank (by decide)]
  simp only [string_quoted, Option.map_some]

theorem value_arr (fuel limit : Nat) {s : List Char} (h : Begins s) :
    value (fuel + 1) (limit + 1) ('[' :: s) = items fuel limit [] s := by
  obtain ⟨c, t, rfl, hblank, hclose⟩ := h
  rw [value, skipBlank_of_notBlank (by decide)]
  simp only [skipBlank_of_notBlank hblank]
  split
  · rename_i heq
    cases heq
    exact absurd rfl hclose
  · rfl

theorem value_obj (fuel limit : Nat) (s : List Char) :
    value (fuel + 1) (limit + 1) ('\x7b' :: '"' :: s) = members fuel limit [] ('"' :: s) := by
  rw [value, skipBlank_of_notBlank (by decide)]
  simp only [skipBlank_of_notBlank (c := '"') (by decide)]
  rfl

section

variable {fuel limit : Nat} {v : Json} {s rest : List Char}

theorem items_comma (acc : List Json) (h : value fuel limit s = some (v, ',' :: rest)) :
    items (fuel + 1) limit acc s = items fuel limit (v :: acc) rest := by
  rw [items, h]
  simp only [skipBlank_of_notBlank (c := ',') (by decide)]

theorem items_close (acc : List Json) (h : value fuel limit s = some (v, ']' :: rest)) :
    items (fuel + 1) limit acc s = some (arr (acc.reverse ++ [v]), rest) := by
  rw [items, h]
  simp only [skipBlank_of_notBlank (c := ']') (by decide), List.reverse_cons]

theorem members_comma (acc : Members) (name : String)
    (h : value fuel limit s = some (v, ',' :: rest)) :
    members (fuel + 1) limit acc (quoted name ++ ':' :: s) =
      members fuel limit ((name, v) :: acc) rest := by
  rw [quoted_append, members]
  simp only [skipBlank_of_notBlank (c := '"') (by decide), string_quoted,
    skipBlank_of_notBlank (c := ':') (by decide), h, skipBlank_of_notBlank (c := ',') (by decide)]

theorem members_close (acc : Members) (name : String)
    (h : value fuel limit s = some (v, '\x7d' :: rest)) :
    members (fuel + 1) limit acc (quoted name ++ ':' :: s) =
      some (obj (acc.reverse ++ [(name, v)]), rest) := by
  rw [quoted_append, members]
  simp only [skipBlank_of_notBlank (c := '"') (by decide), string_quoted,
    skipBlank_of_notBlank (c := ':') (by decide), h,
    skipBlank_of_notBlank (c := '\x7d') (by decide), List.reverse_cons]

end

theorem follows_cons {c : Char} (hc : c = ',' ∨ c = ']' ∨ c = '\x7d') (rest : List Char) :
    Follows (c :: rest) := fun _ heq => Option.some.inj heq ▸ hc

theorem chars_length_pos {v : Json} (hv : v.Numbers Number.Accepted) : 0 < (chars v).length := by
  obtain ⟨c, t, hcons, -⟩ := begins_chars hv
  rw [hcons, List.length_cons]
  omega

mutual

-- the recursion is the parser's own, on the fuel
theorem value_chars : ∀ (fuel limit : Nat) {v : Json}, v.Numbers Number.Accepted →
    2 * (chars v).length ≤ fuel → v.depth ≤ limit → ∀ {rest : List Char}, Follows rest →
    value fuel limit (chars v ++ rest) = some (v.reread, rest)
  | 0, _, _, hv, hfuel, _, _, _ => by
    have := chars_length_pos hv
    omega
  | _ + 1, _, null, _, _, _, _, _ => rfl
  | _ + 1, _, bool true, _, _, _, _, _ => rfl
  | _ + 1, _, bool false, _, _, _, _, _ => rfl
  | fuel + 1, limit, num _, hv, _, _, _, hrest => value_num hv fuel limit hrest
  | fuel + 1, limit, str s, _, _, _, rest, _ => value_str s fuel limit rest
  | _ + 1, 0, arr _, _, _, hdepth, _, _ => absurd hdepth (by simp [depth])
  | _ + 1, 0, obj _, _, _, hdepth, _, _ => absurd hdepth (by simp [depth])
  | _ + 1, _ + 1, arr [], _, _, _, _, _ => rfl
  | _ + 1, _ + 1, obj [], _, _, _, _, _ => rfl
  | fuel + 1, limit + 1, arr (w :: items), hv, hfuel, hdepth, rest, _ => by
    rw [depth] at hdepth
    rw [chars, List.length_append, List.length_cons, List.length_singleton] at hfuel
    have hbegins : Begins (itemChars (w :: items) ++ ']' :: rest) :=
      ((begins_chars hv.1).append _).append _
    rw [chars, List.cons_append, List.cons_append, List.append_assoc, List.singleton_append,
      value_arr fuel limit hbegins]
    exact items_chars fuel limit hv.1 hv.2 (by omega) (by omega) [] rest
  | fuel + 1, limit + 1, obj ((name, w) :: members), hv, hfuel, hdepth, rest, _ => by
    rw [depth] at hdepth
    rw [chars, List.length_append, List.length_cons, List.length_singleton] at hfuel
    obtain ⟨t, hquote⟩ : ∃ t, memberChars ((name, w) :: members) ++ '\x7d' :: rest = '"' :: t :=
      ⟨_, rfl⟩
    rw [chars, List.cons_append, List.cons_append, List.append_assoc, List.singleton_append,
      hquote, value_obj, ← hquote]
    exact members_chars fuel limit name hv.1 hv.2 (by omega) (by omega) [] rest

theorem items_chars : ∀ (fuel limit : Nat) {v : Json} {items : List Json},
    v.Numbers Number.Accepted → ItemNumbers Number.Accepted items →
    2 * (itemChars (v :: items)).length < fuel → depthItems (v :: items) ≤ limit →
    ∀ (acc : List Json) (rest : List Char),
    Json.items fuel limit acc (itemChars (v :: items) ++ ']' :: rest) =
      some (arr (acc.reverse ++ rereadItems (v :: items)), rest)
  | 0, _, _, _, _, _, hfuel, _, _, _ => absurd hfuel (Nat.not_lt_zero _)
  | fuel + 1, limit, v, [], hv, _, hfuel, hdepth, acc, rest => by
    rw [itemChars, List.length_append] at hfuel
    rw [depthItems] at hdepth
    rw [itemChars, List.append_assoc]
    exact items_close acc
      (value_chars fuel limit hv (by omega) (by omega) (follows_cons (by decide) rest))
  | fuel + 1, limit, v, w :: items, hv, hitems, hfuel, hdepth, acc, rest => by
    rw [itemChars, moreItemChars, List.length_append, List.cons_append, List.length_cons] at hfuel
    rw [depthItems] at hdepth
    have hvalue := value_chars fuel limit hv (by omega) (by omega)
      (follows_cons (c := ',') (by decide) (itemChars (w :: items) ++ ']' :: rest))
    have hmore := items_chars fuel limit hitems.1 hitems.2
      (by rw [itemChars]; omega) (by omega) (v.reread :: acc) rest
    rw [itemChars, moreItemChars, List.append_assoc]
    exact (items_comma acc hvalue).trans (by rw [hmore]; simp [rereadItems])

theorem members_chars : ∀ (fuel limit : Nat) (name : String) {v : Json}
    {members : List (String × Json)}, v.Numbers Number.Accepted →
    MemberNumbers Number.Accepted members →
    2 * (memberChars ((name, v) :: members)).length < fuel →
    depthMembers ((name, v) :: members) ≤ limit → ∀ (acc : Members) (rest : List Char),
    Json.members fuel limit acc (memberChars ((name, v) :: members) ++ '\x7d' :: rest) =
      some (obj (acc.reverse ++ rereadMembers ((name, v) :: members)), rest)
  | 0, _, _, _, _, _, _, hfuel, _, _, _ => absurd hfuel (Nat.not_lt_zero _)
  | fuel + 1, limit, name, v, [], hv, _, hfuel, hdepth, acc, rest => by
    rw [memberChars, List.length_append, List.length_append, List.length_cons] at hfuel
    rw [depthMembers] at hdepth
    rw [memberChars, List.append_assoc, List.append_assoc, List.cons_append]
    exact members_close acc name
      (value_chars fuel limit hv (by omega) (by omega) (follows_cons (by decide) rest))
  | fuel + 1, limit, name, v, (name', w) :: members, hv, hmembers, hfuel, hdepth, acc, rest => by
    rw [memberChars, moreMemberChars, List.length_append, List.length_append, List.length_cons,
      List.cons_append, List.cons_append, List.length_cons] at hfuel
    rw [depthMembers] at hdepth
    have hvalue := value_chars fuel limit hv (by omega) (by omega)
      (follows_cons (c := ',') (by decide) (memberChars ((name', w) :: members) ++ '\x7d' :: rest))
    have hmore := members_chars fuel limit name' hmembers.1 hmembers.2
      (by rw [memberChars]; omega) (by omega) ((name, v.reread) :: acc) rest
    rw [memberChars, moreMemberChars, List.append_assoc, List.append_assoc, List.cons_append]
    exact (members_comma acc name hvalue).trans (by rw [hmore]; simp [rereadMembers])

end

theorem readChars_chars {v : Json} (hv : v.Numbers Number.Accepted) (hdepth : v.depth ≤ maxDepth) :
    readChars (chars v) = some v.reread := by
  have hvalue := value_chars (2 * (chars v).length + 2) maxDepth hv (by omega) hdepth follows_nil
  rw [List.append_nil] at hvalue
  rw [readChars, hvalue]
  rfl

/-- A printed value is read back. -/
theorem read_text {v : Json} (hv : v.Legible) (hdepth : v.depth ≤ maxDepth) :
    read v.text = some v := by
  rw [read, text, String.toList_ofList, readChars_chars hv.accepted hdepth, hv.reread_eq]

/-- Values whose numbers are read back are told apart by their texts. -/
theorem chars_inj {v w : Json} (hv : v.Legible) (hw : w.Legible) (h : chars v = chars w) :
    v = w := by
  have hread {u : Json} (hu : u.Legible) (hdepth : u.depth ≤ max v.depth w.depth) :
      value (2 * (chars u).length) (max v.depth w.depth) (chars u) = some (u, []) := by
    have := value_chars _ _ hu.accepted (Nat.le_refl _) hdepth follows_nil
    rwa [List.append_nil, hu.reread_eq] at this
  have hsame := hread hv (Nat.le_max_left _ _)
  rw [h, hread hw (Nat.le_max_right _ _)] at hsame
  cases hsame
  rfl

/-! ## Line feeds -/

theorem hexDigit_ne_lf (n : Nat) : hexDigit n ≠ '\n' := by
  have hall : ∀ m < 16, Nat.digitChar m ≠ '\n' := by decide
  exact hall _ (Nat.mod_lt _ (by decide))

theorem lf_notMem_escapeChar (c : Char) : '\n' ∉ escapeChar c := by
  unfold escapeChar
  simp only
  split
  · decide
  split
  · decide
  split
  · rename_i hplain
    intro hmem
    rw [List.mem_singleton] at hmem
    rw [← hmem] at hplain
    exact absurd hplain (by decide)
  iterate 5
    split
    · decide
  intro hmem
  simp only [List.mem_cons, List.not_mem_nil, or_false, (hexDigit_ne_lf _).symm] at hmem
  revert hmem
  decide

theorem lf_notMem_quoted (s : String) : '\n' ∉ quoted s := by
  have hmiddle : '\n' ∉ s.toList.flatMap escapeChar := fun hmem => by
    obtain ⟨c, -, hc⟩ := List.mem_flatMap.mp hmem
    exact lf_notMem_escapeChar c hc
  simp [quoted, hmiddle]

theorem lf_notMem_numeral (n : Json.Number) : '\n' ∉ n.chars := fun hmem =>
  absurd (isNumeralChar_chars n _ hmem) (by decide)

mutual

theorem lf_notMem_chars : ∀ v : Json, '\n' ∉ chars v
  | null | bool true | bool false => by decide
  | num n => lf_notMem_numeral n
  | str s => lf_notMem_quoted s
  | arr items => by
    have := lf_notMem_itemChars items
    simpa [chars] using this
  | obj members => by
    have := lf_notMem_memberChars members
    simpa [chars] using this

theorem lf_notMem_itemChars : ∀ items : List Json, '\n' ∉ itemChars items
  | [] => by simp [itemChars]
  | v :: rest => by
    have hv := lf_notMem_chars v
    have hrest := lf_notMem_moreItemChars rest
    simp [itemChars, hv, hrest]

theorem lf_notMem_moreItemChars : ∀ items : List Json, '\n' ∉ moreItemChars items
  | [] => by simp [moreItemChars]
  | v :: rest => by
    have hv := lf_notMem_chars v
    have hrest := lf_notMem_moreItemChars rest
    simp [moreItemChars, hv, hrest]

theorem lf_notMem_memberChars : ∀ members : List (String × Json), '\n' ∉ memberChars members
  | [] => by simp [memberChars]
  | (name, v) :: rest => by
    have hname := lf_notMem_quoted name
    have hv := lf_notMem_chars v
    have hrest := lf_notMem_moreMemberChars rest
    simp [memberChars, hname, hv, hrest]

theorem lf_notMem_moreMemberChars :
    ∀ members : List (String × Json), '\n' ∉ moreMemberChars members
  | [] => by simp [moreMemberChars]
  | (name, v) :: rest => by
    have hname := lf_notMem_quoted name
    have hv := lf_notMem_chars v
    have hrest := lf_notMem_moreMemberChars rest
    simp [moreMemberChars, hname, hv, hrest]

end

/-! ## Members in order -/

mutual

/-- Members stand in the order of their names, at every level, and no name stands twice. -/
def Ordered : Json → Prop
  | arr items => OrderedItems items
  | obj members => (members.map Prod.fst).Pairwise (· < ·) ∧ OrderedMembers members
  | _ => True

def OrderedItems : List Json → Prop
  | [] => True
  | v :: rest => Ordered v ∧ OrderedItems rest

def OrderedMembers : List (String × Json) → Prop
  | [] => True
  | (_, v) :: rest => Ordered v ∧ OrderedMembers rest

end

mutual

instance decidableOrdered : (v : Json) → Decidable v.Ordered
  | null | bool _ | num _ | str _ => .isTrue trivial
  | arr items => decidableOrderedItems items
  | obj members => @instDecidableAnd _ _ inferInstance (decidableOrderedMembers members)

instance decidableOrderedItems : (items : List Json) → Decidable (OrderedItems items)
  | [] => .isTrue trivial
  | v :: rest => @instDecidableAnd _ _ (decidableOrdered v) (decidableOrderedItems rest)

instance decidableOrderedMembers :
    (members : List (String × Json)) → Decidable (OrderedMembers members)
  | [] => .isTrue trivial
  | (_, v) :: rest => @instDecidableAnd _ _ (decidableOrdered v) (decidableOrderedMembers rest)

end

theorem insert_last {name : String} {v : Json} {members : Members}
    (h : ∀ n ∈ members.map Prod.fst, n < name) :
    insert name v members = members ++ [(name, v)] := by
  induction members with
  | nil => rfl
  | cons member rest ih =>
    obtain ⟨n, w⟩ := member
    rw [List.map_cons, List.forall_mem_cons] at h
    rw [insert, if_neg (String.lt_asymm h.1), if_pos h.1, ih h.2, List.cons_append]

mutual

theorem canonical_of_ordered : ∀ {v : Json}, v.Ordered → v.canonical = v
  | null, _ | bool _, _ | num _, _ | str _, _ => rfl
  | arr items, h => by rw [canonical, canonicalItems_of_ordered h]
  | obj members, h => by rw [canonical, canonicalMembers_of_ordered [] h.1 h.2, List.nil_append]

theorem canonicalItems_of_ordered : ∀ {items : List Json}, OrderedItems items →
    canonicalItems items = items
  | [], _ => rfl
  | v :: rest, h => by
    rw [canonicalItems, canonical_of_ordered h.1, canonicalItems_of_ordered h.2]

theorem canonicalMembers_of_ordered : ∀ {members : List (String × Json)} (acc : Members),
    ((acc ++ members).map Prod.fst).Pairwise (· < ·) → OrderedMembers members →
    canonicalMembers acc members = acc ++ members
  | [], acc, _, _ => (List.append_nil acc).symm
  | (name, v) :: rest, acc, hnames, h => by
    have hlast : ∀ n ∈ acc.map Prod.fst, n < name := fun n hn => by
      rw [List.map_append, List.pairwise_append] at hnames
      exact hnames.2.2 n hn name List.mem_cons_self
    rw [canonicalMembers, canonical_of_ordered h.1, insert_last hlast,
      canonicalMembers_of_ordered (acc ++ [(name, v)]) (by simpa using hnames) h.2]
    simp

end

theorem names_rereadMembers (members : List (String × Json)) :
    (rereadMembers members).map Prod.fst = members.map Prod.fst := by
  induction members with
  | nil => rfl
  | cons member rest ih => rw [rereadMembers, List.map_cons, List.map_cons, ih]

mutual

theorem Ordered.reread : ∀ {v : Json}, v.Ordered → v.reread.Ordered
  | null, _ | bool _, _ | num _, _ | str _, _ => trivial
  | arr items, h => @OrderedItems.reread items h
  | obj members, h =>
    ⟨by rw [names_rereadMembers]; exact h.1, @OrderedMembers.reread members h.2⟩

theorem OrderedItems.reread : ∀ {items : List Json}, OrderedItems items →
    OrderedItems (rereadItems items)
  | [], _ => trivial
  | _ :: _, h => ⟨h.1.reread, h.2.reread⟩

theorem OrderedMembers.reread : ∀ {members : List (String × Json)}, OrderedMembers members →
    OrderedMembers (rereadMembers members)
  | [], _ => trivial
  | (_, _) :: _, h => ⟨h.1.reread, h.2.reread⟩

end

/-- A printed value with its members in order is parsed as itself, up to its numbers. -/
theorem parseChars_chars {v : Json} (hv : v.Numbers Number.Accepted) (ho : v.Ordered)
    (hdepth : v.depth ≤ maxDepth) : parseChars (chars v) = some v.reread := by
  rw [parseChars, readChars_chars hv hdepth, Option.map_some, canonical_of_ordered ho.reread]

end Wiretap.Json
