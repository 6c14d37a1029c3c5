import Wiretap.Proofs.Json.Members
import Wiretap.Tap.Arguments

/-!
# Arguments are decoded from their encoding

`Encodes` says how a value is written as an argument of a call: the length of a list tells the
type, an object is written as its members in any order, and an item of an array may stand within
any number of one-item lists. What is written so is decoded to the value it stands for
(`typed_of_encodes`, `arrayItem_of_encodes`), so that the arguments of a call are the object that
was encoded, within up to nine one-item lists, and none within more (`arguments_of_encodes`).
-/

namespace Wiretap.Tap

/-- A value within one-item lists. -/
def nested : Nat → Json → Json
  | 0, v => v
  | levels + 1, v => .arr [nested levels v]

mutual

/-- A value and the typed value that it is written as. -/
inductive Encodes : Json → Json → Prop
  | null : Encodes .null (.arr [.null])
  | num (n : Json.Number) : Encodes (.num n) (.arr [.null, .num n])
  | str (s : String) : Encodes (.str s) (.arr [.null, .null, .str s])
  | bool (b : Bool) :
      Encodes (.bool b) (.arr [.null, .null, .null, .ofInt (if b then 1 else 0)])
  | obj {members written : Json.Members} {pairs : List Json} (hw : written.Perm members)
      (h : EncodesMembers written pairs) :
      Encodes (.obj members) (.arr [.null, .null, .null, .null, .arr pairs])
  | arr {items encoded : List Json} (h : EncodesItems items encoded) :
      Encodes (.arr items) (.arr [.null, .null, .null, .null, .null, .arr encoded])

/-- Members, and the pairs of a name and a typed value. -/
inductive EncodesMembers : Json.Members → List Json → Prop
  | nil : EncodesMembers [] []
  | cons (name : String) {v e : Json} {members : Json.Members} {pairs : List Json}
      (h : Encodes v e) (hs : EncodesMembers members pairs) :
      EncodesMembers ((name, v) :: members) (.arr [.str name, e] :: pairs)

/-- Items of an array, and their typed values within any number of one-item lists. -/
inductive EncodesItems : List Json → List Json → Prop
  | nil : EncodesItems [] []
  | cons {v e : Json} (levels : Nat) {items encoded : List Json}
      (h : Encodes v e) (hs : EncodesItems items encoded) :
      EncodesItems (v :: items) (nested levels e :: encoded)

end

/-! ## Lists that are no list of pairs -/

theorem isParamList_single (v : Json) : isParamList [.arr [v]] = false := by
  cases v <;> rfl

theorem isParamList_nested {pairs : List Json} (h : ∀ s ∈ pairs.head?, s.isString = false)
    (levels : Nat) : isParamList [nested levels (.arr pairs)] = false := by
  cases levels with
  | zero =>
    cases pairs with
    | nil => rfl
    | cons first rest =>
      cases first with
      | str s => cases h (.str s) rfl
      | _ => rfl
  | succ levels => exact isParamList_single _

theorem isString_head?_pairs {members : Json.Members} {pairs : List Json}
    (h : EncodesMembers members pairs) : ∀ s ∈ pairs.head?, s.isString = false := by
  cases h with
  | nil => nofun
  | cons name h hs =>
    rintro _ ⟨⟩
    rfl

theorem params_pairs {members : Json.Members} {pairs : List Json}
    (h : EncodesMembers members pairs) (levels : Nat) :
    params (levels + 1) (.arr pairs) = paramList [] pairs := by
  rw [params, if_neg (Nat.succ_ne_zero levels)]
  cases h with
  | nil => rw [paramsIn, paramList]
  | cons name h hs =>
    rw [paramsIn]
    exact if_pos rfl

/-- Each one-item list takes one level. -/
theorem params_nested {pairs : List Json} (h : ∀ s ∈ pairs.head?, s.isString = false)
    (levels n : Nat) :
    params levels (nested n (.arr pairs)) = params (levels - n) (.arr pairs) := by
  induction n generalizing levels with
  | zero => rfl
  | succ n ih =>
    cases levels with
    | zero => rw [nested, params, Nat.zero_sub, params, if_pos rfl, if_pos rfl]
    | succ levels =>
      rw [nested, params, if_neg (Nat.succ_ne_zero levels), paramsIn,
        if_neg (by rw [isParamList_nested h]; decide), ih, Nat.add_sub_cancel,
        Nat.add_sub_add_right]

theorem params_zero (items : List Json) : params 0 (.arr items) = [] := by
  rw [params, if_pos rfl]

/-! ## Decoding what was encoded -/

theorem Encodes.eq_arr {v e : Json} (h : Encodes v e) : ∃ rest, e = .arr (.null :: rest) := by
  cases h <;> exact ⟨_, rfl⟩

theorem isArray_nested (items : List Json) (levels : Nat) :
    (nested levels (.arr items)).isArray = true := by
  cases levels <;> rfl

/-- A typed value begins with no name, so the lists around it are no list of pairs. -/
theorem arrayItem_nested {v e : Json} (h : Encodes v e) (levels : Nat) :
    arrayItem (nested levels e) = arrayItem e := by
  obtain ⟨rest, rfl⟩ := h.eq_arr
  induction levels with
  | zero => rfl
  | succ levels ih =>
    have hlist : isParamList [nested levels (.arr (.null :: rest))] = false :=
      isParamList_nested (by rintro _ ⟨⟩; rfl) levels
    rw [nested, arrayItem, if_neg (by rw [hlist]; decide)]
    simp only [isArray_nested, if_true, ih]

mutual

theorem typed_of_encodes : ∀ {v e : Json}, Encodes v e → v.Ordered → typed e = v
  | _, _, .null, _ | _, _, .num _, _ | _, _, .str _, _ => by rw [typed]
  | _, _, .bool b, _ => by cases b <;> rw [typed] <;> rfl
  | _, _, .obj hw h, ho => by
    rw [typed, maxLevels, params_pairs h, paramList_of_encodes [] h fun m hm =>
      Json.orderedMembers_iff.mp ho.2 m (hw.subset hm), Json.inserted_of_perm hw ho.1]
  | _, _, .arr h, ho => by rw [typed, arrayItems_of_encodes h ho]

theorem arrayItem_of_encodes : ∀ {v e : Json}, Encodes v e → v.Ordered → arrayItem e = v
  | _, _, .null, _ | _, _, .num _, _ | _, _, .str _, _ => by rw [arrayItem]; rfl
  | _, _, .bool b, _ => by cases b <;> rw [arrayItem] <;> rfl
  | _, _, .obj hw h, ho => by
    rw [arrayItem, maxLevels, params_pairs h, paramList_of_encodes [] h fun m hm =>
      Json.orderedMembers_iff.mp ho.2 m (hw.subset hm), Json.inserted_of_perm hw ho.1]
    rfl
  | _, _, .arr h, ho => by
    rw [arrayItem, arrayItems_of_encodes h ho]
    rfl

theorem paramList_of_encodes : ∀ {members : Json.Members} {pairs : List Json}
    (acc : Json.Members), EncodesMembers members pairs → (∀ m ∈ members, m.2.Ordered) →
    paramList acc pairs = Json.inserted acc members
  | _, _, _, .nil, _ => by rw [paramList]; rfl
  | _, _, acc, .cons name h hs, ho => by
    rw [List.forall_mem_cons] at ho
    rw [paramList, typed_of_encodes h ho.1, paramList_of_encodes _ hs ho.2]
    rfl

theorem arrayItems_of_encodes : ∀ {items encoded : List Json}, EncodesItems items encoded →
    Json.OrderedItems items → arrayItems encoded = items
  | _, _, .nil, _ => by rw [arrayItems]
  | _, _, .cons levels h hs, ho => by
    rw [arrayItems, arrayItem_nested h, arrayItem_of_encodes h ho.1, arrayItems_of_encodes hs ho.2]

end

/-- The arguments of a call are the object they were encoded from, unless they stand within too
many lists. -/
theorem arguments_of_encodes {members written : Json.Members} {pairs : List Json}
    (ho : (Json.obj members).Ordered) (hw : written.Perm members)
    (h : EncodesMembers written pairs) (levels : Nat) :
    (levels ≤ 9 → arguments (nested levels (.arr pairs)) = members) ∧
    (9 < levels → arguments (nested levels (.arr pairs)) = []) := by
  rw [arguments, params_nested (isString_head?_pairs h)]
  constructor
  · intro hle
    rw [show maxLevels - levels = 9 - levels + 1 by unfold maxLevels; omega, params_pairs h,
      paramList_of_encodes [] h fun m hm => Json.orderedMembers_iff.mp ho.2 m (hw.subset hm),
      Json.inserted_of_perm hw ho.1]
  · intro hlt
    rw [Nat.sub_eq_zero_of_le (show maxLevels ≤ levels from hlt), params_zero]

/-- An object with objects and arrays in it, some of them empty. -/
def wanted : Json.Members :=
  [("filters", .obj [("lang", .str "en")]), ("none", .null),
    ("tags", .arr [.str "a", .ofInt 2, .arr [], .obj [], .obj [("k", .bool false)]])]

/-- Its pairs in another order, with items of the array within none to three lists. -/
def wantedPairs : List Json :=
  [.arr [.str "tags", .arr [.null, .null, .null, .null, .null, .arr
      [.arr [.null, .null, .str "a"], .arr [.arr [.arr [.null, .ofInt 2]]],
        .arr [.arr [.null, .null, .null, .null, .null, .arr []]],
        .arr [.arr [.arr [.arr [.null, .null, .null, .null, .arr []]]]],
        .arr [.arr [.null, .null, .null, .null,
          .arr [.arr [.str "k", .arr [.null, .null, .null, .ofInt 0]]]]]]]],
    .arr [.str "none", .arr [.null]],
    .arr [.str "filters", .arr [.null, .null, .null, .null,
      .arr [.arr [.str "lang", .arr [.null, .null, .str "en"]]]]]]

theorem encodes_wanted : EncodesMembers wanted.reverse wantedPairs :=
  .cons "tags"
    (.arr (.cons 0 (.str "a") (.cons 2 (.num (.int 2)) (.cons 1 (.arr .nil)
      (.cons 3 (.obj .nil .nil) (.cons 1 (.obj (.refl _) (.cons "k" (.bool false) .nil))
        .nil))))))
    (.cons "none" .null (.cons "filters" (.obj (.refl _) (.cons "lang" (.str "en") .nil)) .nil))

theorem arguments_of_encodes_wanted :
    (Json.obj wanted).Ordered ∧ wanted.reverse.Perm wanted ∧
    EncodesMembers wanted.reverse wantedPairs ∧
    (9 ≤ 9 → arguments (nested 9 (.arr wantedPairs)) = wanted) ∧
    (9 < 10 → arguments (nested 10 (.arr wantedPairs)) = []) := by
  have ho : (Json.obj wanted).Ordered := by decide +kernel
  have hw : wanted.reverse.Perm wanted := List.reverse_perm wanted
  exact ⟨ho, hw, encodes_wanted, (arguments_of_encodes ho hw encodes_wanted 9).1,
    (arguments_of_encodes ho hw encodes_wanted 10).2⟩

end Wiretap.Tap
