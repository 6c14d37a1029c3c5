import Mathlib.Data.List.TakeWhile
import Wiretap.Proofs.Occurrence
import Wiretap.Text.Base64

/-!
# Base64 is decoded

A Base64 text is a row of numbers of six bits, each written as its character, and padded to a
multiple of four characters (`base64_eq_sextets`). So it is decoded to the bytes it was made of,
whatever their number (`base64Decode?_base64`).
-/

namespace Wiretap.Text

def base64Alphabet : List Char :=
  "ABCDEFGHIJKLMNOPQRSTUVWXYZabcdefghijklmnopqrstuvwxyz0123456789+/".toList

/-- The six bits that a character stands for. -/
def sixBits? (c : Char) : Option Nat := base64Alphabet.findIdx? (· == c)

/-- The bytes of a row of six bits each. The last group may be short of one or two of them, and
what it has beyond whole bytes is zero. -/
def ofSextets? : List Nat → Option Bytes
  | [] => some []
  | [_] => none
  | [a, b] =>
    let n := 64 * a + b
    if n % 16 = 0 then some [(n / 16).toUInt8] else none
  | [a, b, c] =>
    let n := 4096 * a + 64 * b + c
    if n % 4 = 0 then some [(n / 1024).toUInt8, (n / 4 % 256).toUInt8] else none
  | a :: b :: c :: d :: rest =>
    let n := 262144 * a + 4096 * b + 64 * c + d
    (ofSextets? rest).map fun s =>
      (n / 65536).toUInt8 :: (n / 256 % 256).toUInt8 :: (n % 256).toUInt8 :: s

/-- The bytes of a text in the standard alphabet that is padded to a multiple of four. -/
def base64Decode? (cs : List Char) : Option Bytes :=
  let digits := cs.takeWhile (· != '=')
  if cs = digits ++ List.replicate (3 * digits.length % 4) '=' then
    (digits.mapM sixBits?).bind ofSextets?
  else none

/-! ## Rows of six bits -/

/-- Bytes as numbers of six bits, the last filled up with zeros. -/
def sextets : Bytes → List Nat
  | [] => []
  | [a] =>
    let n := a.toNat
    [n / 4, n % 4 * 16]
  | [a, b] =>
    let n := 256 * a.toNat + b.toNat
    [n / 1024, n / 16 % 64, n % 16 * 4]
  | a :: b :: c :: rest =>
    let n := 65536 * a.toNat + 256 * b.toNat + c.toNat
    n / 262144 :: n / 4096 % 64 :: n / 64 % 64 :: n % 64 :: sextets rest

theorem base64_eq_sextets (s : Bytes) :
    base64 s = (sextets s).map base64Char ++ List.replicate (3 * (sextets s).length % 4) '=' := by
  induction s using sextets.induct with
  | case1 => rfl
  | case2 a => simp [base64, sextets]
  | case3 a b => simp [base64, sextets]
  | case4 a b c rest ih =>
    have hpad (k : Nat) : 3 * (k + 1 + 1 + 1 + 1) % 4 = 3 * k % 4 := by omega
    simp only [base64, sextets, ih, List.map_cons, List.cons_append, List.length_cons, hpad]

theorem sextets_lt (s : Bytes) : ∀ n ∈ sextets s, n < 64 := by
  induction s using sextets.induct with
  | case1 => nofun
  | case2 a =>
    have ha := a.toNat_lt
    simp only [sextets, List.forall_mem_cons]
    exact ⟨by omega, by omega, nofun⟩
  | case3 a b =>
    have ha := a.toNat_lt
    have hb := b.toNat_lt
    simp only [sextets, List.forall_mem_cons]
    exact ⟨by omega, by omega, by omega, nofun⟩
  | case4 a b c rest ih =>
    have ha := a.toNat_lt
    have hb := b.toNat_lt
    have hc := c.toNat_lt
    simp only [sextets, List.forall_mem_cons]
    exact ⟨by omega, by omega, by omega, by omega, ih⟩

theorem toUInt8_eq {n : Nat} {a : UInt8} (h : n = a.toNat) : n.toUInt8 = a := by
  rw [h]
  exact UInt8.ofNat_toNat

theorem ofSextets?_sextets (s : Bytes) : ofSextets? (sextets s) = some s := by
  induction s using sextets.induct with
  | case1 => rfl
  | case2 a =>
    have ha := a.toNat_lt
    simp only [sextets, ofSextets?]
    rw [if_pos (by omega), toUInt8_eq (a := a) (by omega)]
  | case3 a b =>
    have ha := a.toNat_lt
    have hb := b.toNat_lt
    simp only [sextets, ofSextets?]
    rw [if_pos (by omega), toUInt8_eq (a := a) (by omega), toUInt8_eq (a := b) (by omega)]
  | case4 a b c rest ih =>
    have ha := a.toNat_lt
    have hb := b.toNat_lt
    have hc := c.toNat_lt
    simp only [sextets, ofSextets?, ih, Option.map_some]
    rw [toUInt8_eq (a := a) (by omega), toUInt8_eq (a := b) (by omega),
      toUInt8_eq (a := c) (by omega)]

/-! ## Characters -/

theorem sixBits?_range : ∀ n ∈ List.range 64, sixBits? (base64Char n) = some n := by
  decide +kernel

theorem sixBits?_base64Char {n : Nat} (h : n < 64) : sixBits? (base64Char n) = some n :=
  sixBits?_range n (List.mem_range.mpr h)

theorem mem_alphabet_of_sixBits? {c : Char} {n : Nat} (h : sixBits? c = some n) :
    c ∈ base64Alphabet := by
  obtain ⟨hn, hc, -⟩ := List.findIdx?_eq_some_iff_getElem.mp h
  exact eq_of_beq hc ▸ List.getElem_mem hn

theorem mapM_sixBits? {ns : List Nat} (h : ∀ n ∈ ns, n < 64) :
    (ns.map base64Char).mapM sixBits? = some ns := by
  induction ns with
  | nil => rfl
  | cons n ns ih =>
    rw [List.forall_mem_cons] at h
    rw [List.map_cons, List.mapM_cons, sixBits?_base64Char h.1, ih h.2]
    rfl

theorem mem_alphabet_of_mem_map {ns : List Nat} (h : ∀ n ∈ ns, n < 64) {c : Char}
    (hc : c ∈ ns.map base64Char) : c ∈ base64Alphabet := by
  obtain ⟨n, hn, rfl⟩ := List.mem_map.mp hc
  exact mem_alphabet_of_sixBits? (sixBits?_base64Char (h n hn))

/-- What is written in Base64 is of the alphabet, or padding. -/
theorem mem_base64 {s : Bytes} {c : Char} (h : c ∈ base64 s) : c ∈ base64Alphabet ∨ c = '=' := by
  rw [base64_eq_sextets, List.mem_append] at h
  exact h.imp (mem_alphabet_of_mem_map (sextets_lt s)) List.eq_of_mem_replicate

/-! ## Decoding -/

theorem base64Decode?_base64 (s : Bytes) : base64Decode? (base64 s) = some s := by
  have hdigits : (base64 s).takeWhile (· != '=') = (sextets s).map base64Char := by
    have hnot : '=' ∉ (sextets s).map base64Char := fun hc =>
      absurd (mem_alphabet_of_mem_map (sextets_lt s) hc) (by decide)
    rw [base64_eq_sextets, List.takeWhile_append_of_pos (Bytes.bne_of_notMem hnot),
      List.takeWhile_replicate_eq_filter]
    simp
  unfold base64Decode?
  simp only [hdigits, List.length_map]
  rw [if_pos (base64_eq_sextets s), mapM_sixBits? (sextets_lt s), Option.bind_some,
    ofSextets?_sextets]

/-- One, two and three bytes. -/
example : base64Decode? "YQ==".toList = some [97] ∧ base64Decode? "YWI=".toList = some [97, 98] ∧
    base64Decode? "YWJj".toList = some [97, 98, 99] ∧ base64Decode? "YR==".toList = none := by
  decide +kernel

end Wiretap.Text
