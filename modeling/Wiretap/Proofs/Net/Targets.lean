import Mathlib.Data.List.TakeWhile
import Wiretap.Net.Target
import Wiretap.Proofs.Number.Digits
import Wiretap.Proofs.Occurrence

/-!
# Targets are read back

The text of a target is cut at its last colon, and brackets are taken off both ends of what stands
before it (`Target.parse_eq_ok_iff`). So a host without brackets around it and a port are read back
from their text, and whatever text a target is read from, the text of that target gives it again
(`parse_hostPort_iff`).
-/

namespace Wiretap

/-! ## The last separator -/

namespace Uri

variable {sep : Char} {front back cs : List Char}

theorem reverse_append_cons (sep : Char) (front back : List Char) :
    (front ++ sep :: back).reverse = back.reverse ++ sep :: front.reverse := by simp

theorem beforeLast?_append (h : sep ∉ back) (front : List Char) :
    beforeLast? sep (front ++ sep :: back) = some front := by
  rw [beforeLast?, reverse_append_cons, Bytes.dropWhile_of_notMem (by simpa using h)]
  simp

theorem behindLast_append (h : sep ∉ back) (front : List Char) :
    behindLast sep (front ++ sep :: back) = back := by
  rw [behindLast, reverse_append_cons, Bytes.takeWhile_of_notMem (by simpa using h),
    List.reverse_reverse]

theorem beforeLast?_of_notMem (h : sep ∉ cs) : beforeLast? sep cs = none := by
  have hreverse : sep ∉ cs.reverse := by rwa [List.mem_reverse]
  rw [beforeLast?, List.dropWhile_eq_nil_iff.mpr (Bytes.bne_of_notMem hreverse)]

/-- A text without the separator has no last one; any other is cut there. -/
theorem last_cases (sep : Char) (cs : List Char) :
    (sep ∉ cs ∧ beforeLast? sep cs = none) ∨
      ∃ front, beforeLast? sep cs = some front ∧ cs = front ++ sep :: behindLast sep cs ∧
        sep ∉ behindLast sep cs := by
  by_cases h : sep ∈ cs
  · obtain ⟨back, front, hcs, hback⟩ := List.eq_append_cons_of_mem (List.mem_reverse.mpr h)
    have hcs : cs = front.reverse ++ sep :: back.reverse := by
      rw [← List.reverse_reverse cs, hcs, reverse_append_cons]
    have hback : sep ∉ back.reverse := by simpa using hback
    rw [hcs, beforeLast?_append hback, behindLast_append hback]
    exact .inr ⟨_, rfl, rfl, hback⟩
  · exact .inl ⟨h, beforeLast?_of_notMem h⟩

end Uri

namespace Net

/-! ## Brackets -/

section

variable {cs : List Char}

theorem dropWhile_of_head? {a : Char} (h : cs.head? ≠ some a) : cs.dropWhile (· == a) = cs := by
  cases cs with
  | nil => rfl
  | cons c rest => exact List.dropWhile_cons_of_neg (by simpa using h)

theorem head?_dropWhile_ne (a : Char) (cs : List Char) :
    (cs.dropWhile (· == a)).head? ≠ some a := by
  intro h
  have hnot := List.head?_dropWhile_not (· == a) cs
  rw [h] at hnot
  simp at hnot

theorem unbracket_of_bare (hfront : cs.head? ≠ some '[') (hback : cs.getLast? ≠ some ']') :
    unbracket cs = cs := by
  rw [unbracket, dropWhile_of_head? hfront, dropWhile_of_head? (by rwa [List.head?_reverse]),
    List.reverse_reverse]

theorem unbracket_brackets (hfront : cs.head? ≠ some '[') (hback : cs.getLast? ≠ some ']') :
    unbracket ('[' :: (cs ++ [']'])) = cs := by
  have hinner : (cs ++ [']']).head? ≠ some '[' := by
    cases cs with
    | nil => decide
    | cons c rest => exact hfront
  rw [unbracket, List.dropWhile_cons_of_pos (by simp), dropWhile_of_head? hinner,
    List.reverse_concat, List.dropWhile_cons_of_pos (by simp),
    dropWhile_of_head? (by rwa [List.head?_reverse]), List.reverse_reverse]

theorem unbracket_isPrefix (cs : List Char) : unbracket cs <+: cs.dropWhile (· == '[') := by
  rw [unbracket, ← List.reverse_suffix, List.reverse_reverse]
  exact List.dropWhile_suffix _

theorem head?_unbracket (cs : List Char) : (unbracket cs).head? ≠ some '[' := by
  intro h
  obtain ⟨rest, hrest⟩ := unbracket_isPrefix cs
  obtain ⟨more, hmore⟩ := List.head?_eq_some_iff.mp h
  refine head?_dropWhile_ne '[' cs ?_
  rw [← hrest, hmore]
  rfl

theorem getLast?_unbracket (cs : List Char) : (unbracket cs).getLast? ≠ some ']' := by
  rw [unbracket, List.getLast?_reverse]
  exact head?_dropWhile_ne ']' _

theorem mem_of_mem_unbracket {c : Char} (h : c ∈ unbracket cs) : c ∈ cs :=
  (List.dropWhile_sublist _).mem ((unbracket_isPrefix cs).mem h)

end

/-! ## Texts of targets -/

theorem toList_hostPort (host : String) (port : Nat) :
    (hostPort host port).toList =
      (if ':' ∈ host.toList then '[' :: (host.toList ++ [']']) else host.toList) ++
        ':' :: Number.decimal port := by
  unfold hostPort
  by_cases h : ':' ∈ host.toList <;> simp [h]

theorem colon_notMem_decimal (n : Nat) : ':' ∉ Number.decimal n := fun h =>
  absurd (Number.isDigit_decimal h) (by decide)

namespace Target

/-- What a target is read from: a port behind the last colon, and a host before it that is not
brackets alone. -/
theorem parse_eq_ok_iff {text : String} {t : Target} :
    parse text = .ok t ↔ ∃ front port, text.toList = front ++ ':' :: port ∧ ':' ∉ port ∧
      Number.word16? port = some t.port ∧ unbracket front = t.host.toList ∧ t.host ≠ "" := by
  unfold parse
  constructor
  · intro h
    rcases Uri.last_cases ':' text.toList with ⟨-, hnone⟩ | ⟨front, hsome, htext, hport⟩
    · rw [hnone] at h
      cases h
    · simp only [hsome] at h
      split at h
      · cases h
      · rename_i port hword
        split at h
        · cases h
        · rename_i hne
          cases h
          refine ⟨front, _, htext, hport, hword, String.toList_ofList.symm, ?_⟩
          rintro (hempty : String.ofList (unbracket front) = "")
          refine hne ?_
          rw [← String.toList_ofList (l := unbracket front), hempty]
          rfl
  · rintro ⟨front, port, htext, hport, hword, hhost, hne⟩
    have hhost' : (unbracket front).isEmpty = false := by
      rw [hhost, List.isEmpty_eq_false_iff]
      exact fun hnil => hne (String.toList_eq_nil_iff.mp hnil)
    rw [htext, Uri.beforeLast?_append hport, Uri.behindLast_append hport]
    simp only [hword, hhost', Bool.false_eq_true, if_false]
    rw [hhost, String.ofList_toList]

/-- A host without brackets around it, and a port of 16 bits. -/
structure Bare (t : Target) : Prop where
  nonempty : t.host ≠ ""
  front : t.host.toList.head? ≠ some '['
  back : t.host.toList.getLast? ≠ some ']'
  port : t.port ≤ Number.word16

theorem bare_of_parse {text : String} {t : Target} (h : parse text = .ok t) : t.Bare := by
  obtain ⟨front, port, -, -, hword, hhost, hne⟩ := parse_eq_ok_iff.mp h
  refine ⟨hne, ?_, ?_, Number.unsigned?_le hword⟩
  · rw [← hhost]
    exact head?_unbracket front
  · rw [← hhost]
    exact getLast?_unbracket front

theorem Bare.parse_hostPort {t : Target} (h : t.Bare) :
    parse (hostPort t.host t.port) = .ok t := by
  refine parse_eq_ok_iff.mpr ⟨_, _, toList_hostPort t.host t.port, colon_notMem_decimal t.port,
    Number.unsigned?_decimal h.port, ?_, h.nonempty⟩
  split
  · exact unbracket_brackets h.front h.back
  · exact unbracket_of_bare h.front h.back

/-- The host of a target holds no character that its text does not. -/
theorem mem_of_mem_host {text : String} {t : Target} (h : parse text = .ok t) {c : Char}
    (hc : c ∈ t.host.toList) : c ∈ text.toList := by
  obtain ⟨front, port, htext, -, -, hhost, -⟩ := parse_eq_ok_iff.mp h
  rw [← hhost] at hc
  rw [htext]
  exact List.mem_append_left _ (mem_of_mem_unbracket hc)

end Target

/-- A target is read back from the text of its host and port exactly if the host is not empty and
has no brackets around it and the port has 16 bits, and so is every target that is read from any
text. -/
theorem parse_hostPort_iff (t : Target) :
    (Target.parse (hostPort t.host t.port) = .ok t ↔ t.Bare) ∧
    ∀ text, Target.parse text = .ok t →
      t.Bare ∧ Target.parse (hostPort t.host t.port) = .ok t := by
  refine ⟨⟨Target.bare_of_parse, Target.Bare.parse_hostPort⟩, fun text h => ?_⟩
  have hbare := Target.bare_of_parse h
  exact ⟨hbare, hbare.parse_hostPort⟩

/-- Brackets in a host, colons, and a port with a plus sign and zeros. -/
theorem parse_hostPort_nested :
    let t : Target := ⟨"a]b[:c", 443⟩
    Target.parse "[[a]b[:c]]]:+0443" = .ok t ∧ t.Bare ∧ hostPort t.host t.port = "[a]b[:c]:443" ∧
      Target.parse "[a]b[:c]:443" = .ok t := by
  intro t
  have hread : Target.parse "[[a]b[:c]]]:+0443" = .ok t := by decide +kernel
  have htext : hostPort t.host t.port = "[a]b[:c]:443" := by decide +kernel
  obtain ⟨hbare, hagain⟩ := (parse_hostPort_iff t).2 _ hread
  rw [htext] at hagain
  exact ⟨hread, hbare, htext, hagain⟩

end Net

end Wiretap
