import Wiretap.Bytes

/-!
# Frames in a text

A frame opens with `[[[null,`, closes with `]],"model"]`, and holds no line
feed. It starts at the first opening that has a closing behind it on its line
and ends at the first such closing. Frames do not overlap. If an opening has no
closing on its line, nor has any later opening on that line.
-/

namespace Wiretap.Tap

/-- The bytes of `[[[null,`. -/
def opening : Bytes := [0x5b, 0x5b, 0x5b, 0x6e, 0x75, 0x6c, 0x6c, 0x2c]

/-- The bytes of `]],"model"]`. -/
def closing : Bytes := [0x5d, 0x5d, 0x2c, 0x22, 0x6d, 0x6f, 0x64, 0x65, 0x6c, 0x22, 0x5d]

/-- Offset behind the first closing on the line, counted from `n`. -/
def closeFrom (n : Nat) : Bytes → Option Nat
  | [] => none
  | b :: rest =>
    if closing.isPrefixOf (b :: rest) then some (n + closing.length)
    else if b = Bytes.lf then none
    else closeFrom (n + 1) rest

/-- Length of the frame at the very front of `text`. -/
def frameLength (text : Bytes) : Option Nat :=
  if opening.isPrefixOf text then
    closeFrom opening.length (text.drop opening.length)
  else none

structure Found where
  /-- Count of the bytes in front of the frame. -/
  skipped : Nat
  frame : Bytes
  rest : Bytes
  deriving Repr

/-- The first frame in a text. -/
def nextFrom (skipped : Nat) (text : Bytes) : Option Found :=
  match text with
  | [] => none
  | b :: rest =>
    if opening.isPrefixOf (b :: rest) then
      match frameLength (b :: rest) with
      | some n => some ⟨skipped, (b :: rest).take n, (b :: rest).drop n⟩
      | none =>
        nextFrom (skipped + 1 + (rest.takeWhile (· != Bytes.lf)).length)
          (rest.dropWhile (· != Bytes.lf))
    else nextFrom (skipped + 1) rest
termination_by text.length
decreasing_by
  · have := (List.dropWhile_sublist (l := rest) (· != Bytes.lf)).length_le
    simp only [List.length_cons]
    omega
  · simp

def next (text : Bytes) : Option Found := nextFrom 0 text

theorem lt_closeFrom {n k : Nat} {text : Bytes} (h : closeFrom n text = some k) : n < k := by
  induction text generalizing n with
  | nil => cases h
  | cons b rest ih =>
    simp only [closeFrom] at h
    split at h
    · cases h
      simp [closing]
    · split at h
      · cases h
      · have := ih h
        omega

theorem rest_lt_of_nextFrom {skipped : Nat} {text : Bytes} {f : Found}
    (h : nextFrom skipped text = some f) : f.rest.length < text.length := by
  fun_induction nextFrom skipped text with
  | case1 => cases h
  | case2 skipped b rest ho n hn =>
    cases h
    simp only [frameLength, if_pos ho] at hn
    have := lt_closeFrom hn
    simp only [List.length_drop, List.length_cons]
    omega
  | case3 skipped b rest ho hn ih =>
    have h₁ := ih h
    have h₂ := (List.dropWhile_sublist (l := rest) (· != Bytes.lf)).length_le
    simp only [List.length_cons]
    omega
  | case4 skipped b rest ho ih =>
    have := ih h
    simp only [List.length_cons]
    omega

structure Scan where
  frames : List Bytes
  /-- Offset behind the last frame. -/
  consumed : Nat
  deriving Repr

def scanFrom (frames : List Bytes) (consumed : Nat) (text : Bytes) : Scan :=
  match _h : next text with
  | none => ⟨frames.reverse, consumed⟩
  | some f => scanFrom (f.frame :: frames) (consumed + f.skipped + f.frame.length) f.rest
termination_by text.length
decreasing_by exact rest_lt_of_nextFrom _h

/-- All frames of a text, in order. -/
def scan (text : Bytes) : Scan := scanFrom [] 0 text

end Wiretap.Tap
