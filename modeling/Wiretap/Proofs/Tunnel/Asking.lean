import Wiretap.Proofs.Tunnel.Requests

/-!
# What a request is

A read holds a request if CR LF CR LF stands in it and its first line is three parts with
single spaces between them, the second of which is the path (`Asks`). That is what a read
from the client is looked at for (`pathIn_eq_some_iff`), and it is to be tapped if a marker
stands in its path (`taps_iff`). Which request was the last of a run is a matter of the
reads alone (`LastRequest`).
-/

namespace Wiretap

namespace Http

/-- UTF-8 in three parts with single spaces between them, the second of which is `path`. -/
def IsRequestLine (line : Bytes) (path : String) : Prop :=
  ∃ method version : List Char, ' ' ∉ method ∧ ' ' ∉ path.toList ∧ ' ' ∉ version ∧
    Utf8.decode? line = some (method ++ ' ' :: (path.toList ++ ' ' :: version))

/-- A head ends in the bytes, and their first line is a request line. -/
structure Asks (bytes : Bytes) (path : String) : Prop where
  terminated : headerTerminator <:+: bytes
  line : IsRequestLine (firstLine bytes) path

/-- A marker stands in the path. -/
def Marked (markers : List String) (path : String) : Prop :=
  ∃ m ∈ markers, m.toList <:+: path.toList

theorem requestPath_eq_some_iff {head : Bytes} {path : String} :
    requestPath head = some path ↔ IsRequestLine (firstLine head) path := by
  unfold requestPath IsRequestLine
  cases Utf8.decode? (firstLine head) with
  | none => simp
  | some line =>
    simp only [Option.some.injEq]
    constructor
    · intro h
      split at h
      · rename_i method path' version heq
        obtain ⟨rest, rfl, hmethod, heq⟩ := Bytes.splitOn_eq_cons_cons_iff.mp heq
        obtain ⟨rest, rfl, hpath, heq⟩ := Bytes.splitOn_eq_cons_cons_iff.mp heq
        obtain ⟨rfl, hversion⟩ := Bytes.splitOn_eq_singleton_iff.mp heq
        cases h
        rw [String.toList_ofList]
        exact ⟨method, _, hmethod, hpath, hversion, rfl⟩
      · cases h
    · rintro ⟨method, version, hmethod, hpath, hversion, rfl⟩
      have hparts : Bytes.splitOn ' ' (method ++ ' ' :: (path.toList ++ ' ' :: version)) =
          [method, path.toList, version] := by
        rw [Bytes.splitOn_append hmethod, Bytes.splitOn_append hpath,
          Bytes.splitOn_of_notMem hversion]
      simp only [hparts, String.ofList_toList]

theorem firstLine_of_headerEnd {bytes : Bytes} {n : Nat} (h : headerEnd bytes = some n) :
    firstLine (bytes.take n) = firstLine bytes := by
  rw [firstLine, firstLine_take h, firstLine]

/-- What a read from the client is looked at for. -/
theorem pathIn_eq_some_iff {bytes : Bytes} {path : String} :
    pathIn bytes = some path ↔ Asks bytes path := by
  unfold pathIn
  constructor
  · intro h
    obtain ⟨n, hn, hpath⟩ := Option.bind_eq_some_iff.mp h
    have hterminated := isSome_headerEnd_iff.mp (Option.isSome_of_eq_some hn)
    rw [requestPath_eq_some_iff, firstLine_of_headerEnd hn] at hpath
    exact ⟨hterminated, hpath⟩
  · rintro ⟨hterminated, hline⟩
    obtain ⟨n, hn⟩ := Option.isSome_iff_exists.mp (isSome_headerEnd_iff.mpr hterminated)
    rw [hn, Option.bind_some, requestPath_eq_some_iff, firstLine_of_headerEnd hn]
    exact hline

theorem Asks.unique {bytes : Bytes} {path other : String} (h : Asks bytes path)
    (ho : Asks bytes other) : path = other := by
  rw [← pathIn_eq_some_iff] at h ho
  exact Option.some.inj (h.symm.trans ho)

theorem pathIn_eq_none_iff {bytes : Bytes} :
    pathIn bytes = none ↔ ∀ path, ¬ Asks bytes path := by
  simp only [Option.eq_none_iff_forall_ne_some, ne_eq, pathIn_eq_some_iff]

theorem occursIn_iff {part text : List Char} : occursIn part text ↔ part <:+: text := by
  induction text with
  | nil => simp [occursIn]
  | cons c rest ih => simp [occursIn, ih, List.infix_cons_iff]

theorem hasMarker_iff {markers : List String} {path : String} :
    hasMarker markers path ↔ Marked markers path := by
  simp [hasMarker, Marked, occursIn_iff]

end Http

namespace Tunnel

/-- A read from the client with a request for `path`. -/
def Read.Asks (r : Read) (path : String) : Prop := r.side = .client ∧ Http.Asks r.bytes path

/-- Of the reads, the last one with a request. -/
def LastRequest (reads : List Read) (asking : Read) (path : String) : Prop :=
  ∃ earlier later, reads = earlier ++ asking :: later ∧ asking.Asks path ∧
    ∀ r ∈ later, ∀ other, ¬ r.Asks other

theorem taps_iff {markers : List String} {r : Read} :
    r.Taps markers ↔ ∃ path, r.Asks path ∧ Http.Marked markers path := by
  simp only [Read.Taps, Read.Asks, Http.pathIn_eq_some_iff, Http.hasMarker_iff, and_assoc,
    exists_and_left]

theorem not_taps_of_not_asks {markers : List String} {r : Read} (h : ∀ path, ¬ r.Asks path) :
    ¬ r.Taps markers := fun ht =>
  let ⟨path, hask, _⟩ := taps_iff.mp ht
  h path hask

instance (markers : List String) (r : Read) : Decidable (r.Taps markers) :=
  decidable_of_iff (r.side = .client ∧ (Http.pathIn r.bytes).any (Http.hasMarker markers))
    (by simp [Read.Taps, Option.any_eq_true])

theorem Read.Asks.lastRequest {r : Read} {path : String} (h : r.Asks path) (reads : List Read) :
    LastRequest (reads ++ [r]) r path := ⟨reads, [], rfl, h, nofun⟩

theorem LastRequest.concat {reads : List Read} {asking r : Read} {path : String}
    (h : LastRequest reads asking path) (hr : ∀ other, ¬ r.Asks other) :
    LastRequest (reads ++ [r]) asking path := by
  obtain ⟨earlier, later, rfl, hask, hlater⟩ := h
  refine ⟨earlier, later ++ [r], by simp, hask, fun r' hr' => ?_⟩
  rcases List.mem_append.mp hr' with hmem | hmem
  · exact hlater r' hmem
  · rw [List.mem_singleton] at hmem
    exact hmem ▸ hr

end Tunnel

end Wiretap
