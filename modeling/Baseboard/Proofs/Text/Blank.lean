import Mathlib.Data.List.DropRight
import Baseboard.Text.Blank

/-!
# Baseboard.Proofs.Text.Blank

A text is its white space at the start, a core that starts and ends with something else, and
its white space at the end.  White space is told by a list of its code points, which
`isBlank` has as ranges (`whiteSpace_eq`).  Main statement: `trim` gives this core, and there is
no other (`strips_iff`).
-/

namespace Baseboard

/-! ## White space -/

/-- The code points with the Unicode property White_Space. -/
def whiteSpace : List Nat :=
  [0x0009, 0x000A, 0x000B, 0x000C, 0x000D, 0x0020, 0x0085, 0x00A0, 0x1680, 0x2000, 0x2001,
    0x2002, 0x2003, 0x2004, 0x2005, 0x2006, 0x2007, 0x2008, 0x2009, 0x200A, 0x2028, 0x2029,
    0x202F, 0x205F, 0x3000]

/-- Whether a character is white space. -/
def IsSpace (c : Char) : Prop := c.toNat ∈ whiteSpace

/-- The ranges hold these code points and no other. -/
theorem whiteSpace_eq :
    whiteSpace = blankRanges.flatMap fun range => List.range' range.1 (range.2 + 1 - range.1) :=
  rfl

theorem isBlank_iff {c : Char} : isBlank c = true ↔ IsSpace c := by
  rw [isBlank, List.any_eq_true, IsSpace, whiteSpace_eq, List.mem_flatMap]
  refine exists_congr fun range => and_congr_right fun _ => ?_
  rw [List.mem_range'_1, Bool.and_eq_true, decide_eq_true_eq, decide_eq_true_eq]
  omega

theorem isBlank_eq_false_iff {c : Char} : isBlank c = false ↔ ¬ IsSpace c := by
  rw [← isBlank_iff, Bool.not_eq_true]

/-! ## The core of a text -/

/-- Whether no white space stands at either end of a text. -/
structure Bare (text : List Char) : Prop where
  head : ∀ c ∈ text.head?, ¬ IsSpace c
  last : ∀ c ∈ text.getLast?, ¬ IsSpace c

/-- `core` is what is left of `text` without the white space at its start and at its end. -/
structure Strips (text core : List Char) : Prop where
  exists_spaces : ∃ before after, text = before ++ core ++ after ∧
    (∀ c ∈ before, IsSpace c) ∧ ∀ c ∈ after, IsSpace c
  bare : Bare core

theorem Bare.reverse {text : List Char} (h : Bare text) : Bare text.reverse where
  head := by
    rw [List.head?_reverse]
    exact h.last
  last := by
    rw [List.getLast?_reverse]
    exact h.head

/-- White space goes from the start as far as the core. -/
theorem Bare.dropWhile_append {core spaces : List Char} (h : Bare core)
    (hspaces : ∀ c ∈ spaces, IsSpace c) : (spaces ++ core).dropWhile isBlank = core := by
  rw [List.dropWhile_append_of_pos fun c hc => isBlank_iff.mpr (hspaces c hc)]
  cases core with
  | nil => rfl
  | cons c core =>
      have hc : isBlank c = false := isBlank_eq_false_iff.mpr (h.head c rfl)
      rw [List.dropWhile_cons, hc]
      rfl

theorem trim_of_strips {text core : List Char} (h : Strips text core) : trim text = core := by
  obtain ⟨before, after, rfl, hbefore, hafter⟩ := h.exists_spaces
  have hend : ((core ++ after).dropWhile isBlank).reverse.dropWhile isBlank = core.reverse := by
    cases core with
    | nil =>
        rw [List.nil_append,
          List.dropWhile_eq_nil_iff.mpr fun c hc => isBlank_iff.mpr (hafter c hc)]
        rfl
    | cons c core =>
        have hc : isBlank c = false := isBlank_eq_false_iff.mpr (h.bare.head c rfl)
        rw [List.cons_append, List.dropWhile_cons, hc]
        simp only [Bool.false_eq_true, if_false]
        rw [← List.cons_append, List.reverse_append]
        exact h.bare.reverse.dropWhile_append fun c hc => hafter c (List.mem_reverse.mp hc)
  rw [trim, List.append_assoc,
    List.dropWhile_append_of_pos fun c hc => isBlank_iff.mpr (hbefore c hc), hend,
    List.reverse_reverse]

theorem bare_trim (text : List Char) : Bare (trim text) where
  head c hc := by
    have hprefix : trim text <+: text.dropWhile isBlank := List.rdropWhile_prefix ..
    obtain ⟨rest, hrest⟩ := hprefix
    have hhead : (text.dropWhile isBlank).head? = some c := by
      rw [← hrest, List.head?_append, Option.mem_def.mp hc]
      rfl
    have hnot := List.head?_dropWhile_not isBlank text
    rw [hhead] at hnot
    exact isBlank_eq_false_iff.mp hnot
  last c hc := by
    obtain ⟨hne, rfl⟩ := List.mem_getLast?_eq_getLast hc
    have hlast := List.rdropWhile_last_not isBlank (text.dropWhile isBlank) hne
    exact fun hspace => hlast (isBlank_iff.mpr hspace)

theorem strips_trim (text : List Char) : Strips text (trim text) where
  exists_spaces := by
    refine ⟨text.takeWhile isBlank, (text.dropWhile isBlank).rtakeWhile isBlank, ?_,
      fun c hc => isBlank_iff.mp (List.mem_takeWhile_imp hc),
      fun c hc => isBlank_iff.mp (List.mem_rtakeWhile_imp hc)⟩
    have hend : trim text ++ (text.dropWhile isBlank).rtakeWhile isBlank =
        text.dropWhile isBlank := List.rdropWhile_append_rtakeWhile
    rw [List.append_assoc, hend, List.takeWhile_append_dropWhile]
  bare := bare_trim text

/-- A text has one core, and trimming gives it. -/
theorem strips_iff {text core : List Char} : Strips text core ↔ trim text = core :=
  ⟨trim_of_strips, fun h => h ▸ strips_trim text⟩

/-- A text without white space around it is its own core. -/
theorem Bare.trim_eq {text : List Char} (h : Bare text) : trim text = text :=
  trim_of_strips ⟨⟨[], [], by simp, nofun, nofun⟩, h⟩

end Baseboard
