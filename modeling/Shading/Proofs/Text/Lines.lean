import Mathlib.Algebra.Ring.Nat
import Shading.Proofs.Text.Position

/-!
# Rows and columns

The row of a position counts lines, the pieces of the text between newlines, and
its column counts bytes of the line, so the two together give the position back
(`Source.placed_of_boundary`).  A position beyond the end is treated as the end.
-/

namespace Shading

open List

/-- Lines and newlines are the whole text. -/
lemma lines_splitOn (text : List Char) : (text.splitOn '\n').length = text.count '\n' + 1 ∧
    ((text.splitOn '\n').map (byteLength · + 1)).sum = byteLength text + 1 := by
  induction text with
  | nil => exact ⟨rfl, rfl⟩
  | cons c rest ih =>
    rw [splitOn_cons_eq_if_modifyHead]
    obtain ⟨hlength, hsum⟩ := ih
    split
    · rename_i hc
      obtain rfl := eq_of_beq hc
      rw [length_cons, map_cons, sum_cons, hlength, hsum, count_cons_self]
      refine ⟨rfl, ?_⟩
      change 0 + 1 + (byteLength rest + 1) = 1 + byteLength rest + 1
      omega
    · rename_i hc
      obtain ⟨first, later, hlines⟩ := exists_cons_of_ne_nil (splitOn_ne_nil '\n' rest)
      rw [hlines] at hlength hsum ⊢
      rw [count_cons_of_ne (by simpa using hc), ← hlength]
      refine ⟨rfl, ?_⟩
      rw [map_cons, sum_cons] at hsum
      rw [modifyHead_cons, map_cons, sum_cons, byteLength, byteLength]
      omega

lemma splitAtByte_of_le {text : List Char} {n : Nat} (h : byteLength text ≤ n) :
    splitAtByte n text = (text, []) := by
  induction text generalizing n with
  | nil => rfl
  | cons c rest ih =>
    have hpos := c.utf8Size_pos
    rw [byteLength] at h
    rw [splitAtByte, ih (by omega)]
    omega

namespace Source

variable {src : Source} {pos : Nat}

/-- The lines before that of a boundary. -/
lemma lines_of_boundary (h : Boundary src.contents pos) : ∃ earlier later,
    src.contents.splitOn '\n' = earlier ++ src.line pos :: later ∧ src.row pos = earlier.length + 1 ∧
      (earlier.map (byteLength · + 1)).sum + src.column pos = pos + 1 := by
  obtain ⟨earlier, later, hcontents, hearlier, hlater, hline, hrow, hcolumn⟩ := line_of_boundary h
  -- What is split off behind the line.
  have hbehind : ∃ rest, (src.line pos ++ later).splitOn '\n' = src.line pos :: rest := by
    rcases hlater with rfl | hlater
    · exact ⟨[], by rw [append_nil, splitOn_eq_singleton hline]⟩
    · obtain ⟨rest, rfl⟩ := head?_eq_some_iff.mp hlater
      exact ⟨_, splitOn_append_cons_self_of_not_mem hline rest⟩
  obtain ⟨rest, hrest⟩ := hbehind
  rw [hcontents, append_assoc, hrow]
  rcases hearlier with rfl | hearlier
  · exact ⟨[], rest, hrest, rfl, hcolumn⟩
  · obtain ⟨front, rfl⟩ := getLast?_eq_some_iff.mp hearlier
    obtain ⟨hlength, hsum⟩ := lines_splitOn front
    refine ⟨front.splitOn '\n', rest, ?_, ?_, ?_⟩
    · rw [append_assoc, singleton_append, splitOn_append_cons_self, hrest]
    · rw [hlength, count_append]
      rfl
    · rw [hsum, ← hcolumn, byteLength_append]
      rfl

/-- Row, column and line of a position, and the marks under a span that starts
there. -/
structure Placed (source : Source) (position : Nat) : Prop where
  line : (source.contents.splitOn '\n')[source.row position - 1]? = some (source.line position)
  bytes : (((source.contents.splitOn '\n').take (source.row position - 1)).map (byteLength · + 1)).sum +
    (source.column position - 1) = position
  positive : 1 ≤ source.row position ∧ 1 ≤ source.column position
  column_le : source.column position - 1 ≤ byteLength (source.line position)
  unique : ∀ other, Boundary source.contents other → source.row other = source.row position →
    source.column other = source.column position → other = position
  marked : ∀ stop color, ∃ width,
    source.highlight ⟨position, stop⟩ color = Paint.blue.apply color (source.gutter ⟨position, stop⟩) ++
      String.ofList (source.line position) ++ "\n" ++
      String.ofList (replicate ((source.gutter ⟨position, stop⟩).length + (source.column position - 1)) ' ') ++
      Paint.redBold.apply color (String.ofList (replicate width '^')) ++ "\n" ∧ 1 ≤ width ∧
    (source.column position - 1 + width ≤ byteLength (source.line position) ∨
      source.column position - 1 = byteLength (source.line position) ∧ width = 1)

lemma bytes_of_boundary (h : Boundary src.contents pos) :
    (((src.contents.splitOn '\n').take (src.row pos - 1)).map (byteLength · + 1)).sum +
    (src.column pos - 1) = pos := by
  obtain ⟨earlier, later, hlines, hrow, hbytes⟩ := lines_of_boundary h
  have hcolumn : 1 ≤ src.column pos := Nat.le_add_left ..
  rw [hlines, hrow, Nat.add_sub_cancel, take_left]
  omega

/-- A position on a boundary has one row and column, from which it is found
again, and one beyond the end counts as the end. -/
theorem placed_of_boundary {source : Source} {position : Nat} (h : Boundary source.contents position) :
    source.Placed position ∧ ∀ beyond, source.size ≤ beyond → source.row beyond = source.row source.size ∧
      source.column beyond = source.column source.size ∧ source.line beyond = source.line source.size := by
  have hpositive : 1 ≤ source.column position := Nat.le_add_left ..
  have hcolumn : source.column position - 1 ≤ byteLength (source.line position) := by
    rw [column, Source.line, byteLength_append]
    omega
  refine ⟨⟨?_, bytes_of_boundary h, ⟨Nat.le_add_left .., hpositive⟩, hcolumn, fun other hother hrow hcol => ?_,
    fun stop color => ⟨source.underlineWidth ⟨position, stop⟩, ?_, ?_, ?_⟩⟩, fun beyond hbeyond => ?_⟩
  · obtain ⟨earlier, later, hlines, hrow, -⟩ := lines_of_boundary h
    rw [hlines, hrow, Nat.add_sub_cancel]
    rw [getElem?_append_right (Nat.le_refl _), Nat.sub_self, getElem?_cons_zero]
  · rw [← bytes_of_boundary hother, ← bytes_of_boundary h, hrow, hcol]
  · rw [highlight, Nat.add_sub_assoc hpositive]
  · unfold underlineWidth
    dsimp only
    omega
  · unfold underlineWidth
    dsimp only
    omega
  · have hsame : splitAtByte beyond source.contents = splitAtByte source.size source.contents := by
      rw [splitAtByte_of_le hbeyond, splitAtByte_of_le (Nat.le_refl source.size)]
    simp only [row, column, Source.line, lineStart, before, after, hsame, and_self]

/-- Two lines, the first with a character of two bytes. -/
def twoLines : Source := ⟨.memory, ("// \u00e9\nint a;").toList⟩

theorem placed_of_boundary_secondLine : Boundary twoLines.contents 10 ∧ twoLines.row 10 = 2 ∧
    twoLines.column 10 = 5 ∧ twoLines.Placed 10 := by
  have hboundary : Boundary twoLines.contents 10 := ⟨("// \u00e9\nint ").toList, ("a;").toList,
    by decide, by decide⟩
  exact ⟨hboundary, by decide, by decide, (placed_of_boundary hboundary).1⟩

end Source

end Shading
