import Mathlib.Order.MinMax
import Shading.Text.Source
import Shading.Token.Lexer

/-!
# Positions in a text

A position is good if it is a character boundary (`Boundary`), and a span is if
both ends are and stand in order (`Span.Within`).  Such a span can be shown:
its line is a line of the text, and column and carets stay on it
(`Source.shows_of_within`).
-/

namespace Shading

open List

/-- Some characters of the text stand before the position and the others
behind it. -/
def Boundary (text : List Char) (position : Nat) : Prop :=
  ∃ before after, text = before ++ after ∧ byteLength before = position

/-- Both ends are boundaries. -/
structure Span.Within (text : List Char) (span : Span) : Prop where
  start : Boundary text span.start
  stop : Boundary text span.stop
  ordered : span.start ≤ span.stop

section

variable {text : List Char} {pos : Nat}

lemma Boundary.zero (text : List Char) : Boundary text 0 := ⟨[], text, rfl, rfl⟩

lemma Boundary.size (text : List Char) : Boundary text (byteLength text) := ⟨text, [], (append_nil text).symm, rfl⟩

lemma Boundary.le_size (h : Boundary text pos) : pos ≤ byteLength text := by
  obtain ⟨pre, after, rfl, rfl⟩ := h
  rw [byteLength_append]
  exact Nat.le_add_right ..

end

/-! ## Sets of spans -/

/-- A set of spans that has the empty one and is closed under joining. -/
structure Span.Region (allowed : Span → Prop) : Prop where
  empty : allowed .empty
  join : ∀ {a b}, allowed a → allowed b → allowed (a.join b)

lemma Span.region_within (text : List Char) : Span.Region (Span.Within text) := by
  refine ⟨⟨.zero text, .zero text, Nat.le_refl 0⟩, fun {a b} ha hb => ⟨?_, ?_, ?_⟩⟩
  · change Boundary text (min a.start b.start)
    rcases min_choice a.start b.start with h | h <;> rw [h]
    · exact ha.start
    · exact hb.start
  · change Boundary text (max a.stop b.stop)
    rcases max_choice a.stop b.stop with h | h <;> rw [h]
    · exact ha.stop
    · exact hb.stop
  · have := ha.ordered
    change min a.start b.start ≤ max a.stop b.stop
    omega

/-! ## Lines -/

/-- What stands before and behind a boundary. -/
lemma splitAtByte_append (pre after : List Char) : splitAtByte (byteLength pre) (pre ++ after) = (pre, after) := by
  induction pre with
  | nil => cases after <;> rfl
  | cons c rest ih =>
    have hpos := c.utf8Size_pos
    obtain ⟨n, hn⟩ : ∃ n, byteLength (c :: rest) = n + 1 :=
      ⟨byteLength (c :: rest) - 1, by rw [byteLength]; omega⟩
    have hrest : n + 1 - c.utf8Size = byteLength rest := by
      rw [← hn, byteLength]
      omega
    rw [hn, cons_append, splitAtByte, hrest, ih]
    exact Nat.succ_ne_zero n

lemma not_mem_untilNewline (text : List Char) : '\n' ∉ text.takeWhile (· ≠ '\n') := by
  induction text with
  | nil => exact not_mem_nil
  | cons c rest ih =>
    rw [takeWhile_cons]
    split
    · rename_i hc
      rintro (_ | ⟨_, hm⟩)
      · exact of_decide_eq_true hc rfl
      · exact ih hm
    · exact not_mem_nil

lemma head?_fromNewline (text : List Char) :
    text.dropWhile (· ≠ '\n') = [] ∨ (text.dropWhile (· ≠ '\n')).head? = some '\n' := by
  induction text with
  | nil => exact .inl rfl
  | cons c rest ih =>
    rw [dropWhile_cons]
    split
    · exact ih
    · rename_i hc
      exact .inr (by simpa using hc)

/-- A span can be shown in a text: its line is a line of the text, its column
is one of the line, and the carets, at least one, go at most one place beyond
the line. -/
structure Source.Shows (source : Source) (span : Span) : Prop where
  line : ∃ earlier later, source.contents = earlier ++ source.line span.start ++ later ∧
    (earlier = [] ∨ earlier.getLast? = some '\n') ∧ (later = [] ∨ later.head? = some '\n') ∧
    '\n' ∉ source.line span.start ∧ source.row span.start = earlier.count '\n' + 1 ∧
    byteLength earlier + source.column span.start = span.start + 1
  column : source.column span.start ≤ byteLength (source.line span.start) + 1
  carets : 1 ≤ source.underlineWidth span ∧
    source.column span.start + source.underlineWidth span ≤ byteLength (source.line span.start) + 2

/-- The line that a boundary stands in. -/
lemma Source.line_of_boundary {src : Source} {pos : Nat} (h : Boundary src.contents pos) :
    ∃ earlier later, src.contents = earlier ++ src.line pos ++ later ∧
      (earlier = [] ∨ earlier.getLast? = some '\n') ∧ (later = [] ∨ later.head? = some '\n') ∧
      '\n' ∉ src.line pos ∧ src.row pos = earlier.count '\n' + 1 ∧
      byteLength earlier + src.column pos = pos + 1 := by
  obtain ⟨pre, after, hcontents, hbytes⟩ := h
  have hsplit : splitAtByte pos src.contents = (pre, after) := by
    rw [hcontents, ← hbytes]
    exact splitAtByte_append pre after
  have hbefore : src.before pos = pre := congrArg Prod.fst hsplit
  have hafter : src.after pos = after := congrArg Prod.snd hsplit
  -- The part of the line before the position, and what stands before that.
  let start := (pre.reverse.takeWhile (· ≠ '\n')).reverse
  let earlier := (pre.reverse.dropWhile (· ≠ '\n')).reverse
  have hstart : src.lineStart pos = start := by rw [lineStart, hbefore]
  have hparts : pre = earlier ++ start := by
    rw [← reverse_append, takeWhile_append_dropWhile, reverse_reverse]
  have hnone : '\n' ∉ start := fun hm => not_mem_untilNewline _ (mem_reverse.mp hm)
  refine ⟨earlier, after.dropWhile (· ≠ '\n'), ?_, ?_, ?_, ?_, ?_, ?_⟩
  · rw [line, hstart, hafter, hcontents, hparts]
    simp only [append_assoc, takeWhile_append_dropWhile]
  · rw [getLast?_reverse, reverse_eq_nil_iff]
    exact head?_fromNewline pre.reverse
  · exact head?_fromNewline after
  · rw [line, hstart, hafter, mem_append]
    rintro (hm | hm)
    · exact hnone hm
    · exact not_mem_untilNewline after hm
  · rw [row, hbefore, hparts, count_append, count_eq_zero_of_not_mem hnone]
  · rw [column, hstart, ← hbytes, hparts, byteLength_append, Nat.add_assoc]

lemma Source.shows_of_within {src : Source} {span : Span} (h : span.Within src.contents) : src.Shows span := by
  have hcolumn : src.column span.start ≤ byteLength (src.line span.start) + 1 := by
    rw [column, line, byteLength_append]
    omega
  refine ⟨line_of_boundary h.start, hcolumn, ?_, ?_⟩ <;> (unfold underlineWidth; dsimp only; omega)

/-! ## Tokens -/

/-- Where a token or a fault stands. -/
def lexemeSpan : Except LexicalError Token → Span
  | .ok token => token.span
  | .error error => error.span

end Shading
