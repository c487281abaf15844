import Shading.Proofs.Text.Position
import Shading.Proofs.Token.Isolated

/-!
# Partition of a text

Lexing cuts a text into gaps and lexemes (`Cut`): the gaps are white space and
comments, and each token is what its own text is read as.  `Lexer.next` gives
the lexemes one by one and says from then on that the text has ended
(`Lexer.partitions`).
-/

namespace Shading

open List

variable {cursor next : Cursor} {lexeme : Except LexicalError Token} {text : List Char}

/-- White space, line comments without their newline, and closed comments, with
the text behind them. -/
inductive Trivia (behind : List Char) : List Char → Prop
  | nil : Trivia behind []
  | blank {c gap} : isBlank c = true → Trivia behind gap → Trivia behind (c :: gap)
  | line {body gap} : '\n' ∉ body → (∀ c ∈ (gap ++ behind).head?, c = '\n') → Trivia behind gap →
      Trivia behind ('/' :: '/' :: (body ++ gap))
  | block {body gap} : ¬ ['*', '/'] <:+: body → Trivia behind gap →
      Trivia behind ('/' :: '*' :: (body ++ '*' :: '/' :: gap))

/-- The token is the characters `taken` of a text, and `behind` comes after
them. -/
structure Token.Fits (token : Token) (taken behind : List Char) : Prop where
  text : token.text.toList = taken
  /-- On its own the text is the same token. -/
  alone : lexemes taken = [.ok ⟨token.kind, ⟨0, byteLength taken⟩, token.text⟩]
  longest : token.kind.isFixed = true → (token.text, token.kind) ∈ TokenKind.spellings ∧
    ∀ other ∈ TokenKind.spellings, other.1.toList <+: taken ++ behind → other.1.length ≤ token.text.length

/-- The lexemes of the text that starts at a position, with gaps between them. -/
inductive Cut : Nat → List Char → List (Except LexicalError Token) → Prop
  | done {position gap} (trivia : Trivia [] gap) : Cut position gap []
  | next {position gap taken rest lexeme others} (trivia : Trivia (taken ++ rest) gap) (nonempty : taken ≠ [])
      (span : lexemeSpan lexeme = ⟨position + byteLength gap, position + byteLength gap + byteLength taken⟩)
      (fits : ∀ token, lexeme = .ok token → token.Fits taken rest)
      (later : Cut (position + byteLength gap + byteLength taken) rest others) :
      Cut position (gap ++ (taken ++ rest)) (lexeme :: others)

/-- The answers of the next `count` calls. -/
def Lexer.answers (lexer : Lexer) : (count : Nat) → List Answer
  | 0 => []
  | count + 1 => lexer.next.1 :: lexer.next.2.answers count

/-- What lexing finds is a partition of the text. -/
structure Partitions (text : List Char) (found : List (Except LexicalError Token)) : Prop where
  few : found.length ≤ text.length
  calls : ∀ more, (Lexer.ofText text).answers (found.length + more) =
    found.map (Except.map some) ++ replicate more (.ok none)
  spans : ∀ lexeme ∈ found, (lexemeSpan lexeme).Within text ∧ (lexemeSpan lexeme).start < (lexemeSpan lexeme).stop
  ordered : found.Pairwise fun a b => (lexemeSpan a).stop ≤ (lexemeSpan b).start
  cut : Cut 0 text found

lemma byteLength_pos (h : text ≠ []) : 0 < byteLength text := by
  cases text with
  | nil => exact absurd rfl h
  | cons c rest => exact Nat.lt_of_lt_of_le c.utf8Size_pos (Nat.le_add_right ..)

/-! ## Gaps -/

namespace Cursor

lemma exists_of_afterComment? {pos : Nat} (h : afterComment? pos text = some next) :
    ∃ body, text = body ++ '*' :: '/' :: next.rest ∧ next.position = pos + byteLength body + 2 ∧
    ¬ ['*', '/'] <:+: body := by
  fun_induction afterComment? pos text with
  | case1 pos rest =>
    cases h
    exact ⟨[], rfl, rfl, by simp⟩
  | case2 pos c rest hclose ih =>
    obtain ⟨body, rfl, hposition, hbody⟩ := ih h
    refine ⟨c :: body, rfl, ?_, fun hinfix => ?_⟩
    · rw [hposition, byteLength]
      omega
    · rcases infix_cons_iff.mp hinfix with hprefix | hinfix
      · obtain ⟨tail, htail⟩ := hprefix
        cases htail
        exact hclose _ rfl rfl
      · exact hbody hinfix
  | case3 => cases h

lemma exists_of_lineEnd (pos : Nat) (text : List Char) :
    ∃ body, text = body ++ (lineEnd pos text).rest ∧ (lineEnd pos text).position = pos + byteLength body ∧
      '\n' ∉ body ∧ ∀ c ∈ (lineEnd pos text).rest.head?, c = '\n' := by
  fun_induction lineEnd pos text with
  | case1 pos | case2 pos rest => exact ⟨[], rfl, rfl, not_mem_nil, by simp⟩
  | case3 pos c rest hc ih =>
    obtain ⟨body, htext, hposition, hbody, hhead⟩ := ih
    refine ⟨c :: body, congrArg (c :: ·) htext, ?_, ?_, hhead⟩
    · rw [hposition, byteLength]
      omega
    · rintro (_ | ⟨_, hm⟩)
      · exact hc rfl
      · exact hbody hm

/-- Neither white space nor a line comment starts the text. -/
def Visible (text : List Char) : Prop :=
  ∀ c rest, text = c :: rest → isBlank c = false ∧ ∀ tail, c :: rest ≠ '/' :: '/' :: tail

lemma exists_of_skipTrivia (cursor : Cursor) :
    ∃ gap, cursor.rest = gap ++ cursor.skipTrivia.rest ∧ cursor.skipTrivia.position = cursor.position +
    byteLength gap ∧ Trivia cursor.skipTrivia.rest gap ∧ Visible cursor.skipTrivia.rest := by
  fun_induction skipTrivia cursor with
  | case1 pos c rest hblank ih =>
    obtain ⟨gap, hrest, hposition, htrivia, hvisible⟩ := ih
    refine ⟨c :: gap, congrArg (c :: ·) hrest, ?_, .blank hblank htrivia, hvisible⟩
    rw [hposition, byteLength]
    exact Nat.add_assoc ..
  | case2 pos rest _ ih =>
    obtain ⟨gap, hrest, hposition, htrivia, hvisible⟩ := ih
    obtain ⟨body, htext, hend, hbody, hhead⟩ := exists_of_lineEnd (pos + 2) rest
    rw [hrest] at htext hhead
    refine ⟨'/' :: '/' :: (body ++ gap), ?_, ?_, .line hbody hhead htrivia, hvisible⟩
    · exact congrArg ('/' :: '/' :: ·) (htext.trans (append_assoc ..).symm)
    · rw [hposition, hend]
      simp only [byteLength, byteLength_append, show '/'.utf8Size = 1 from rfl]
      omega
  | case3 pos rest behind found _ ih =>
    obtain ⟨gap, hrest, hposition, htrivia, hvisible⟩ := ih
    obtain ⟨body, htext, hend, hbody⟩ := exists_of_afterComment? found
    rw [hrest] at htext
    refine ⟨'/' :: '*' :: (body ++ '*' :: '/' :: gap), ?_, ?_, .block hbody htrivia, hvisible⟩
    · exact congrArg ('/' :: '*' :: ·) (htext.trans (append_assoc body ('*' :: '/' :: gap) _).symm)
    · rw [hposition, hend]
      simp only [byteLength, byteLength_append, show '/'.utf8Size = 1 from rfl, show '*'.utf8Size = 1 from rfl]
      omega
  | case4 pos rest found hblank =>
    refine ⟨[], rfl, rfl, .nil, ?_⟩
    rintro _ _ ⟨⟩
    exact ⟨Bool.eq_false_iff.mpr hblank, fun tail h => by cases h⟩
  | case5 pos c rest hblank hline =>
    refine ⟨[], rfl, rfl, .nil, ?_⟩
    rintro _ _ ⟨⟩
    refine ⟨Bool.eq_false_iff.mpr hblank, fun tail h => ?_⟩
    cases h
    exact hline tail rfl rfl
  | case6 =>
    refine ⟨[], rfl, rfl, .nil, ?_⟩
    rintro _ _ ⟨⟩

lemma skipTrivia_of_visible (hvisible : Visible cursor.rest) (hcomment : startsComment cursor.rest = false) :
    cursor.skipTrivia = cursor := by
  fun_cases skipTrivia cursor with
  | case1 pos c rest hblank => exact absurd hblank (Bool.eq_false_iff.mp (hvisible c rest rfl).1)
  | case2 pos rest => exact absurd rfl ((hvisible _ _ rfl).2 rest)
  | case3 => cases hcomment
  | case4 | case5 | case6 => rfl

/-! ## Lexemes -/

lemma read_of_rest_eq_nil (h : cursor.rest = []) : cursor.read = (none, cursor) := by
  have hskip : cursor.skipTrivia = cursor := skipTrivia_of_visible (h ▸ nofun) (h ▸ rfl)
  simp only [read, hskip, h]

lemma of_read_none (h : cursor.read = (none, next)) : next = cursor.skipTrivia ∧ next.rest = [] := by
  unfold read at h
  generalize cursor.skipTrivia = start at h ⊢
  obtain ⟨pos, rest⟩ := start
  cases rest with
  | nil =>
    cases h
    exact ⟨rfl, rfl⟩
  | cons => cases h

lemma lexemes_of_read_none (h : cursor.read = (none, next)) : cursor.lexemes = [] := by
  rw [lexemes]
  split
  · rename_i hread
    rw [h] at hread
    cases hread
  · rfl

lemma lexemes_of_read (h : cursor.read = (some lexeme, next)) : cursor.lexemes = lexeme :: next.lexemes := by
  rw [lexemes]
  split
  · rename_i hread
    rw [h] at hread
    cases hread
    rfl
  · rename_i hread
    rw [h] at hread
    cases hread

/-- A token is found in its own text. -/
lemma lexemes_isolated {c : Char} {rest less : List Char} {kind : TokenKind} (hvisible : Visible (c :: rest))
    (hless : less <+: rest)
    (hcomment : startsComment (c :: less) = false) (hscan : scan c less = ⟨.ok kind, c :: less, []⟩) :
    Shading.lexemes (c :: less) = [.ok ⟨kind, ⟨0, byteLength (c :: less)⟩, String.ofList (c :: less)⟩] := by
  have hskip : skipTrivia ⟨0, c :: less⟩ = ⟨0, c :: less⟩ := by
    refine skipTrivia_of_visible ?_ hcomment
    rintro _ _ ⟨⟩
    obtain ⟨hblank, hline⟩ := hvisible c rest rfl
    refine ⟨hblank, ?_⟩
    rintro tail ⟨⟩
    obtain ⟨behind, rfl⟩ := hless
    exact hline _ rfl
  have hread : read ⟨0, c :: less⟩ =
      (some (.ok ⟨kind, ⟨0, byteLength (c :: less)⟩, String.ofList (c :: less)⟩),
        ⟨byteLength (c :: less), []⟩) := by
    simp only [read, hskip, hscan, Nat.zero_add]
  exact (lexemes_of_read hread).trans (congrArg (_ :: ·) (lexemes_of_read_none (read_of_rest_eq_nil rfl)))

/-- One call: a gap, and the lexeme behind it. -/
lemma exists_of_read (h : cursor.read = (some lexeme, next)) :
    ∃ gap taken, cursor.rest = gap ++ (taken ++ next.rest) ∧ Trivia (taken ++ next.rest) gap ∧ taken ≠ [] ∧
      next.position = cursor.position + byteLength gap + byteLength taken ∧
      lexemeSpan lexeme = ⟨cursor.position + byteLength gap, next.position⟩ ∧ ∀ token, lexeme = .ok token →
      token.Fits taken next.rest := by
  obtain ⟨gap, hrest, hposition, htrivia, hvisible⟩ := exists_of_skipTrivia cursor
  unfold read at h
  generalize cursor.skipTrivia = start at h hrest hposition htrivia hvisible
  obtain ⟨pos, rest⟩ := start
  cases rest with
  | nil => cases h
  | cons c rest =>
    have happend := scan_append c rest
    simp only [Prod.mk.injEq, Option.some.injEq] at h
    obtain ⟨rfl, rfl⟩ := h
    subst hposition
    refine ⟨gap, (scan c rest).text, happend.symm ▸ hrest, happend.symm ▸ htrivia,
      scan_text_ne_nil c rest, rfl, ?_⟩
    cases hscan : (scan c rest).outcome with
    | error fault => exact ⟨rfl, by simp⟩
    | ok kind =>
      refine ⟨rfl, ?_⟩
      rintro _ ⟨⟩
      obtain ⟨less, hless, htext, hagain⟩ := scan_isolated hscan
      refine ⟨String.toList_ofList, ?_, fun hfixed => ?_⟩
      · rw [htext]
        exact lexemes_isolated hvisible hless (startsComment_mono hless (scan_ok hscan).1) hagain
      · obtain ⟨spelling, hspell, hmem, hlongest⟩ := longest_of_scan hscan hfixed
        rw [hspell, String.ofList_toList]
        refine ⟨hmem, fun other hother hprefix => hlongest other hother ?_⟩
        rwa [← hspell, happend] at hprefix

lemma cut_lexemes (cursor : Cursor) : Cut cursor.position cursor.rest cursor.lexemes := by
  fun_induction Cursor.lexemes cursor with
  | case1 cursor lexeme next hread ih =>
    obtain ⟨gap, taken, hrest, htrivia, hnonempty, hposition, hspan, hfits⟩ := exists_of_read hread
    rw [hposition] at hspan ih
    rw [hrest]
    exact .next htrivia hnonempty hspan hfits ih
  | case2 cursor next hread =>
    obtain ⟨gap, hrest, -, htrivia, -⟩ := exists_of_skipTrivia cursor
    obtain ⟨rfl, hend⟩ := of_read_none hread
    rw [hend] at htrivia hrest
    rw [hrest, append_nil]
    exact .done htrivia

end Cursor

/-! ## Spans -/

section

variable {pos : Nat} {found : List (Except LexicalError Token)}

section

variable (h : Cut pos text found)
include h

lemma Cut.length_le : found.length ≤ text.length := by
  induction h with
  | done => exact Nat.zero_le _
  | next _ hnonempty _ _ _ ih =>
    have hpos := length_pos_iff.mpr hnonempty
    simp only [length_cons, length_append]
    omega

lemma Cut.start_le (hm : lexeme ∈ found) : pos ≤ (lexemeSpan lexeme).start := by
  induction h with
  | done => cases hm
  | next _ _ hspan _ _ ih =>
    rcases mem_cons.mp hm with rfl | hm
    · rw [hspan]
      exact Nat.le_add_right ..
    · have := ih hm
      omega

lemma Cut.ordered : found.Pairwise fun a b => (lexemeSpan a).stop ≤ (lexemeSpan b).start := by
  induction h with
  | done => exact .nil
  | next _ _ hspan _ hlater ih =>
    refine .cons (fun lexeme hm => ?_) ih
    rw [hspan]
    exact hlater.start_le hm

lemma Cut.spans (pre : List Char) (hbefore : byteLength pre = pos)
    (hm : lexeme ∈ found) : (lexemeSpan lexeme).Within (pre ++ text) ∧ (lexemeSpan lexeme).start <
    (lexemeSpan lexeme).stop := by
  induction h generalizing pre with
  | done => cases hm
  | @next pos gap taken rest _ _ _ hnonempty hspan _ _ ih =>
    subst hbefore
    rcases mem_cons.mp hm with rfl | hm
    · rw [hspan]
      refine ⟨⟨⟨pre ++ gap, taken ++ rest, ?_, byteLength_append ..⟩, ⟨pre ++ gap ++ taken, rest, ?_, ?_⟩,
        Nat.le_add_right ..⟩, ?_⟩
      · simp only [append_assoc]
      · simp only [append_assoc]
      · simp only [byteLength_append]
      · exact Nat.lt_add_of_pos_right (byteLength_pos hnonempty)
    · have hlater := ih (pre ++ gap ++ taken) (by simp only [byteLength_append]) hm
      simpa only [append_assoc] using hlater

end

end

/-! ## Calls -/

namespace Lexer

lemma next_of_read_none (h : cursor.read = (none, next)) :
    Lexer.next ⟨cursor, []⟩ = (.ok none, ⟨next, []⟩) := by
  simp only [Lexer.next, h]

lemma next_of_read (h : cursor.read = (some lexeme, next)) :
    Lexer.next ⟨cursor, []⟩ = (lexeme.map some, ⟨next, []⟩) := by
  cases lexeme <;> simp only [Lexer.next, h] <;> rfl

lemma answers_of_rest_eq_nil (h : cursor.rest = []) (more : Nat) :
    answers ⟨cursor, []⟩ more = replicate more (.ok none) := by
  induction more with
  | zero => rfl
  | succ more ih =>
    rw [answers, next_of_read_none (Cursor.read_of_rest_eq_nil h), ih]
    rfl

lemma answers_lexemes (cursor : Cursor) (more : Nat) :
    answers ⟨cursor, []⟩ (cursor.lexemes.length + more) = cursor.lexemes.map (Except.map some) ++ replicate more
    (.ok none) := by
  fun_induction Cursor.lexemes cursor with
  | case1 cursor lexeme next hread ih =>
    rw [length_cons, Nat.add_right_comm, answers, next_of_read hread, ih]
    rfl
  | case2 cursor next hread =>
    cases more with
    | zero => rfl
    | succ more =>
      rw [length_nil, Nat.zero_add, answers, next_of_read_none hread,
        answers_of_rest_eq_nil (Cursor.of_read_none hread).2]
      rfl

/-- Every text is cut into lexemes, which the calls give in order. -/
theorem partitions (text : List Char) : Partitions text (lexemes text) where
  few := (Cursor.ofText text).cut_lexemes.length_le
  calls := answers_lexemes (Cursor.ofText text)
  spans _ hm := (Cursor.ofText text).cut_lexemes.spans [] rfl hm
  ordered := (Cursor.ofText text).cut_lexemes.ordered
  cut := (Cursor.ofText text).cut_lexemes

end Lexer

end Shading
