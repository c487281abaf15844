import Mathlib.Data.List.Infix
import Shading.Token.Scan

/-!
# Tokens on their own

Each part of a number is split off with a look at one character behind it at
most, words end where their characters do, and the first spelling that starts a
text starts every text that it starts with.  So a token is read again from its
own text (`scan_isolated`), and an operator is the longest spelling that the
text has there (`longest_of_scan`).
-/

namespace Shading

open List

variable {read text : List Char} {found kind : TokenKind} {spelling : String}

lemma takeWhile_isolated {p : Char → Bool} {less : List Char} (h : less <+: text.dropWhile p) :
    (text.takeWhile p ++ less).takeWhile p = text.takeWhile p ∧ (text.takeWhile p ++ less).dropWhile p = less := by
  induction text with
  | nil =>
    obtain rfl := prefix_nil.mp h
    exact ⟨rfl, rfl⟩
  | cons c rest ih =>
    by_cases hc : p c = true
    · rw [dropWhile_cons_of_pos hc] at h
      simpa [takeWhile_cons_of_pos hc, hc] using ih h
    · rw [dropWhile_cons_of_neg hc] at h
      cases less with
      | nil => simp [hc]
      | cons d less =>
        obtain ⟨rfl, -⟩ := cons_prefix_cons.mp h
        simp [hc]

/-! ## Numbers -/

/-- A part that is split off is split off again if less stands behind it. -/
def Splits (split : List Char → List Char × List Char) : Prop :=
  ∀ ⦃text front rest less⦄, split text = (front, rest) → less <+: rest → split (front ++ less) = (front, less)

lemma splitDigits_splits : Splits splitDigits := by
  rintro text _ _ less ⟨⟩ hless
  obtain ⟨htake, hdrop⟩ := takeWhile_isolated hless
  rw [splitDigits, htake, hdrop]

lemma splitFraction_splits : Splits splitFraction := by
  intro text front rest less h hless
  unfold splitFraction at h
  split at h
  · rename_i digits
    cases h
    have hdigits : splitDigits ((splitDigits digits).1 ++ less) = ((splitDigits digits).1, less) :=
      splitDigits_splits rfl hless
    rw [cons_append, splitFraction, hdigits]
  · rename_i hpoint
    cases h
    cases less with
    | nil => rfl
    | cons c less =>
      obtain ⟨behind, rfl⟩ := hless
      rw [nil_append, splitFraction]
      rintro _ ⟨⟩
      exact hpoint _ rfl

lemma splitExponentMark_splits : Splits splitExponentMark := by
  intro text front rest less h hless
  unfold splitExponentMark at h
  split at h
  · rename_i c sign behind
    split at h
    · rename_i hmark
      split at h <;> cases h
      · rename_i hsign
        simp [splitExponentMark, hmark, hsign]
      · rename_i hsign
        cases less with
        | nil => simp [splitExponentMark, hmark]
        | cons d less =>
          obtain ⟨rfl, -⟩ := cons_prefix_cons.mp hless
          simp [splitExponentMark, hmark, hsign]
    · rename_i hmark
      cases h
      rcases less with - | ⟨d, - | ⟨e, less⟩⟩
      · rfl
      all_goals
        obtain ⟨rfl, -⟩ := cons_prefix_cons.mp hless
        simp [splitExponentMark, hmark]
  · rename_i c
    split at h <;> cases h
    · rename_i hmark
      obtain rfl := prefix_nil.mp hless
      simp [splitExponentMark, hmark]
    · rename_i hmark
      rcases less with - | ⟨d, less⟩
      · rfl
      · obtain ⟨rfl, hnil⟩ := cons_prefix_cons.mp hless
        obtain rfl := prefix_nil.mp hnil
        simp [splitExponentMark, hmark]
  · cases h
    obtain rfl := prefix_nil.mp hless
    rfl

lemma splitSuffix_splits : Splits splitSuffix := by
  intro text front rest less h hless
  unfold splitSuffix at h
  split at h
  · rename_i c behind
    split at h <;> cases h
    · rename_i hsuffix
      simp [splitSuffix, hsuffix]
    · rename_i hsuffix
      rcases less with - | ⟨d, less⟩
      · rfl
      · obtain ⟨rfl, -⟩ := cons_prefix_cons.mp hless
        simp [splitSuffix, hsuffix]
  · cases h
    obtain rfl := prefix_nil.mp hless
    rfl

/-- The end of a number without what stands behind it. -/
lemma scanNumberEnd_isolated (h : (scanNumberEnd read kind text).outcome = .ok found) :
    ∃ suffix, suffix <+: text ∧ (scanNumberEnd read kind text).text = read ++ suffix ∧
      scanNumberEnd read kind suffix = ⟨.ok found, read ++ suffix, []⟩ := by
  have happend := splitSuffix_append text
  rcases hsuffix : splitSuffix text with ⟨suffix, rest⟩
  have hagain := splitSuffix_splits hsuffix List.nil_prefix
  rw [append_nil] at hagain
  rw [hsuffix] at happend
  unfold scanNumberEnd at h ⊢
  rw [hsuffix] at h ⊢
  refine ⟨suffix, ⟨rest, happend⟩, ?_⟩
  rw [hagain]
  cases rest with
  | nil =>
    cases h
    exact ⟨rfl, rfl⟩
  | cons c tail =>
    dsimp only at h ⊢
    split at h
    · cases h
    · rename_i hname
      cases h
      rw [if_neg hname]
      exact ⟨rfl, rfl⟩

lemma scanNumber_isolated (h : (scanNumber text).outcome = .ok kind) :
    scanNumber (scanNumber text).text = ⟨.ok kind, (scanNumber text).text, []⟩ := by
  have hwholeAppend := splitDigits_append text
  rcases hwhole : splitDigits text with ⟨whole, rest₁⟩
  have hfractionAppend := splitFraction_append rest₁
  rcases hfraction : splitFraction rest₁ with ⟨fraction, rest₂⟩
  have hmarkAppend := splitExponentMark_append rest₂
  rcases hmark : splitExponentMark rest₂ with ⟨mark, rest₃⟩
  rw [hwhole] at hwholeAppend
  rw [hfraction] at hfractionAppend
  rw [hmark] at hmarkAppend
  dsimp only at hwholeAppend hfractionAppend hmarkAppend
  unfold scanNumber at h ⊢
  simp only [hwhole, hfraction, hmark] at h ⊢
  -- The parts are split off the text of the number as off the whole text.
  have hsplit (less : List Char) (hless : less <+: rest₃) :
    splitDigits (whole ++ (fraction ++ (mark ++ less))) = (whole, fraction ++ (mark ++ less)) ∧
      splitFraction (fraction ++ (mark ++ less)) = (fraction, mark ++ less) ∧ splitExponentMark (mark ++ less) =
      (mark, less) := by
    have hless₂ : mark ++ less <+: rest₂ := hmarkAppend ▸ (prefix_append_right_inj mark).mpr hless
    have hless₁ : fraction ++ (mark ++ less) <+: rest₁ :=
      hfractionAppend ▸ (prefix_append_right_inj fraction).mpr hless₂
    exact ⟨splitDigits_splits hwhole hless₁, splitFraction_splits hfraction hless₂,
      splitExponentMark_splits hmark hless⟩
  cases mark with
  | nil =>
    dsimp only at h ⊢
    obtain ⟨suffix, hprefix, htext, hend⟩ := scanNumberEnd_isolated h
    obtain ⟨h₁, h₂, h₃⟩ := hsplit suffix hprefix
    rw [htext, append_assoc]
    simp only [nil_append] at h₁ h₂ h₃
    simp only [h₁, h₂, h₃, hend, append_assoc]
  | cons c mark =>
    have hexponentAppend := splitDigits_append rest₃
    rcases hexponent : splitDigits rest₃ with ⟨exponent, tail⟩
    rw [hexponent] at hexponentAppend
    simp only [hexponent] at h hexponentAppend ⊢
    by_cases hempty : exponent.isEmpty = true
    · simp [hempty] at h
    · simp only [hempty, Bool.false_eq_true, if_false] at h ⊢
      obtain ⟨suffix, hprefix, htext, hend⟩ := scanNumberEnd_isolated h
      have hless : exponent ++ suffix <+: rest₃ := hexponentAppend ▸ (prefix_append_right_inj exponent).mpr hprefix
      obtain ⟨h₁, h₂, h₃⟩ := hsplit _ hless
      have h₄ := splitDigits_splits hexponent hprefix
      have hassoc : whole ++ fraction ++ c :: mark ++ exponent ++ suffix = whole ++
          (fraction ++ (c :: mark ++ (exponent ++ suffix))) := by
        simp only [append_assoc]
      simp only [htext, hassoc, h₁, h₂, h₃, h₄, hempty, Bool.false_eq_true, if_false]
      rw [hend, hassoc]

/-! ## Kinds -/

/-- Operators and delimiters: neither a word nor a literal. -/
def TokenKind.isFixed : TokenKind → Bool
  | .keyword _ | .identifier | .booleanLiteral | .integerLiteral | .floatLiteral => false
  | _ => true

lemma isFixed_wordKind (word : String) : (wordKind word).isFixed = false := by
  unfold wordKind
  split
  · rfl
  · split <;> rfl

lemma isFixed_of_scanNumberEnd (hkind : kind.isFixed = false)
    (h : (scanNumberEnd read kind text).outcome = .ok found) : found.isFixed = false := by
  unfold scanNumberEnd at h
  have hend : (if (splitSuffix text).1.isEmpty then kind else .floatLiteral).isFixed = false := by
    split
    · exact hkind
    · rfl
  dsimp only at h
  split at h
  · split at h <;> cases h
    exact hend
  · cases h
    exact hend

lemma isFixed_of_scanNumber (h : (scanNumber text).outcome = .ok found) : found.isFixed = false := by
  unfold scanNumber at h
  dsimp only at h
  split at h
  · refine isFixed_of_scanNumberEnd ?_ h
    split <;> rfl
  · split at h
    · cases h
    · exact isFixed_of_scanNumberEnd rfl h

/-! ## One token -/

variable {c : Char} {rest less : List Char} {kind : TokenKind}

lemma prefix_of_spellingOf? (h : spellingOf? text = some (spelling, kind)) : spelling.toList <+: text := by
  have hfound := find?_some h
  exact List.isPrefixOf_iff_prefix.mp hfound

/-- The ways to read a token. -/
lemma scan_ok (h : (scan c rest).outcome = .ok kind) : startsComment (c :: rest) = false ∧
    ((c.isDigit || startsFraction (c :: rest)) = true ∧ scan c rest = scanNumber (c :: rest) ∨
      (c.isDigit || startsFraction (c :: rest)) = false ∧ isNameStart c = true ∧
      scan c rest = scanWord (c :: rest) ∨
      (c.isDigit || startsFraction (c :: rest)) = false ∧ isNameStart c = false ∧ isAscii c = true ∧
        ∃ spelling, spellingOf? (c :: rest) = some (spelling, kind) ∧ (scan c rest).text = spelling.toList) := by
  unfold scan at h ⊢
  dsimp only at h ⊢
  split at h
  · cases h
  rename_i hcomment
  refine ⟨Bool.eq_false_iff.mpr hcomment, ?_⟩
  rw [if_neg hcomment]
  split at h
  · rename_i hnum
    exact .inl ⟨hnum, if_pos hnum⟩
  rename_i hnum
  rw [if_neg hnum]
  refine .inr ?_
  split at h
  · rename_i hname
    exact .inl ⟨Bool.eq_false_iff.mpr hnum, hname, if_pos hname⟩
  rename_i hname
  rw [if_neg hname]
  refine .inr ⟨Bool.eq_false_iff.mpr hnum, Bool.eq_false_iff.mpr hname, ?_⟩
  split at h
  · cases h
  rename_i hascii
  refine ⟨by simpa using hascii, ?_⟩
  rw [if_neg hascii]
  split at h
  · rename_i spelling found hspell
    cases h
    refine ⟨spelling, hspell, ?_⟩
    rw [← String.length_toList]
    exact (prefix_iff_eq_take.mp (prefix_of_spellingOf? hspell)).symm
  · cases h

lemma startsComment_mono (hless : less <+: rest) (h : startsComment (c :: rest) = false) :
    startsComment (c :: less) = false := by
  unfold startsComment at h ⊢
  split
  · rename_i behind heq
    obtain ⟨rfl, rfl⟩ := cons.inj heq
    obtain ⟨tail, rfl⟩ := hless
    cases h
  · rfl

lemma startsFraction_mono (hless : less <+: rest) (h : startsFraction (c :: rest) = false) :
    startsFraction (c :: less) = false := by
  rcases less with - | ⟨d, less⟩
  · rfl
  · obtain ⟨tail, rfl⟩ := hless
    exact h

/-- The number in a text that starts with one starts with one. -/
lemma starts_of_scanNumber (h : (c.isDigit || startsFraction (c :: rest)) = true)
    (htext : (scanNumber (c :: rest)).text = c :: less) : (c.isDigit || startsFraction (c :: less)) = true := by
  rcases Bool.eq_false_or_eq_true c.isDigit with hdigit | hdigit
  · rw [hdigit, Bool.true_or]
  · rw [hdigit, Bool.false_or] at h ⊢
    rcases rest with - | ⟨d, rest⟩
    · cases h
    · simp only [startsFraction, Bool.and_eq_true, decide_eq_true_eq] at h
      obtain ⟨rfl, hd⟩ := h
      have hprefix := prefix_scanNumber ('.' :: d :: rest)
      rw [htext] at hprefix
      simp only [splitDigits, hdigit, Bool.false_eq_true, not_false_eq_true, takeWhile_cons_of_neg,
        dropWhile_cons_of_neg, splitFraction, takeWhile_cons_of_pos hd, nil_append] at hprefix
      obtain ⟨tail, htail⟩ := hprefix
      cases htail
      simp [startsFraction, hd]

/-- A spelling is the first one that its own text starts with, if it is in a
longer text. -/
lemma spellingOf?_isolated (hspell : spellingOf? text = some (spelling, kind)) :
    spellingOf? spelling.toList = some (spelling, kind) := by
  obtain ⟨-, earlier, later, hsplit, hearlier⟩ := find?_eq_some_iff_append.mp hspell
  refine find?_eq_some_iff_append.mpr ⟨by simp, earlier, later, hsplit, fun other hother => ?_⟩
  have hnone := hearlier other hother
  simp only [Bool.not_eq_true', ← Bool.not_eq_true, List.isPrefixOf_iff_prefix] at hnone ⊢
  exact fun h => hnone (h.trans (prefix_of_spellingOf? hspell))

/-- A token is read again from its own text. -/
lemma scan_isolated (h : (scan c rest).outcome = .ok kind) :
    ∃ less, less <+: rest ∧ (scan c rest).text = c :: less ∧ scan c less = ⟨.ok kind, c :: less, []⟩ := by
  have happend := scan_append c rest
  obtain ⟨d, less, htext⟩ := exists_cons_of_ne_nil (scan_text_ne_nil c rest)
  rw [htext] at happend
  obtain ⟨rfl, hrest⟩ := cons.inj happend
  have hless : less <+: rest := ⟨_, hrest⟩
  refine ⟨less, hless, htext, ?_⟩
  obtain ⟨hcomment, ⟨hnum, hscan⟩ | ⟨hnum, hname, hscan⟩ | ⟨hnum, hname, hascii, spelling, hspell,
      htaken⟩⟩ := scan_ok h
  all_goals
    unfold scan
    simp only [startsComment_mono hless hcomment, Bool.false_eq_true, if_false]
  · rw [hscan] at h htext
    rw [if_pos (starts_of_scanNumber hnum htext), ← htext]
    exact scanNumber_isolated h
  all_goals
    rw [Bool.or_eq_false_iff] at hnum
    simp only [hnum.1, startsFraction_mono hless hnum.2, hname, Bool.or_self, Bool.false_eq_true,
      if_false, if_true]
  · rw [hscan] at h htext
    have hword : (d :: rest).takeWhile isNamePart = d :: less := htext
    obtain ⟨htake, hdrop⟩ := takeWhile_isolated (List.nil_prefix (l := (d :: rest).dropWhile isNamePart))
    rw [append_nil, hword] at htake hdrop
    rw [scanWord, htake, hdrop]
    cases h
    rw [hword]
  · have hspelled : d :: less = spelling.toList := htext.symm.trans htaken
    have hagain := spellingOf?_isolated hspell
    simp only [hascii, hspelled, hagain, ← String.length_toList]
    simp

/-- An operator or a delimiter is the longest spelling that the text starts
with. -/
lemma longest_of_scan (h : (scan c rest).outcome = .ok kind) (hfixed : kind.isFixed = true) :
    ∃ spelling, (scan c rest).text = spelling.toList ∧ (spelling, kind) ∈ TokenKind.spellings ∧
      ∀ other ∈ TokenKind.spellings, other.1.toList <+: c :: rest → other.1.length ≤ spelling.length := by
  obtain ⟨-, ⟨-, hscan⟩ | ⟨-, -, hscan⟩ | ⟨-, -, -, spelling, hspell, htaken⟩⟩ := scan_ok h
  · rw [hscan] at h
    rw [isFixed_of_scanNumber h] at hfixed
    cases hfixed
  · rw [hscan] at h
    cases h
    rw [isFixed_wordKind] at hfixed
    cases hfixed
  · refine ⟨spelling, htaken, mem_of_find?_eq_some hspell, fun other hother hprefix => ?_⟩
    obtain ⟨-, earlier, later, hsplit, hearlier⟩ := find?_eq_some_iff_append.mp hspell
    have hsorted : TokenKind.spellings.Pairwise fun a b => b.1.length ≤ a.1.length := by decide
    rw [hsplit] at hother hsorted
    rcases mem_append.mp hother with hm | hm
    · have hnone := hearlier other hm
      simp [List.isPrefixOf_iff_prefix.mpr hprefix] at hnone
    · rcases mem_cons.mp hm with rfl | hm
      · exact Nat.le_refl _
      · exact (pairwise_cons.mp (pairwise_append.mp hsorted).2.1).1 other hm

end Shading
