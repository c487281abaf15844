import Shading.Text.Character
import Shading.Token

/-!
# Reading one token

`scan` reads the token, or the fault, at the front of a text that starts with
neither white space nor a closed comment.  What it consumes is a prefix of the
text (`scan_append`) and at least one character (`scan_text_ne_nil`).
-/

namespace Shading

/-- Outcome of reading at the front of a text: what was read, the characters
it consumed, and the text after them. -/
structure Scan where
  outcome : Except LexicalFault TokenKind
  text : List Char
  rest : List Char

/-! ## Algorithm -/

/-- A keyword, boolean literal or name. -/
def wordKind (word : String) : TokenKind :=
  match Keyword.ofText? word with
  | some keyword => .keyword keyword
  | none => if word = "true" || word = "false" then .booleanLiteral else .identifier

def scanWord (text : List Char) : Scan :=
  let word := text.takeWhile isNamePart
  ⟨.ok (wordKind (String.ofList word)), word, text.dropWhile isNamePart⟩

/-- Splits off digits. -/
def splitDigits (text : List Char) : List Char × List Char :=
  (text.takeWhile Char.isDigit, text.dropWhile Char.isDigit)

/-- Splits off a point and the digits after it. -/
def splitFraction : List Char → List Char × List Char
  | '.' :: rest => ('.' :: (splitDigits rest).1, (splitDigits rest).2)
  | text => ([], text)

def isExponentMark (c : Char) : Bool := c = 'e' || c = 'E'

def isSign (c : Char) : Bool := c = '+' || c = '-'

/-- Splits off the mark of an exponent and its sign. -/
def splitExponentMark : List Char → List Char × List Char
  | c :: sign :: rest =>
    if isExponentMark c then
      if isSign sign then ([c, sign], rest) else ([c], sign :: rest)
    else
      ([], c :: sign :: rest)
  | [c] => if isExponentMark c then ([c], []) else ([], [c])
  | [] => ([], [])

/-- Splits off the suffix of a single precision literal. -/
def splitSuffix : List Char → List Char × List Char
  | c :: rest => if c = 'f' || c = 'F' then ([c], rest) else ([], c :: rest)
  | [] => ([], [])

/-- Ends a number: an optional suffix, and no name right after it. -/
def scanNumberEnd (read : List Char) (kind : TokenKind) (text : List Char) : Scan :=
  let (suffix, rest) := splitSuffix text
  let kind := if suffix.isEmpty then kind else .floatLiteral
  match rest with
  | c :: tail =>
    if isNamePart c then ⟨.error .invalidSuffix, read ++ suffix ++ [c], tail⟩
    else ⟨.ok kind, read ++ suffix, c :: tail⟩
  | [] => ⟨.ok kind, read ++ suffix, []⟩

/-- `digits [. digits] [e [sign] digits] [f]`. -/
def scanNumber (text : List Char) : Scan :=
  let (whole, rest) := splitDigits text
  let (fraction, rest) := splitFraction rest
  let kind := if fraction.isEmpty then TokenKind.integerLiteral else .floatLiteral
  match splitExponentMark rest with
  | ([], rest) => scanNumberEnd (whole ++ fraction) kind rest
  | (mark, rest) =>
    let (exponent, tail) := splitDigits rest
    if exponent.isEmpty then ⟨.error .missingExponent, whole ++ fraction ++ mark, rest⟩
    else scanNumberEnd (whole ++ fraction ++ mark ++ exponent) .floatLiteral tail

/-- The first spelling that starts the text. -/
def spellingOf? (text : List Char) : Option (String × TokenKind) :=
  TokenKind.spellings.find? fun spelling => spelling.1.toList.isPrefixOf text

/-- Whether a text starts with a point and a digit. -/
def startsFraction : List Char → Bool
  | c :: d :: _ => c = '.' && d.isDigit
  | _ => false

/-- Whether a text starts with `/*`. -/
def startsComment : List Char → Bool
  | '/' :: '*' :: _ => true
  | _ => false

/-- Reads at the front of the text `c :: rest`. -/
def scan (c : Char) (rest : List Char) : Scan :=
  let text := c :: rest
  if startsComment text then ⟨.error .unterminatedComment, text, []⟩
  else if c.isDigit || startsFraction text then scanNumber text
  else if isNameStart c then scanWord text
  else if !isAscii c then ⟨.error (.nonAscii c), [c], rest⟩
  else
    match spellingOf? text with
    | some (spelling, kind) =>
      ⟨.ok kind, text.take spelling.length, text.drop spelling.length⟩
    | none => ⟨.error (.unexpected c), [c], rest⟩

/-! ## Lemmas -/

theorem splitDigits_append (text : List Char) : (splitDigits text).1 ++ (splitDigits text).2 = text :=
  List.takeWhile_append_dropWhile

theorem splitFraction_append (text : List Char) :
    (splitFraction text).1 ++ (splitFraction text).2 = text := by
  unfold splitFraction
  split
  · simp [splitDigits_append]
  · simp

theorem splitExponentMark_append (text : List Char) :
    (splitExponentMark text).1 ++ (splitExponentMark text).2 = text := by
  unfold splitExponentMark
  split <;> (repeat' split) <;> simp

theorem splitSuffix_append (text : List Char) : (splitSuffix text).1 ++ (splitSuffix text).2 = text := by
  unfold splitSuffix
  split <;> (repeat' split) <;> simp

theorem scanNumberEnd_append (read : List Char) (kind : TokenKind) (text : List Char) :
    (scanNumberEnd read kind text).text ++ (scanNumberEnd read kind text).rest = read ++ text := by
  have h := splitSuffix_append text
  unfold scanNumberEnd
  generalize splitSuffix text = parts at h
  obtain ⟨suffix, rest⟩ := parts
  cases rest with
  | nil => simp_all
  | cons c tail => by_cases hc : isNamePart c <;> simp_all

theorem scanNumber_append (text : List Char) :
    (scanNumber text).text ++ (scanNumber text).rest = text := by
  have h₁ := splitDigits_append text
  unfold scanNumber
  rcases hwhole : splitDigits text with ⟨whole, rest⟩
  have h₂ := splitFraction_append rest
  rcases hfraction : splitFraction rest with ⟨fraction, rest₂⟩
  have h₃ := splitExponentMark_append rest₂
  rcases hmark : splitExponentMark rest₂ with ⟨mark, rest₃⟩
  rw [hwhole] at h₁
  rw [hfraction] at h₂
  rw [hmark] at h₃
  simp only [hfraction, hmark]
  cases mark with
  | nil => simp_all [scanNumberEnd_append]
  | cons c mark =>
    have h₄ := splitDigits_append rest₃
    rcases hexponent : splitDigits rest₃ with ⟨exponent, tail⟩
    rw [hexponent] at h₄
    by_cases hempty : exponent.isEmpty <;> simp_all [scanNumberEnd_append]

/-- What a scan consumes is a prefix of the text. -/
theorem scan_append (c : Char) (rest : List Char) :
    (scan c rest).text ++ (scan c rest).rest = c :: rest := by
  unfold scan
  by_cases hcomment : startsComment (c :: rest)
  · simp [hcomment]
  by_cases hnumber : c.isDigit || startsFraction (c :: rest)
  · simp only [hcomment, hnumber, if_true]
    exact scanNumber_append _
  by_cases hname : isNameStart c
  · simp only [hcomment, hnumber, hname, if_true]
    exact List.takeWhile_append_dropWhile
  by_cases hascii : isAscii c
  · cases hspelling : spellingOf? (c :: rest) with
    | none => simp [hcomment, hnumber, hname, hascii, hspelling]
    | some found => simp [hcomment, hnumber, hname, hascii, hspelling]
  · simp [hcomment, hnumber, hname, hascii]

theorem prefix_scanNumberEnd (read : List Char) (kind : TokenKind) (text : List Char) :
    read <+: (scanNumberEnd read kind text).text := by
  unfold scanNumberEnd
  rcases splitSuffix text with ⟨suffix, rest⟩
  cases rest with
  | nil => simp
  | cons c tail => by_cases hc : isNamePart c <;> simp [hc]

/-- The digits and the fraction of a number belong to its text. -/
theorem prefix_scanNumber (text : List Char) :
    (splitDigits text).1 ++ (splitFraction (splitDigits text).2).1 <+: (scanNumber text).text := by
  unfold scanNumber
  rcases splitDigits text with ⟨whole, rest⟩
  rcases hfraction : splitFraction rest with ⟨fraction, rest₂⟩
  rcases hmark : splitExponentMark rest₂ with ⟨mark, rest₃⟩
  simp only [hfraction, hmark]
  cases mark with
  | nil => exact prefix_scanNumberEnd _ _ _
  | cons c mark =>
    rcases hexponent : splitDigits rest₃ with ⟨exponent, tail⟩
    by_cases hempty : exponent.isEmpty
    · simp [hexponent, hempty]
    · simp only [hexponent, hempty]
      refine List.IsPrefix.trans ?_ (prefix_scanNumberEnd _ _ _)
      simp

theorem scanNumber_text_ne_nil (c : Char) (rest : List Char)
    (h : (c.isDigit || startsFraction (c :: rest)) = true) : (scanNumber (c :: rest)).text ≠ [] := by
  intro hnil
  have hprefix := prefix_scanNumber (c :: rest)
  rw [hnil, List.prefix_nil, List.append_eq_nil_iff] at hprefix
  obtain ⟨hwhole, hfraction⟩ := hprefix
  by_cases hdigit : c.isDigit
  · simp [splitDigits, hdigit] at hwhole
  · have hpoint : c = '.' := by
      rcases rest with - | ⟨d, tail⟩ <;> simp_all [startsFraction]
    subst hpoint
    simp [splitDigits, hdigit, splitFraction] at hfraction

theorem isNamePart_of_isNameStart (c : Char) (h : isNameStart c = true) : isNamePart c = true := by
  simp only [isNameStart, isNamePart, Char.isAlphanum, Bool.or_eq_true] at h ⊢
  rcases h with h | h
  · exact Or.inl (Or.inl h)
  · exact Or.inr h

theorem spelling_length_pos : ∀ spelling ∈ TokenKind.spellings, 0 < spelling.1.length := by
  decide

/-- A scan consumes at least one character. -/
theorem scan_text_ne_nil (c : Char) (rest : List Char) : (scan c rest).text ≠ [] := by
  unfold scan
  by_cases hcomment : startsComment (c :: rest)
  · simp [hcomment]
  by_cases hnumber : c.isDigit || startsFraction (c :: rest)
  · simp only [hcomment, hnumber, if_true]
    exact scanNumber_text_ne_nil c rest hnumber
  by_cases hname : isNameStart c
  · simp [hcomment, hnumber, hname, scanWord, isNamePart_of_isNameStart c hname]
  by_cases hascii : isAscii c
  · cases hspelling : spellingOf? (c :: rest) with
    | none => simp [hcomment, hnumber, hname, hascii, hspelling]
    | some found =>
      have hpos := spelling_length_pos found (List.mem_of_find?_eq_some hspelling)
      simp [hcomment, hnumber, hname, hascii, hspelling]
      intro hzero
      simp [hzero] at hpos
  · simp [hcomment, hnumber, hname, hascii]

theorem scan_rest_length_lt (c : Char) (rest : List Char) :
    (scan c rest).rest.length < (c :: rest).length := by
  have happend := congrArg List.length (scan_append c rest)
  have hpos := List.length_pos_iff.mpr (scan_text_ne_nil c rest)
  rw [List.length_append] at happend
  omega

end Shading
