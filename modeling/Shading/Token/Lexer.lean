import Shading.Token.Scan

/-!
# Lexing

`Cursor.read` skips white space and comments and reads the next token or
fault.  `lexemes` reads a whole text; it goes on after a fault with the text
behind the characters the fault consumed.

A `Lexer` reads on demand with lookahead.  Tokens that were looked at are kept
in its buffer; a fault met while looking ahead is returned once and its
characters are gone.
-/

namespace Shading

/-- A place in a text: the byte offset and the text from there on. -/
structure Cursor where
  position : Nat
  rest : List Char

namespace Cursor

def ofText (text : List Char) : Cursor := ⟨0, text⟩

/-! ## Algorithm -/

/-- Just behind the first `*/`. -/
def afterComment? (position : Nat) : List Char → Option Cursor
  | '*' :: '/' :: rest => some ⟨position + 2, rest⟩
  | c :: rest => afterComment? (position + c.utf8Size) rest
  | [] => none

/-- The next newline, or the end. -/
def lineEnd (position : Nat) : List Char → Cursor
  | [] => ⟨position, []⟩
  | c :: rest => if c = '\n' then ⟨position, c :: rest⟩ else lineEnd (position + c.utf8Size) rest

theorem lineEnd_length_le (position : Nat) (text : List Char) :
    (lineEnd position text).rest.length ≤ text.length := by
  induction text generalizing position with
  | nil => simp [lineEnd]
  | cons c rest ih =>
    by_cases hc : c = '\n'
    · simp [lineEnd, hc]
    · have := ih (position + c.utf8Size)
      simp only [lineEnd, hc, if_false, List.length_cons]
      omega

theorem afterComment?_length_lt {position : Nat} {text : List Char} {cursor : Cursor}
    (h : afterComment? position text = some cursor) : cursor.rest.length < text.length := by
  fun_induction afterComment? position text with
  | case1 =>
    cases h
    simp only [List.length_cons]
    omega
  | case2 position c rest _ ih => have := ih h; simp; omega
  | case3 => simp at h

/-- Where the next token starts: behind white space, `//` comments up to their
newline, and closed `/* */` comments. -/
def skipTrivia (cursor : Cursor) : Cursor :=
  match cursor with
  | ⟨position, c :: rest⟩ =>
    if isBlank c then
      skipTrivia ⟨position + c.utf8Size, rest⟩
    else
      match c, rest with
      | '/', '/' :: rest => skipTrivia (lineEnd (position + 2) rest)
      | '/', '*' :: rest =>
        match _found : afterComment? (position + 2) rest with
        | some behind => skipTrivia behind
        | none => cursor
      | _, _ => cursor
  | ⟨_, []⟩ => cursor
termination_by cursor.rest.length
decreasing_by
  · simp
  · have := lineEnd_length_le (position + 2) rest
    simp; omega
  · have := afterComment?_length_lt _found
    simp; omega

/-- Reads the next token or fault; `none` at the end of the text. -/
def read (cursor : Cursor) : Option (Except LexicalError Token) × Cursor :=
  let start := cursor.skipTrivia
  match start.rest with
  | [] => (none, start)
  | c :: rest =>
    let found := scan c rest
    let stop := start.position + byteLength found.text
    let span : Span := ⟨start.position, stop⟩
    let lexeme := match found.outcome with
      | .ok kind => .ok ⟨kind, span, String.ofList found.text⟩
      | .error fault => .error ⟨fault, span⟩
    (some lexeme, ⟨stop, found.rest⟩)

theorem skipTrivia_length_le (cursor : Cursor) :
    cursor.skipTrivia.rest.length ≤ cursor.rest.length := by
  fun_induction skipTrivia cursor with
  | case1 position c rest _ ih => simp at ih ⊢; omega
  | case2 position rest _ ih =>
    have := lineEnd_length_le (position + 2) rest
    simp; omega
  | case3 position rest behind found _ ih =>
    have := afterComment?_length_lt found
    simp; omega
  | case4 => simp
  | case5 => simp
  | case6 => simp

theorem read_length_lt {cursor next : Cursor} {lexeme : Except LexicalError Token}
    (h : cursor.read = (some lexeme, next)) : next.rest.length < cursor.rest.length := by
  have hskip := skipTrivia_length_le cursor
  unfold read at h
  cases hrest : cursor.skipTrivia.rest with
  | nil => simp [hrest] at h
  | cons c rest =>
    have hscan := scan_rest_length_lt c rest
    simp only [hrest, Prod.mk.injEq] at h
    rw [← h.2]
    simp only [hrest] at hskip
    simp only
    omega

/-- Everything from the cursor on. -/
def lexemes (cursor : Cursor) : List (Except LexicalError Token) :=
  match _read : cursor.read with
  | (some lexeme, next) => lexeme :: lexemes next
  | (none, _) => []
termination_by cursor.rest.length
decreasing_by exact read_length_lt _read

end Cursor

/-- Tokens and faults of a text, in order. -/
def lexemes (text : List Char) : List (Except LexicalError Token) := (Cursor.ofText text).lexemes

/-! ## Lookahead -/

structure Lexer where
  cursor : Cursor
  /-- Tokens looked at and not yet taken, oldest first. -/
  buffer : List Token

namespace Lexer

def ofText (text : List Char) : Lexer := ⟨Cursor.ofText text, []⟩

/-- Byte offset just past the last character consumed, looked at or not. -/
def position (lexer : Lexer) : Nat := lexer.cursor.position

/-- The answer to a request for a token, `none` at the end of the text. -/
abbrev Answer := Except LexicalError (Option Token)

/-- Takes the next token. -/
def next (lexer : Lexer) : Answer × Lexer :=
  match lexer.buffer with
  | token :: rest => (.ok (some token), { lexer with buffer := rest })
  | [] =>
    match lexer.cursor.read with
    | (some (.ok token), cursor) => (.ok (some token), { lexer with cursor })
    | (some (.error fault), cursor) => (.error fault, { lexer with cursor })
    | (none, cursor) => (.ok none, { lexer with cursor })

/-- Reads `count` more tokens into the buffer, fewer at a fault or the end. -/
def fill (lexer : Lexer) : (count : Nat) → Except LexicalError Unit × Lexer
  | 0 => (.ok (), lexer)
  | count + 1 =>
    match lexer.cursor.read with
    | (some (.ok token), cursor) => fill ⟨cursor, lexer.buffer ++ [token]⟩ count
    | (some (.error fault), cursor) => (.error fault, { lexer with cursor })
    | (none, cursor) => (.ok (), { lexer with cursor })

/-- Looks at the token `n` places ahead. -/
def peek (lexer : Lexer) (n : Nat) : Answer × Lexer :=
  match lexer.fill (n + 1 - lexer.buffer.length) with
  | (.ok (), lexer) => (.ok lexer.buffer[n]?, lexer)
  | (.error fault, lexer) => (.error fault, lexer)

end Lexer

end Shading
