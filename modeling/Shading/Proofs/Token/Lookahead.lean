import Shading.Proofs.Token.Partition

/-!
# Looking ahead

Whatever a caller asks a lexer for, in any order, the tokens it takes are those
of the text in order, a token it looks at is the one it takes later, and a fault
is reported once, to the first call that has to read past it
(`Lexer.transparent_log`).  `due` says what a call is answered by the lexemes of
the text alone: by how many tokens were taken and how many faults reported.
-/

namespace Shading

open List

/-- The tokens among lexemes. -/
def tokensOf (found : List (Except LexicalError Token)) : List Token := found.filterMap Except.toOption

def fault? {α : Type} : Except LexicalError α → Option LexicalError
  | .ok _ => none
  | .error fault => some fault

/-- The faults among lexemes. -/
def faultsOf (found : List (Except LexicalError Token)) : List LexicalError := found.filterMap fault?

/-- The answer to a request for the token `index`, after some faults were
reported: the next fault, if it stands before the token, or the token. -/
def due : List (Except LexicalError Token) → (reported index : Nat) → Lexer.Answer
  | [], _, _ => .ok none
  | .error fault :: _, 0, _ => .error fault
  | .error _ :: rest, reported + 1, index => due rest reported index
  | .ok token :: _, _, 0 => .ok (some token)
  | .ok _ :: rest, reported, index + 1 => due rest reported index

namespace Lexer

/-- What a caller asks for. -/
inductive Call where
  | next
  | peek (n : Nat)

/-- Tokens before the one that is asked for. -/
def Call.ahead : Call → Nat
  | .next => 0
  | .peek n => n

def call (lexer : Lexer) : Call → Answer × Lexer
  | .next => lexer.next
  | .peek n => lexer.peek n

/-- Calls with their answers. -/
def log (lexer : Lexer) : List Call → List (Call × Answer)
  | [] => []
  | call :: rest => (call, (lexer.call call).1) :: (lexer.call call).2.log rest

def taken? : Call × Answer → Option Token
  | (.next, .ok token?) => token?
  | _ => none

/-- The tokens that were taken. -/
def taken (log : List (Call × Answer)) : List Token := log.filterMap taken?

/-- The faults that were reported. -/
def reported (log : List (Call × Answer)) : List LexicalError := log.filterMap fun entry => fault? entry.2

/-- Calls that do not show in what is read. -/
structure Transparent (found : List (Except LexicalError Token)) (log : List (Call × Answer)) : Prop where
  /-- No token is lost, repeated or moved. -/
  taken : taken log <+: tokensOf found
  /-- No fault is reported twice. -/
  reported : reported log <+: faultsOf found
  /-- A fault comes up as soon as a call has to read past it. -/
  answer : ∀ before call answer after, log = before ++ (call, answer) :: after →
    answer = due found (Lexer.reported before).length ((Lexer.taken before).length + call.ahead)
  /-- What is looked at is taken later. -/
  peeked : ∀ before n token after, log = before ++ (.peek n, .ok (some token)) :: after →
    (tokensOf found)[(Lexer.taken before).length + n]? = some token ∧ ∀ later ∈ (Lexer.taken after)[n]?,
    later = token

/-! ## One call -/

variable {lexer : Lexer} {pre rest found : List (Except LexicalError Token)} {index : Nat} {tokens : List Token}
  {faults : List LexicalError} {past : List (Call × Answer)}

/-- A token before which all faults were reported. -/
lemma due_append_of_some {token : Token} (h : (tokensOf pre)[index]? = some token) :
    due (pre ++ rest) (faultsOf pre).length index = .ok (some token) := by
  induction pre generalizing index with
  | nil => cases h
  | cons lexeme pre ih =>
    cases lexeme with
    | error fault => exact ih h
    | ok first =>
      cases index with
      | zero => exact congrArg Except.ok h
      | succ index => exact ih h

/-- What was reported and the tokens before it do not matter. -/
lemma due_append_of_le (h : (tokensOf pre).length ≤ index) :
    due (pre ++ rest) (faultsOf pre).length index = due rest 0 (index - (tokensOf pre).length) := by
  induction pre generalizing index with
  | nil => rfl
  | cons lexeme pre ih =>
    cases lexeme with
    | error fault => exact ih h
    | ok first =>
      cases index with
      | zero => cases h
      | succ index =>
        exact (ih (Nat.le_of_succ_le_succ h)).trans (congrArg (due rest 0) (Nat.succ_sub_succ ..).symm)

lemma getElem?_of_due {reported : Nat} {token : Token} (h : due found reported index = .ok (some token)) :
    (tokensOf found)[index]? = some token := by
  fun_induction due found reported index with
  | case1 | case2 => cases h
  | case3 _ _ _ _ ih | case5 _ _ _ _ ih => exact ih h
  | case4 => cases h; rfl

/-- The caller was given some tokens and faults, and the buffer comes next. -/
def Reads (found : List (Except LexicalError Token)) (tokens : List Token) (faults : List LexicalError)
    (lexer : Lexer) : Prop :=
  ∃ pre, found = pre ++ lexer.cursor.lexemes ∧ tokensOf pre = tokens ++ lexer.buffer ∧ faultsOf pre = faults

/-- The buffer has some length, or the lexer stands behind a fault or at the
end. -/
def Filled (found : List (Except LexicalError Token)) (tokens : List Token) (faults : List LexicalError)
    (size : Nat) : Except LexicalError Unit × Lexer → Prop
  | (.ok (), later) => Reads found tokens faults later ∧ (later.buffer.length < size → later.cursor.lexemes = [])
  | (.error fault, later) => later.buffer.length < size ∧ ∃ pre,
    found = pre ++ .error fault :: later.cursor.lexemes ∧
    tokensOf pre = tokens ++ later.buffer ∧ faultsOf pre = faults

lemma filled_fill (h : Reads found tokens faults lexer) {size count : Nat}
    (hcount : size - lexer.buffer.length = count) : Filled found tokens faults size (lexer.fill count) := by
  induction count generalizing lexer with
  | zero => exact ⟨h, fun hlt => by omega⟩
  | succ count ih =>
    obtain ⟨pre, hfound, htokens, hfaults⟩ := h
    unfold fill
    cases hread : lexer.cursor.read with
    | mk lexeme? next =>
      cases lexeme? with
      | none =>
        obtain ⟨-, hend⟩ := Cursor.of_read_none hread
        have hnone := Cursor.lexemes_of_read_none (Cursor.read_of_rest_eq_nil hend)
        refine ⟨⟨pre, ?_, htokens, hfaults⟩, fun _ => hnone⟩
        rw [hfound, Cursor.lexemes_of_read_none hread, hnone]
      | some lexeme =>
        rw [Cursor.lexemes_of_read hread] at hfound
        cases lexeme with
        | error fault => exact ⟨by simp only; omega, pre, hfound, htokens, hfaults⟩
        | ok token =>
          refine ih ⟨pre ++ [.ok token], by rw [hfound, append_assoc]; rfl, ?_, ?_⟩
            (by rw [length_append, length_singleton]; omega)
          · rw [tokensOf, filterMap_append, ← tokensOf, htokens, append_assoc]
            rfl
          · rw [faultsOf, filterMap_append, ← faultsOf, hfaults]
            exact append_nil _

/-- Looking ahead answers what is due. -/
lemma peek_reads (h : Reads found tokens faults lexer) (n : Nat) :
    (lexer.peek n).1 = due found faults.length (tokens.length + n) ∧
      Reads found tokens (faults ++ (fault? (lexer.peek n).1).toList) (lexer.peek n).2 := by
  have hfilled := filled_fill h (rfl : n + 1 - lexer.buffer.length = _)
  cases hfill : lexer.fill (n + 1 - lexer.buffer.length) with
  | mk result later =>
    rw [hfill] at hfilled
    rw [peek, hfill]
    cases result with
    | error fault =>
      obtain ⟨hlt, pre, rfl, htokens, rfl⟩ := hfilled
      have hle : (tokensOf pre).length ≤ tokens.length + n := by rw [htokens, length_append]; omega
      refine ⟨?_, pre ++ [.error fault], by rw [append_assoc]; rfl, ?_, ?_⟩
      · rw [due_append_of_le hle]
        rfl
      · rw [tokensOf, filterMap_append, ← tokensOf, htokens]
        exact append_nil _
      · rw [faultsOf, filterMap_append]
        rfl
    | ok _ =>
      obtain ⟨⟨pre, rfl, htokens, rfl⟩, hend⟩ := hfilled
      refine ⟨?_, pre, rfl, htokens, (append_nil _).symm⟩
      have hindex : (tokensOf pre)[tokens.length + n]? = later.buffer[n]? := by
        rw [htokens, getElem?_append_right (Nat.le_add_right ..), Nat.add_sub_cancel_left]
      cases hn : later.buffer[n]? with
      | some token => exact (congrArg Except.ok hn).trans (due_append_of_some (hindex.trans hn)).symm
      | none =>
        have hle := getElem?_eq_none_iff.mp (hindex.trans hn)
        have hlast := getElem?_eq_none_iff.mp hn
        rw [due_append_of_le hle, hend (Nat.lt_succ_of_le hlast)]
        exact congrArg Except.ok hn

/-- Taking a token is looking at it and dropping it. -/
lemma next_eq (lexer : Lexer) :
    lexer.next = ((lexer.peek 0).1, ⟨(lexer.peek 0).2.cursor, (lexer.peek 0).2.buffer.tail⟩) ∧
      taken [(.next, (lexer.peek 0).1)] ++ (lexer.peek 0).2.buffer.tail = (lexer.peek 0).2.buffer := by
  obtain ⟨cursor, buffer⟩ := lexer
  cases buffer with
  | cons token rest =>
    have hzero : 0 + 1 - (token :: rest).length = 0 := by rw [length_cons]; omega
    simp only [next, peek, hzero, fill]
    exact ⟨rfl, rfl⟩
  | nil =>
    cases hread : cursor.read with
    | mk lexeme? later => obtain _ | ⟨_ | _⟩ := lexeme? <;> simp [next, peek, fill, hread, taken, taken?]

/-! ## All calls -/

lemma taken_append (before after : List (Call × Answer)) :
    taken (before ++ after) = taken before ++ taken after := filterMap_append

lemma reported_append (before after : List (Call × Answer)) :
    reported (before ++ after) = reported before ++ reported after :=
  filterMap_append

section

variable (h : Reads found (taken past) (reported past) lexer)

include h

lemma call_reads (call : Call) :
    (lexer.call call).1 = due found (reported past).length ((taken past).length + call.ahead) ∧
      Reads found (taken (past ++ [(call, (lexer.call call).1)]))
      (reported (past ++ [(call, (lexer.call call).1)])) (lexer.call call).2 := by
  obtain ⟨hdue, hreads⟩ := peek_reads h call.ahead
  have hreported (answer : Answer) : reported [(call, answer)] = (fault? answer).toList := by cases answer <;> rfl
  rw [reported_append, taken_append, hreported]
  cases call with
  | peek n => exact ⟨hdue, by rw [show taken [(Call.peek n, _)] = [] from rfl, append_nil]; exact hreads⟩
  | next =>
    obtain ⟨hnext, hbuffer⟩ := next_eq lexer
    obtain ⟨pre, hfound, htokens, hfaults⟩ := hreads
    rw [Lexer.call, hnext]
    exact ⟨hdue, pre, hfound, by rw [htokens, append_assoc, hbuffer]; rfl, hfaults⟩

lemma log_reads (calls : List Call) :
    ∃ later, Reads found (taken (past ++ lexer.log calls)) (reported (past ++ lexer.log calls)) later := by
  induction calls generalizing lexer past with
  | nil => exact ⟨lexer, by rwa [log, append_nil]⟩
  | cons call rest ih =>
    have hrest := ih (call_reads h call).2
    rwa [append_assoc] at hrest

lemma log_answers (calls : List Call) {before after : List (Call × Answer)} {call : Call} {answer : Answer}
    (hlog : lexer.log calls = before ++ (call, answer) :: after) :
    answer = due found (reported (past ++ before)).length ((taken (past ++ before)).length + call.ahead) := by
  induction calls generalizing lexer past before with
  | nil => exact absurd hlog.symm (append_ne_nil_of_right_ne_nil _ (cons_ne_nil _ _))
  | cons first rest ih =>
    obtain ⟨hdue, hreads⟩ := call_reads h first
    cases before with
    | nil =>
      obtain ⟨hentry, -⟩ := cons.inj hlog
      cases hentry
      rwa [append_nil]
    | cons entry before =>
      obtain ⟨rfl, hrest⟩ := cons.inj hlog
      have hanswer := ih hreads hrest
      rwa [append_assoc] at hanswer

end

/-- Calls in any order read the lexemes of the text. -/
theorem transparent_log (text : List Char) (calls : List Call) : Transparent (lexemes text)
    ((ofText text).log calls) ∧ ∀ more, (ofText text).answers ((lexemes text).length + more) =
      (lexemes text).map (Except.map some) ++ replicate more (.ok none) := by
  have hstart : Reads (lexemes text) (taken []) (reported []) (ofText text) := ⟨[], rfl, rfl, rfl⟩
  have hanswer {before after call answer} (hlog : (ofText text).log calls = before ++ (call, answer) :: after) :=
    log_answers hstart calls hlog
  obtain ⟨later, pre, hfound, htokens, hfaults⟩ := log_reads hstart calls
  have htaken : taken ((ofText text).log calls) <+: tokensOf (lexemes text) := by
    rw [hfound, tokensOf, filterMap_append, ← tokensOf, htokens, append_assoc]
    exact prefix_append _ _
  refine ⟨⟨htaken, ?_, fun _ _ _ _ => hanswer, fun before n token after hlog => ?_⟩,
    answers_lexemes (Cursor.ofText text)⟩
  · rw [hfound, faultsOf, filterMap_append, ← faultsOf, hfaults]
    exact prefix_append _ _
  · have hindex := getElem?_of_due (hanswer hlog).symm
    refine ⟨hindex, fun last hlast => ?_⟩
    obtain ⟨rest, hrest⟩ := htaken
    rw [hlog, taken_append] at hrest
    have hlater : (taken before ++ taken after ++ rest)[(taken before).length + n]? = some last := by
      rw [append_assoc, getElem?_append_right (Nat.le_add_right ..), Nat.add_sub_cancel_left]
      exact (getElem?_append_left (List.getElem?_eq_some_iff.mp hlast).1).trans hlast
    exact Option.some.inj (hlater.symm.trans ((congrArg (·[_]?) hrest).trans hindex))

end Lexer

end Shading
