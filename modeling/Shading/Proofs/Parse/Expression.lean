import Shading.Parse.Program
import Shading.Proofs.Parse.Typing

/-!
# Reading expressions

Every parser for expressions leaves the symbols as they are and makes an
expression that fits them (`Parser.Reads`).
-/

namespace Shading

open List

variable {type : ValueType} {types : List ValueType} {lhs : Node} {may : Span → Prop} {span : Span}
  {tbl : SymbolTable} {old : List Node}

namespace Parser

lemma valid_of_tokenType? {token : Token} (h : tokenType? token = some type) : type.Valid := by
  unfold tokenType? at h
  split at h
  · exact ValueType.valid_ofText? h
  · cases h

lemma expectType_gives : Looks may tbl old expectType fun res => res.1.Valid ∧ may res.2 := by
  refine .skip (.expectNext _) fun token htoken => ?_
  split
  · rename_i type htype
    exact .pure rfl ⟨rfl, valid_of_tokenType? htype, htoken⟩
  · exact .fail htoken

lemma literal_gives (val : Value) (hspan : may span) : Makes may tbl [] (literal val span) :=
  makeNode_gives (.immediate val) hspan fun _ _ => .immediate rfl

/-- A parser that gives an expression. -/
def Reads (allowed : Span → Prop) (parser : Parser Node) : Prop := ∀ table, Makes allowed table [] parser

end Parser

namespace Intrinsic

lemma commonType_mem {common : ValueType} (h : commonType types = some common) : common ∈ types := by
  cases types with
  | nil => cases h
  | cons first rest =>
    rw [commonType] at h
    induction rest generalizing first with
    | nil =>
      cases h
      exact mem_cons_self ..
    | cons second rest ih =>
      rw [foldlM_cons] at h
      obtain ⟨both, hboth, h⟩ := Option.bind_eq_some_iff.mp h
      have hmem := ih both h
      rcases (ValueType.promote_eq hboth).1 with rfl | rfl <;> grind

lemma valid_resolve {f : Intrinsic} (hv : ∀ type ∈ types, type.Valid) (h : f.resolve types = some type) :
    type.Valid := by
  unfold resolve at h
  split at h
  · cases h
  · split at h
    · cases h
    · rename_i common hcommon
      have hvalid := hv common (commonType_mem hcommon)
      split at h
      · cases h
        exact hvalid
      · cases h
        exact hvalid
      · cases h
        split
        · exact hvalid
        · exact hvalid.withBase (by decide)
      · cases h
      · cases h

end Intrinsic

lemma Parser.valid_of_callType? {sym : Symbol}
    (hs : sym.WellFormed) (hv : ∀ type ∈ types, type.Valid) (h : callType? sym types = some type) :
    type.Valid := by
  unfold callType? at h
  split at h
  · rename_i signature hkind
    cases h
    rw [Symbol.WellFormed, hkind] at hs
    exact hs.2.1
  · rename_i f hkind
    cases h
    cases hr : f.resolve types with
    | none => exact ValueType.valid_scalar .void
    | some type => exact Intrinsic.valid_resolve hv hr
  · cases h

/-- The parsers for nested expressions read expressions. -/
structure Grammar.ReadsExpressions (allowed : Span → Prop) (inner : Grammar) : Prop where
  expression : Parser.Reads allowed inner.expression
  binary : ∀ least, Parser.Reads allowed (inner.binary least)
  unary : Parser.Reads allowed inner.unary

namespace Parser

variable {inner : Grammar} (region : Span.Region may) (hinner : inner.ReadsExpressions may)
include region hinner

omit region in
lemma callArguments_gives : Gives may tbl [] (callArguments inner) Prod.fst fun res =>
    (tbl.WellFormed → ∀ arg ∈ res.1, arg.ReadUnder tbl) ∧ may res.2.span := by
  have hclose (arguments : List Node) (h : tbl.WellFormed → ∀ arg ∈ arguments, arg.ReadUnder tbl) :
      Gives may tbl arguments (do return (arguments, ← expectCloseParen)) Prod.fst fun res =>
        (tbl.WellFormed → ∀ arg ∈ res.1, arg.ReadUnder tbl) ∧ may res.2.span :=
    .skip (.expect _ _) fun _ htoken => .pure rfl ⟨rfl, h, htoken⟩
  have hitems : Gives may tbl [] (commaSeparated inner.expression) (·.flatMap fun node => [node]) fun items =>
      tbl.WellFormed → ∀ arg ∈ items, arg.ReadUnder tbl := by
    refine .commaSeparated _ ?_ ⟨rfl, nofun⟩
    rintro items _ ⟨rfl, hitems⟩
    refine (hinner.expression _).imp fun node later h => ⟨h.1, fun hw => ?_⟩
    exact forall_mem_append.mpr ⟨hitems hw, forall_mem_singleton.mpr (h.2 hw)⟩
  simp only [flatMap_singleton'] at hitems
  refine .skip (.expect _ _) fun _ _ => .skip (.isNext _) fun closed _ => ?_
  cases closed
  · exact .keep hitems fun arguments h _ => hclose arguments h
  · exact hclose [] nofun

lemma call_gives {callee : SymbolId} {name : Token} (hc : tbl.WellFormed → callee ∈ tbl.visible)
    (hname : may name.span) : Makes may tbl [] (call inner callee name) := by
  refine .keep (callArguments_gives hinner) ?_
  rintro ⟨arguments, close⟩ ⟨hall, hclose⟩ _
  refine .skip (.symbol callee) ?_
  rintro _ rfl
  split
  · rename_i type htype
    refine makeNode_gives (.call callee arguments) (region.join hname hclose) fun hw id => ?_
    have hbound := hw.bound callee (hc hw)
    refine .of_form rfl rfl ?_ (fun later hl => ⟨fun arg ha => (hall hw arg ha).isExpression, ?_⟩) (hall hw)
    · refine valid_of_callType? (hw.symbol callee hbound) (fun type ht => ?_) htype
      obtain ⟨arg, ha, rfl⟩ := mem_map.mp ht
      exact (hall hw arg ha).valid
    · rw [hl.get_eq callee hbound]
      exact htype
  · exact .fail hname

lemma identifierExpression_reads {token : Token} (htoken : may token.span) :
    Reads may (identifierExpression inner token) := by
  intro tbl
  unfold identifierExpression
  split
  · rename_i type htype
    refine .skip (.expect _ _) fun _ _ => .one (hinner.expression _) fun opd hread _ =>
      .skip (.expect _ _) fun _ hclose => ?_
    exact .untyped (makeCast_gives hread (fun _ => valid_of_tokenType? htype) (region.join htoken hclose))
  refine .skip .get fun st hst => ?_
  split
  · exact .fail htoken
  rename_i id hlookup
  rw [hst.1] at hlookup
  have hid := SymbolTable.mem_visible_of_lookup hlookup
  refine .skip (.isNext _) fun called _ => ?_
  split
  · exact call_gives region hinner (fun _ => hid) htoken
  refine .skip (.symbol id) ?_
  rintro _ rfl
  split
  · rename_i hvariable
    exact makeNode_gives (.var id) htoken fun hw _ => .var hw hid hvariable rfl
  · exact .fail htoken

lemma primary_reads : Reads may (primary inner) := by
  refine fun tbl => .skip (.expectNext _) fun token htoken => ?_
  split
  · split
    · exact literal_gives _ htoken
    · exact .fail htoken
  · exact literal_gives _ htoken
  · exact literal_gives _ htoken
  · exact .one (hinner.expression _) fun _ hread _ => .skip (.expect _ _) fun _ _ => .pure rfl ⟨rfl, hread⟩
  · exact identifierExpression_reads region hinner htoken tbl
  · exact .fail htoken

/-- A loop that goes from one expression to the next. -/
abbrev MakesRound (allowed : Span → Prop) (table : SymbolTable) (old : List Node)
    (parser : Parser (Round Node Node)) : Prop :=
  Yields allowed table old parser (Round.held (fun node => [node]) fun node => [node]) fun round later =>
    round.Holds (fun node => later = table ∧ (table.WellFormed → node.ReadUnder table)) fun node =>
      later = table ∧ (table.WellFormed → node.ReadUnder table)

omit region hinner in
lemma iterate_makes {step : Node → Parser (Round Node Node)} {node : Node}
    (hstep : ∀ node, (tbl.WellFormed → node.ReadUnder tbl) → MakesRound may tbl [node] (step node))
    (h : tbl.WellFormed → node.ReadUnder tbl) : Makes may tbl [node] (iterate step node) := by
  refine .iterate (fun node => [node]) (fun node later => later = tbl ∧
    (tbl.WellFormed → node.ReadUnder tbl)) ?_ ⟨rfl, h⟩
  rintro node _ ⟨rfl, hnode⟩
  exact hstep node hnode

omit hinner in
lemma suffix_makes {expression : Node} (he : tbl.WellFormed → expression.ReadUnder tbl) :
    MakesRound may tbl [expression] (suffix expression) := by
  refine .given fun hspanned => .skip .peek fun token? htoken => ?_
  replace hspanned := hspanned expression (.head _)
  cases token? with
  | none => exact .pure rfl ⟨rfl, he⟩
  | some token =>
    dsimp only
    split
    · rename_i op hop
      have hcast : op ≠ .cast := by
        rintro rfl
        cases hk : token.kind <;> rw [hk] at hop <;> cases hop
      have hjoin := region.join hspanned.span (htoken token rfl)
      exact .skip .next fun _ _ => .one (makeUnary_gives region hcast hspanned he hjoin) fun _ h _ =>
        .pure rfl ⟨rfl, h⟩
    split
    · refine .skip .next fun _ _ => .skip (.expect _ _) fun field hfield => ?_
      exact .one (makeSwizzle_gives region hspanned he hfield) fun _ h _ => .pure rfl ⟨rfl, h⟩
    · exact .pure rfl ⟨rfl, he⟩

lemma postfixExpression_reads : Reads may (postfixExpression inner) :=
  fun tbl => .one (primary_reads region hinner tbl) fun _ h _ => iterate_makes (fun _ => suffix_makes region) h

lemma unary_reads : Reads may (unary inner) := by
  refine fun tbl => .skip (.expectPeek _) fun token htoken => ?_
  split
  · rename_i op hop
    have hcast : op ≠ .cast := by
      rintro rfl
      cases hk : token.kind <;> rw [hk] at hop <;> cases hop
    refine .skip .next fun _ _ => .one (hinner.unary _) fun opd h hspanned => ?_
    exact makeUnary_gives region hcast hspanned h (region.join htoken hspanned.span)
  split
  · refine .skip .next fun _ _ => .one (hinner.unary _) fun opd h hspanned => ?_
    split
    · exact .pure rfl ⟨rfl, h⟩
    · exact .fail (region.join htoken hspanned.span)
  split
  · refine .skip .isCastNext fun isCast _ => ?_
    split
    · refine .skip .next fun _ _ => .skip expectType_gives ?_
      rintro ⟨type, span⟩ ⟨hv, -⟩
      refine .skip .next fun _ _ => .one (hinner.unary _) fun opd h hspanned => ?_
      exact .untyped (makeCast_gives h (fun _ => hv) (region.join htoken hspanned.span))
    · exact postfixExpression_reads region hinner tbl
  · exact postfixExpression_reads region hinner tbl

lemma climb_makes {least : Nat} (hl : tbl.WellFormed → lhs.ReadUnder tbl) : MakesRound may tbl [lhs]
    (climb inner least lhs) := by
  refine .given fun hls => .skip .peek fun token? _ => ?_
  split
  · exact .pure rfl ⟨rfl, hl⟩
  split
  · exact .pure rfl ⟨rfl, hl⟩
  · refine .skip .next fun _ _ => .another (hinner.binary _ tbl) fun rhs hr hrs => ?_
    exact .one (makeBinary_gives region (hls lhs (.head _)) hrs hl hr) fun _ h _ => .pure rfl ⟨rfl, h⟩

lemma binary_reads (least : Nat) : Reads may (binary inner least) :=
  fun tbl => .one (unary_reads region hinner tbl) fun _ h _ => iterate_makes (fun _ => climb_makes region hinner) h

omit hinner in
/-- The target of a compound assignment is read once more. -/
lemma compoundValue_gives {op : BinaryOp} {rhs : Node} (ht : lhs.form.IsTarget tbl) (hls : lhs.Spanned may)
    (hrs : rhs.Spanned may)
    (hspan : may span) (hl : tbl.WellFormed → lhs.ReadUnder tbl) (hr : tbl.WellFormed → rhs.ReadUnder tbl) :
    MakesOf lhs.type may tbl [rhs] (compoundValue op lhs rhs span) := by
  have hleaf : lhs.form.children = [] := by
    obtain ⟨sym, hsym, -⟩ := ht
    rw [Form.eq_var_of_var? hsym]
    rfl
  have hcopy : Makes may tbl lhs.form.children (makeNode lhs.form lhs.type lhs.span) := by
    refine makeNode_gives lhs.form hls.span fun hw id => ?_
    obtain ⟨own, form⟩ := lhs
    exact (hl hw).of_alike (.relabel rfl form)
  rw [hleaf] at hcopy
  refine .keep (hcopy.frame [] [rhs]) fun current hcur hboth => ?_
  refine .one (makeBinary_gives region (hboth current (.head _)) hrs hcur hr) fun val hval _ => ?_
  exact makeCast_gives hval (fun hw => (hl hw).valid) hspan

lemma expression_reads : Reads may (expression inner) := by
  refine fun tbl => .one (binary_reads region hinner 0 tbl) fun lhs hl hls => .skip .peek fun token? htoken => ?_
  cases token? with
  | none => exact .pure rfl ⟨rfl, hl⟩
  | some token =>
    dsimp only
    split
    · exact .pure rfl ⟨rfl, hl⟩
    refine .skip .next fun _ _ => .another (hinner.expression tbl) fun rhs hr hrs => ?_
    have hspan := region.join hls.span hrs.span
    refine .skip (checkAssignable_gives region hls (htoken token rfl)) fun _ htgt => ?_
    have hasg (val : Node) (h : tbl.WellFormed → val.ReadUnder tbl ∧ val.type = lhs.type) :
        Makes may tbl [lhs, val] (makeNode (.binary .assign lhs val) lhs.type (lhs.span.join rhs.span)) :=
      makeNode_gives (.binary .assign lhs val) hspan fun hw _ =>
        .binary (hl hw) (h hw).1 (hl hw).valid (fun _ => (hl hw).isTarget htgt) (h hw).2.symm rfl
    split
    · exact .keep ((coerce_gives hr fun hw => (hl hw).valid).frame [lhs] []) fun val h _ => hasg val h
    · exact .keep ((compoundValue_gives region htgt hls hrs hspan hl hr).frame [lhs] []) fun val h _ => hasg val h

end Parser

/-- Expressions are read as expected at every depth. -/
lemma Grammar.readsExpressions_ofDepth (region : Span.Region may) (depth : Nat) :
    (Grammar.ofDepth depth).ReadsExpressions may := by
  induction depth with
  | zero =>
    have hfail : Parser.Reads may (Parser.failAtEnd "expression") := fun _ => .failAtEnd
    exact ⟨hfail, fun _ => hfail, hfail⟩
  | succ depth ih => exact ⟨Parser.expression_reads region ih, Parser.binary_reads region ih,
      Parser.unary_reads region ih⟩

end Shading
