import Shading.Proofs.Parse.Expression
import Shading.Proofs.Parse.Row

/-!
# Reading statements

Every parser of statements reads a row of nodes that is typed and in scope
(`Parser.ReadsRow`), or one such node (`Parser.ReadsNode`).
-/

namespace Shading

open Node List Form

variable {lbl : Label} {form : Form Node} {a b c : SymbolTable} {condition? : Option Node} {is : Form Node → Bool}
  {start : Span} {arms nodes first second : List Node} {kind : LoopKind} {may : Span → Prop}

namespace Parser

variable {tbl mid later : SymbolTable} {node : Node} {span : Span} {old : List Node}

/-! ## Rows -/

/-- If the table is well-formed and a scope is open, nodes of some kind were
read in a row. -/
def RowRead (is : Form Node → Bool) (table later : SymbolTable) (nodes : List Node) : Prop :=
  table.WellFormed → table.inner ≠ [] → NodesRead table later nodes ∧ ∀ node ∈ nodes, is node.form = true

lemma RowRead.nil : RowRead is tbl tbl [] := fun hw hi => ⟨.nil hw hi, forall_mem_nil _⟩

lemma RowRead.append (h₁ : RowRead is a b first) (h₂ : RowRead is b c second) :
    RowRead is a c (first ++ second) := by
  intro hw hi
  obtain ⟨hread, hp⟩ := h₁ hw hi
  obtain ⟨hmore, hq⟩ := h₂ hread.wellFormed hread.inner_ne
  exact ⟨hread.append hw hmore, forall_mem_append.mpr ⟨hp, hq⟩⟩

/-- What reading a row of statements of some kind does. -/
abbrev ReadsRow (allowed : Span → Prop) (is : Form Node → Bool) (parser : Parser (List Node)) : Prop :=
  ∀ table, Yields allowed table [] parser (fun nodes => nodes) fun nodes later => RowRead is table later nodes

/-- What reading one node of some kind does. -/
abbrev ReadsNode (allowed : Span → Prop) (is : Form Node → Bool) (parser : Parser Node) : Prop :=
  ∀ table, Yields allowed table [] parser (fun node => [node]) fun node later => RowRead is table later [node]

/-- A row of items separated by commas. -/
lemma commaSeparated_row {item : Parser Node} (hitem : ReadsNode may is item) :
    ReadsRow may is (commaSeparated item) := by
  intro tbl
  have hrow : Yields may tbl [] (commaSeparated item) (·.flatMap fun node => [node]) fun nodes later =>
      RowRead is tbl later nodes :=
    .commaSeparated _ (fun _ mid hrow => (hitem mid).imp fun _ _ hnode => hrow.append hnode) .nil
  simp only [flatMap_singleton'] at hrow
  exact hrow

lemma void_valid : ValueType.void.Valid := ValueType.valid_scalar .void

/-- A node is made around what was read.  Its kind is that of its form. -/
lemma makeRow_yields (hmap : ∀ form : Form Node, is (form.map erase) = is form) (form : Form Node)
    (hform : is form = true) (hspan : may span)
    (h : tbl.WellFormed → tbl.inner ≠ [] → ∀ id, NodesRead tbl later [.mk ⟨id, none, .void, span⟩ form]) :
    Yields may later form.children (makeNode form .void span) (fun node => [node]) fun node last =>
      RowRead is tbl last [node] := by
  refine (Yields.node form .void hspan).imp ?_
  rintro _ _ ⟨rfl, id, rfl⟩ hw hi
  have halike : (mk ⟨id, none, .void, span⟩ form).Alike (.create id form .void span) := .create _ _ _ _ rfl
  refine ⟨(h hw hi id).of_alike halike, forall_mem_singleton.mpr ?_⟩
  rw [← hmap, ← halike.form_map_eq, hmap]
  exact hform

/-- A row that is read in a scope of its own makes a block. -/
lemma makeBlock_yields (hrow : RowRead isStatement tbl.openScope mid nodes) (hspan : may span) :
    Yields may mid nodes (do
        closeScope
        makeNode (.block nodes) .void span) (fun node => [node]) fun node later =>
      RowRead isBlock tbl later [node] := by
  refine .closeScope (makeRow_yields (isBlock_map erase) (.block nodes) rfl hspan fun hw hi id => ?_)
  obtain ⟨hread, hs⟩ := hrow hw.openScope (cons_ne_nil _ _)
  exact hread.block hi void_valid hs

/-- A block declares nothing for what is behind it. -/
lemma exports_of_isBlock (h : node.form.isBlock = true) : node.exports = [] := by
  obtain ⟨lbl, form⟩ := node
  cases form <;> first | rfl | cases h

lemma exports_of_readUnder (h : node.ReadUnder tbl) : node.exports = [] := by
  obtain ⟨lbl, form⟩ := node
  have he := h.isExpression
  cases form <;> first | rfl | cases he

lemma arm_read {body : Node} (hw : a.WellFormed) (hi : a.inner ≠ []) (hv : lbl.type.Valid)
    (hc : ∀ condition ∈ condition?, condition.ReadUnder a ∧ condition.type = .bool)
    (hbody : NodesRead a b [body]) (hblk : body.form.isBlock = true) :
    NodesRead a b [.mk lbl (.arm condition? body)] := by
  have hexp : (condition?.toList ++ [body]).flatMap exports = [] := by
    cases condition? with
    | none => simp [exports_of_isBlock hblk]
    | some condition => simp [exports_of_isBlock hblk, exports_of_readUnder (hc condition rfl).1]
  have hread : NodesRead a b (condition?.toList ++ [body]) := by
    cases condition? with
    | none => exact hbody
    | some condition => exact (NodesRead.expression hw hi (hc condition rfl).1).append hw hbody
  refine .wrap hv rfl (List.Perm.refl _) hexp hread (fun last hl => ⟨fun condition hm => ?_, hblk⟩)
    fun last hl kid hm => NodesRead.scoped_of_mem hexp (hread.inScope last hl) hm
  exact ⟨(hc condition hm).1.isExpression, (hc condition hm).2⟩

/-- The arms read so far: none of them is an `else` before the last. -/
def ArmsRead (table later : SymbolTable) (arms : List Node) : Prop :=
  RowRead isArm table later arms ∧ ∀ arm ∈ arms.dropLast, arm.form.isElse = false

/-- One more arm is made. -/
lemma makeArm_yields (condition? : Option Node) {body : Node} (h : ArmsRead tbl mid arms)
    (helse : ∀ arm ∈ arms, arm.form.isElse = false)
    (hc : mid.WellFormed → ∀ condition ∈ condition?, condition.ReadUnder mid ∧ condition.type = .bool)
    (hbody : RowRead isBlock mid later [body]) (hspan : may span) :
    Yields may later (arms ++ (condition?.toList ++ [body])) (makeNode (.arm condition? body) .void span)
    (fun arm => arms ++ [arm])
      fun arm last => ArmsRead tbl last (arms ++ [arm]) ∧ arm.form.isElse = condition?.isNone := by
  have harm : Gives may later _ _ _ _ := (Yields.node (.arm condition? body) .void hspan).frame arms []
  simp only [Form.children, append_nil] at harm
  refine harm.imp ?_
  rintro arm _ ⟨rfl, id, harm⟩
  have halike : (mk ⟨id, none, .void, span⟩ (.arm condition? body)).Alike arm := harm ▸ .create _ _ _ _ rfl
  have hform : arm.form.isArm = true ∧ arm.form.isElse = condition?.isNone := by
    rw [← isArm_map erase, ← isElse_map erase, ← halike.form_map_eq]
    cases condition? <;> exact ⟨rfl, rfl⟩
  refine ⟨⟨h.1.append fun hw hi => ?_, by rwa [dropLast_concat]⟩, hform.2⟩
  obtain ⟨hread, hblk⟩ := hbody hw hi
  exact ⟨(arm_read hw hi void_valid (hc hw) hread (hblk body (.head _))).of_alike halike,
    forall_mem_singleton.mpr hform.1⟩

lemma plainLoop_read {condition body : Node}
    (hv : lbl.type.Valid) (hperm : [condition, body].Perm nodes) (hread : NodesRead a b nodes)
    (hc : condition.IsCondition) (hblk : body.form.isBlock = true) (hexp : condition.exports = []) :
    NodesRead a b [.mk lbl (.loop kind none (some condition) none body)] := by
  have hnone : nodes.flatMap exports = [] := by
    rw [flatMap_eq_nil_iff]
    intro node hn
    rcases mem_pair.mp (hperm.mem_iff.mpr hn) with rfl | rfl
    · exact hexp
    · exact exports_of_isBlock hblk
  refine .wrap hv rfl (by simpa [Form.children] using hperm) hnone hread
    (fun last hl => ⟨by simp, by simpa using hc, by simp, hblk⟩) fun last hl => ?_
  have hscoped : ∀ node ∈ [condition, body], node.Scoped last a.locals := fun node hn =>
    NodesRead.scoped_of_mem hnone (hread.inScope last hl) (hperm.mem_iff.mp hn)
  exact ⟨by simp, by simpa using hscoped condition (by simp), by simp, by simpa using hscoped body (by simp)⟩

/-- The start of a `for` was read: an expression or declarations, which are put
in one node. -/
def InitRead (a b : SymbolTable) (init? : Option Node) : Prop :=
  ∃ nodes, NodesRead a b nodes ∧ (init?.map initExports).getD [] = nodes.flatMap exports ∧
    ∀ init ∈ init?, init.IsInit ∧ ∀ last, b.Extends last → init.Typed last ∧ init.Scoped last a.locals

/-- A loop around what was read in a scope of its own. -/
lemma forLoop_read {init? step? : Option Node} {body : Node}
    (hi : a.inner ≠ []) (hw : a.WellFormed) (hv : lbl.type.Valid)
    (hinit : InitRead a.openScope b init?)
    (hc : ∀ condition ∈ condition?, condition.ReadUnder b ∧ condition.type = .bool)
    (hs : ∀ step ∈ step?, step.ReadUnder b) (hbody : NodesRead b c [body]) (hblk : body.form.isBlock = true) :
    NodesRead a c.closeScope [.mk lbl (.loop kind init? condition? step? body)] := by
  obtain ⟨nodes, hnodes, hexp, hinit⟩ := hinit
  have hrow : NodesRead a.openScope c (nodes ++ [body]) := hnodes.append hw.openScope hbody
  obtain ⟨hgrows, hwell, hinner, houter, hvisible⟩ := hrow.close
  have hc' : ∀ last, c.closeScope.Extends last → c.Extends last := fun last hl =>
    (SymbolTable.Extends.closeScope c).trans hl
  have hb : ∀ last, c.closeScope.Extends last → b.Extends last := fun last hl => hbody.grows.trans (hc' last hl)
  have hscope : ∀ {last : SymbolTable} {node : Node}, node.Scoped last b.locals →
      node.Scoped last ((init?.map initExports).getD [] ++ a.locals) := by
    intro last node h
    refine h.congr fun id => ?_
    rw [hnodes.mem_locals hw.openScope, hexp, mem_append, SymbolTable.locals_openScope]
  refine ⟨hgrows, hwell, hinner ▸ hi,
    by rw [hinner], houter, ?_, fun last hl => ?_, fun last hl => ⟨?_, trivial⟩⟩
  · intro id
    rw [hvisible]
    simp [exports]
  · rw [forall_mem_singleton, typed_mk]
    refine ⟨⟨hv, fun init h => (hinit init h).1, fun condition h => ⟨(hc condition h).1.isExpression,
      (hc condition h).2⟩, fun step h => (hs step h).isExpression, hblk⟩, fun kid hm => ?_⟩
    simp only [Form.children, mem_append, Option.mem_toList, mem_singleton] at hm
    rcases hm with ((hm | hm) | rfl) | hm
    · exact ((hinit kid hm).2 last (hb last hl)).1
    · exact (hc kid hm).1.typed last (hb last hl)
    · exact hbody.typed last (hc' last hl) kid (.head _)
    · exact (hs kid hm).typed last (hb last hl)
  · rw [scoped_mk]
    exact ⟨fun init h => ((hinit init h).2 last (hb last hl)).2,
      fun condition h => hscope ((hc condition h).1.inScope last (hb last hl)),
      fun step h => hscope ((hs step h).inScope last (hb last hl)), hscope (hbody.inScope last (hc' last hl)).1⟩

lemma ReadsNode.row {other : Form Node → Bool} {parser : Parser Node} (h : ReadsNode may is parser)
    (his : ∀ node : Node, is node.form = true → other node.form = true) :
    ReadsRow may other (do return [← parser]) :=
  fun tbl => .bind (h tbl) fun _ _ hrow _ => .pure rfl fun hw hi =>
    ⟨(hrow hw hi).1, fun node hm => his node ((hrow hw hi).2 node hm)⟩

/-! ## Declarations -/

lemma requireBool_gives (h : node.Spanned may) : Looks may tbl old (requireBool node) fun _ =>
    node.type = .bool := by
  unfold requireBool
  split
  · exact .fail h.span
  · rename_i hne
    exact .pure rfl ⟨rfl, not_not.mp hne⟩

variable {inner : Grammar} (region : Span.Region may) (hinner : inner.ReadsExpressions may)

section

include region hinner

lemma declarator_reads {type : ValueType} {isConst : Bool} (hv : type.Valid) (hvoid : type.isVoid = false)
    (hstart : may start) : ReadsNode may isDeclare (declarator inner type isConst start) := by
  refine fun tbl => .skip (.expect _ _) fun name hname => ?_
  have hdecl (ini? : Option Node) (hspanned : ∀ initializer ∈ ini?, initializer.Spanned may)
      (hinit : tbl.WellFormed → ∀ initializer ∈ ini?, initializer.ReadUnder tbl ∧ initializer.type = type) :
      Yields may tbl ini?.toList (do
        let id ← declare ⟨name.text, type, .localVariable, isConst⟩ name.span
        makeNode (.declare id ini?) .void (start.join (ini?.elim name.span (·.span)))) (fun node => [node])
        fun node later =>
          RowRead isDeclare tbl later [node] := by
    have hjoin : may (start.join (ini?.elim name.span (·.span))) := by
      cases ini? with
      | none => exact region.join hstart hname
      | some initializer => exact region.join hstart (hspanned initializer rfl).span
    refine .bind (.declare _ hname) ?_
    rintro _ _ ⟨rfl, rfl⟩ _
    exact makeRow_yields (isDeclare_map erase) (.declare ⟨tbl.size⟩ ini?) rfl hjoin fun hw hi id =>
      .declare hw hi rfl ⟨hv, hvoid⟩ void_valid (hinit hw)
  refine .skip (.eats _) fun assigned _ => ?_
  cases assigned
  · cases isConst
    · exact hdecl none (by simp) (by simp)
    · exact .fail hname
  · refine .one (expression_reads region hinner tbl) fun _ hread _ => .one (coerce_gives hread fun _ => hv)
      fun val h hval => ?_
    exact hdecl (some val) (by simpa using hval) (by simpa using h)

lemma declaration_reads : ReadsRow may isDeclare (declaration inner) := by
  refine fun tbl => .skip (.eat _) fun const? hconst => .skip expectType_gives ?_
  rintro ⟨type, span⟩ ⟨hv, hspan⟩
  dsimp only
  split
  · exact .fail hspan
  · rename_i hvoid
    refine commaSeparated_row (declarator_reads region hinner hv (by simpa using hvoid) ?_) tbl
    cases const? with
    | none => exact hspan
    | some token => exact hconst token rfl

lemma condition_gives (tbl : SymbolTable) : MakesOf .bool may tbl [] (condition inner) :=
  .skip (.expect _ _) fun _ _ => .one (expression_reads region hinner tbl) fun _ hread hs =>
    .skip (.expect _ _) fun _ _ =>
      .skip (requireBool_gives hs) fun _ hbool => .pure rfl ⟨rfl, fun hw => ⟨hread hw, hbool⟩⟩

omit hinner in
lemma join_all {spans : List Span} (hfirst : may span) (h : ∀ span ∈ spans, may span) :
    may (spans.foldl Span.join span) := by
  induction spans generalizing span with
  | nil => exact hfirst
  | cons next rest ih => exact ih (region.join hfirst (h next (.head _))) (forall_mem_cons.mp h).2

lemma forInit_yields (hstart : may start) : Yields may tbl [] (forInit inner start) Option.toList
    fun init? later =>
    tbl.WellFormed → tbl.inner ≠ [] → InitRead tbl later init? := by
  refine .skip (.isNext _) fun none _ => ?_
  cases none
  · refine .skip .isDeclarationNext fun declares _ => ?_
    cases declares
    · refine .one (expression_reads region hinner tbl) fun expression hread _ => .pure rfl fun hw hi => ?_
      replace hread := hread hw
      refine ⟨[expression], .expression hw hi hread, ?_, ?_⟩
      · obtain ⟨lbl, form⟩ := expression
        have he := hread.isExpression
        cases form <;> first | rfl | cases he
      · rintro init ⟨rfl⟩
        refine ⟨?_, fun last hl => ⟨hread.typed last hl, hread.inScope last hl⟩⟩
        obtain ⟨lbl, form⟩ := expression
        have he := hread.isExpression
        cases form <;> first | exact he | cases he
    · refine .bind (declaration_reads region hinner tbl) fun nodes later hrow hnodes => ?_
      split
      · rename_i declaration
        refine .pure rfl fun hw hi => ?_
        obtain ⟨hread, hdeclares⟩ := hrow hw hi
        obtain ⟨sym, ini?, hform⟩ := eq_declare_of_isDeclare (hdeclares declaration (.head _))
        refine ⟨[declaration], hread, by simp [initExports, hform], ?_⟩
        rintro init ⟨rfl⟩
        exact ⟨by simp [Node.IsInit, hform], fun last hl => ⟨hread.typed last hl _ (.head _),
          (hread.inScope last hl).1⟩⟩
      · refine .one (.node (.block nodes) _ ?_) ?_
        · cases nodes with
          | nil => exact hstart
          | cons first rest =>
            refine join_all region (hnodes first (.head _)).span fun span hm => ?_
            obtain ⟨node, hn, rfl⟩ := mem_map.mp hm
            exact (hnodes node (.tail _ hn)).span
        rintro block ⟨id, hblock⟩ _
        have halike : (mk ⟨id, none, .void, block.span⟩ (.block nodes)).Alike block :=
          hblock ▸ .create _ _ _ _ rfl
        refine .pure rfl fun hw hi => ?_
        obtain ⟨hread, hdeclares⟩ := hrow hw hi
        refine ⟨nodes, hread, ?_, ?_⟩
        · rw [Option.map_some, Option.getD_some, ← initExports_erase, ← halike, initExports_erase]
          rfl
        · rintro init ⟨rfl⟩
          refine ⟨?_, fun last hl => ⟨?_, ?_⟩⟩
          · rw [← isInit_erase, ← halike, isInit_erase]
            exact hdeclares
          · have hrule : Node.FormRule last .void (.block nodes) := by
              intro node hn
              obtain ⟨sym, ini?, hform⟩ := eq_declare_of_isDeclare (hdeclares node hn)
              rw [hform]
              rfl
            refine Node.Typed.of_alike ?_ halike
            exact typed_mk.mpr ⟨⟨void_valid, hrule⟩, hread.typed last hl⟩
          · have hrule : Node.ScopeRule last tbl.locals (.block nodes) := hread.inScope last hl
            exact (scoped_mk.mpr hrule).of_alike halike
  · exact .pure rfl fun hw hi => ⟨[], .nil hw hi, rfl, by simp⟩

lemma forCondition_gives : Gives may tbl [] (forCondition inner) Option.toList fun condition? =>
    tbl.WellFormed → ∀ condition ∈ condition?, condition.ReadUnder tbl ∧ condition.type = .bool := by
  refine .skip (.isNext _) fun none _ => ?_
  cases none
  · exact .one (expression_reads region hinner tbl) fun _ hread hs => .skip (requireBool_gives hs) fun _ hbool =>
      .pure rfl ⟨rfl, fun hw => by simpa using ⟨hread hw, hbool⟩⟩
  · exact .pure rfl ⟨rfl, by simp⟩

lemma forStep_gives : Gives may tbl [] (forStep inner) Option.toList fun step? =>
    tbl.WellFormed → ∀ step ∈ step?, step.ReadUnder tbl := by
  refine .skip (.isNext _) fun none _ => ?_
  cases none
  · exact .one (expression_reads region hinner tbl) fun _ hread _ => .pure rfl ⟨rfl, by simpa using hread⟩
  · exact .pure rfl ⟨rfl, by simp⟩

lemma returnStatement_reads : ReadsNode may isStatement (returnStatement inner) := by
  refine fun tbl => .skip (.expect _ _) fun start hstart => .skip (.isNext _) fun none _ => ?_
  have hreturn (value? : Option Node) (hval : tbl.WellFormed → ∀ val ∈ value?, val.ReadUnder tbl) :
    Yields may tbl value?.toList (do
        let stop ← expectSemicolon
        makeNode (.returnValue value?) .void (start.span.join stop.span)) (fun node => [node]) fun node later =>
      RowRead isStatement tbl later [node] := by
    refine .skip (.expect _ _) fun stop hstop => makeRow_yields (isStatement_map erase) (.returnValue value?)
      rfl (region.join hstart hstop) fun hw hi id => ?_
    replace hval := hval hw
    have hread : NodesRead tbl tbl value?.toList ∧ value?.toList.flatMap exports = [] := by
      cases value? with
      | none => exact ⟨.nil hw hi, rfl⟩
      | some val => exact ⟨.expression hw hi (hval val rfl), by simp [exports_of_readUnder (hval val rfl)]⟩
    exact .wrap void_valid rfl (List.Perm.refl _) hread.2 hread.1 (fun _ _ val hv => (hval val hv).isExpression)
      fun last hl kid hm => NodesRead.scoped_of_mem hread.2 (hread.1.inScope last hl) hm
  cases none
  · exact .one (expression_reads region hinner tbl) fun val hread _ => hreturn (some val) (by simpa using hread)
  · exact hreturn none (by simp)

omit hinner in
lemma jump_reads {start : Token} (hstart : may start.span) (hform : form = .breakLoop ∨ form = .continueLoop) :
    ReadsNode may Form.isStatement (jump form start) := by
  refine fun tbl => .skip .next fun _ _ => .skip (.expect _ _) fun stop hstop => ?_
  have hmake : Yields may tbl form.children (makeNode form .void (start.span.join stop.span))
    (fun node => [node]) fun node later =>
      RowRead Form.isStatement tbl later [node] := by
    refine makeRow_yields (Form.isStatement_map erase) form ?_ (region.join hstart hstop) fun hw hi id => ?_
    · rcases hform with rfl | rfl <;> rfl
    rcases hform with rfl | rfl
    all_goals
      refine .wrap void_valid rfl (List.Perm.refl _) rfl (.nil hw hi) (fun _ _ => trivial) fun _ _ => ?_
      simp [Node.ScopeRule, Form.children]
  rcases hform with rfl | rfl <;> exact hmake

end

/-! ## Blocks, branches and loops -/

variable (hstmt : ReadsRow may isStatement inner.statement)

section

include hstmt

lemma statements_yields : Yields may tbl [] (iterate (blockItem inner) []) Prod.fst fun res later =>
    RowRead isStatement tbl later res.1 ∧ may res.2.span := by
  refine .iterate (fun nodes => nodes) (fun nodes later => RowRead isStatement tbl later nodes) ?_ .nil
  refine fun nodes mid hrow => .skip (.eat _) fun close? hclose => ?_
  cases close? with
  | some close => exact .pure rfl ⟨hrow, hclose close rfl⟩
  | none => exact .more (hstmt mid) fun more later hmore _ => .pure rfl (hrow.append hmore)

include region

lemma block_reads : ReadsNode may isBlock (block inner) := by
  refine fun tbl => .skip (.expect _ _) fun start hstart => .openScope (.bind (statements_yields hstmt) ?_)
  rintro ⟨nodes, close⟩ mid ⟨hrow, hclose⟩ _
  exact makeBlock_yields hrow (region.join hstart hclose)

lemma body_reads : ReadsNode may isBlock (body inner) := by
  refine fun tbl => .skip (.isNext _) fun isBlock _ => ?_
  cases isBlock
  · refine .skip (.expectPeek _) fun token htoken => .openScope (.bind (hstmt _) fun nodes mid hrow hnodes => ?_)
    refine makeBlock_yields hrow ?_
    cases hlast : nodes.getLast? with
    | none => exact htoken
    | some last => exact region.join htoken (hnodes last (mem_of_getLast? hlast)).span
  · exact block_reads region hstmt tbl

include hinner

lemma branchArms_yields (h : ArmsRead tbl mid arms) (helse : ∀ arm ∈ arms, arm.form.isElse = false) :
    Yields may mid arms (branchArms inner arms) (Round.held (fun arms => arms) Prod.fst) fun round later =>
      round.Holds (fun arms => ArmsRead tbl later arms ∧ ∀ arm ∈ arms, arm.form.isElse = false)
        fun res => ArmsRead tbl later res.1 ∧ may res.2 := by
  refine .another (condition_gives region hinner mid) fun condition hcond hcs => ?_
  refine .more (body_reads region hstmt mid) fun taken later htaken hts => ?_
  have hspan := region.join hcs.span (hts taken (.head _)).span
  rw [append_assoc]
  refine .bind (makeArm_yields (some condition) h helse (by simpa using hcond) htaken hspan) ?_
  rintro arm later ⟨harms, hform⟩ _
  have helse' : ∀ other ∈ arms ++ [arm], other.form.isElse = false :=
    forall_mem_append.mpr ⟨helse, forall_mem_singleton.mpr hform⟩
  refine .skip (.eats _) fun otherwise _ => ?_
  cases otherwise
  · exact .pure rfl ⟨harms, hspan⟩
  refine .skip (.eats _) fun again _ => ?_
  cases again
  · refine .more (body_reads region hstmt later) fun taken last htaken hts => ?_
    have hlast := makeArm_yields none harms helse' (by simp) htaken (hts taken (.head _)).span
    exact .bind hlast fun _ _ h _ => .pure rfl ⟨h.1, (hts taken (.head _)).span⟩
  · exact .pure rfl ⟨harms, helse'⟩

lemma branch_reads : ReadsNode may isStatement (branch inner) := by
  refine fun tbl => .skip (.expect _ _) fun start hstart => ?_
  have hrounds : Yields may tbl [] (iterate (branchArms inner) []) Prod.fst fun res later =>
      ArmsRead tbl later res.1 ∧ may res.2 :=
    .iterate (fun arms => arms) (fun arms later => ArmsRead tbl later arms ∧ ∀ arm ∈ arms,
      arm.form.isElse = false)
      (fun _ _ h => branchArms_yields region hinner hstmt h.1 h.2) ⟨⟨.nil, by simp⟩, by simp⟩
  refine hrounds.bind ?_
  rintro ⟨arms, stop⟩ later ⟨⟨hrow, helse⟩, hstop⟩ _
  refine makeRow_yields (isStatement_map erase) (.branch arms) rfl (region.join hstart hstop) fun hw hi id => ?_
  obtain ⟨hread, harms⟩ := hrow hw hi
  have hexp : arms.flatMap exports = [] := by
    rw [flatMap_eq_nil_iff]
    intro arm ha
    obtain ⟨own, form⟩ := arm
    have hform := harms _ ha
    cases form <;> first | rfl | cases hform
  exact .wrap void_valid rfl (List.Perm.refl _) hexp hread (fun _ _ => ⟨harms, helse⟩)
    fun last hl kid hm => NodesRead.scoped_of_mem hexp (hread.inScope last hl) hm

lemma whileStatement_reads : ReadsNode may isStatement (whileStatement inner) := by
  refine fun tbl => .skip (.expect _ _) fun start hstart => .one (condition_gives region hinner tbl)
    fun condition hcond _ => ?_
  refine .more (body_reads region hstmt tbl) fun body later hbody hbs => ?_
  refine makeRow_yields (isStatement_map erase) (.loop .whileLoop none (some condition) none body) rfl
    (region.join hstart (hbs body (.head _)).span) fun hw hi id => ?_
  obtain ⟨hread, hbool⟩ := hcond hw
  obtain ⟨hbody, hblk⟩ := hbody hw hi
  exact plainLoop_read void_valid (List.Perm.refl _) ((NodesRead.expression hw hi hread).append hw hbody)
    ⟨hread.isExpression, hbool⟩ (hblk body (.head _)) (exports_of_readUnder hread)

lemma doWhileStatement_reads : ReadsNode may isStatement (doWhileStatement inner) := by
  refine fun tbl => .skip (.expect _ _) fun start hstart => .bind (body_reads region hstmt tbl)
    fun body later hbody _ => ?_
  refine .skip (.expect _ _) fun _ _ => .another (condition_gives region hinner later) fun condition hcond _ => ?_
  refine .skip (.expect _ _) fun stop hstop => .perm (makeRow_yields (isStatement_map erase)
    (.loop .doWhile none (some condition) none body) rfl (region.join hstart hstop) fun hw hi id => ?_) (.swap ..)
  obtain ⟨hbody, hblk⟩ := hbody hw hi
  obtain ⟨hread, hbool⟩ := hcond hbody.wellFormed
  exact plainLoop_read void_valid (List.Perm.swap _ _ _)
    (hbody.append hw (.expression hbody.wellFormed hbody.inner_ne hread))
    ⟨hread.isExpression, hbool⟩ (hblk body (.head _)) (exports_of_readUnder hread)

lemma forStatement_reads : ReadsNode may isStatement (forStatement inner) := by
  refine fun tbl => .skip (.expect _ _) fun start hstart => .skip (.expect _ _) fun _ _ => .openScope ?_
  refine .bind (forInit_yields region hinner hstart) fun init? mid hinit _ => .skip (.expect _ _) fun _ _ => ?_
  refine .more (forCondition_gives region hinner) ?_
  rintro condition? _ ⟨rfl, hcond⟩ _
  refine .skip (.expect _ _) fun _ _ => .more (forStep_gives region hinner) ?_
  rintro step? _ ⟨rfl, hstep⟩ _
  refine .skip (.expect _ _) fun _ _ => .more (body_reads region hstmt _) fun body later hbody hbs =>
    .closeScope ?_
  refine .perm (makeRow_yields (isStatement_map erase) (.loop .forLoop init? condition? step? body) rfl
    (region.join hstart (hbs body (.head _)).span) fun hw hi id => ?_) ?_
  · have hinit := hinit hw.openScope (cons_ne_nil _ _)
    obtain ⟨hw', hi'⟩ := And.intro hinit.choose_spec.1.wellFormed hinit.choose_spec.1.inner_ne
    obtain ⟨hbody, hblk⟩ := hbody hw' hi'
    exact forLoop_read hi hw void_valid hinit (hcond hw') (hstep hw') hbody (hblk body (.head _))
  · -- The step is read before the body and runs after it.
    simp only [append_assoc, Form.children]
    exact (perm_append_comm.append_left _).append_left _

/-! ## Statements -/

lemma statement_reads : ReadsRow may Form.isStatement (statement inner) := by
  refine fun tbl => .skip (.expectPeek _) fun token htoken => ?_
  split
  · refine (ReadsNode.row (block_reads region hstmt) fun node hn => ?_) tbl
    obtain ⟨stmts, hform⟩ := eq_block_of_isBlock hn
    rw [hform]
    rfl
  · exact .skip .next fun _ _ => .pure rfl .nil
  · exact ReadsNode.row (branch_reads region hinner hstmt) (fun _ h => h) tbl
  · exact ReadsNode.row (whileStatement_reads region hinner hstmt) (fun _ h => h) tbl
  · exact ReadsNode.row (forStatement_reads region hinner hstmt) (fun _ h => h) tbl
  · exact ReadsNode.row (doWhileStatement_reads region hinner hstmt) (fun _ h => h) tbl
  · exact ReadsNode.row (jump_reads region htoken (.inl rfl)) (fun _ h => h) tbl
  · exact ReadsNode.row (jump_reads region htoken (.inr rfl)) (fun _ h => h) tbl
  · exact ReadsNode.row (returnStatement_reads region hinner) (fun _ h => h) tbl
  refine .skip .isDeclarationNext fun declares _ => ?_
  cases declares
  · refine .one (expression_reads region hinner tbl) fun node hread _ => ?_
    change Yields may tbl [node] (expectSemicolon >>= fun _ => pure [node]) _ _
    refine .skip (.expect _ _) fun _ _ => .pure rfl fun hw hi => ?_
    exact ⟨.expression hw hi (hread hw),
      forall_mem_singleton.mpr (isStatement_of_isExpression (hread hw).isExpression)⟩
  · refine .bind (declaration_reads region hinner tbl) fun row later hrow _ => .skip (.expect _ _) fun _ _ =>
      .pure rfl fun hw hi => ?_
    refine ⟨(hrow hw hi).1, fun node hn => ?_⟩
    obtain ⟨sym, ini?, hform⟩ := eq_declare_of_isDeclare ((hrow hw hi).2 node hn)
    rw [hform]
    rfl

end

end Parser

/-- Statements are read as expected at every depth. -/
lemma Grammar.readsStatements_ofDepth (region : Span.Region may) (depth : Nat) :
    Parser.ReadsRow may isStatement (Grammar.ofDepth depth).statement := by
  induction depth with
  | zero => exact fun _ => .failAtEnd
  | succ depth ih => exact Parser.statement_reads region (Grammar.readsExpressions_ofDepth region depth) ih

end Shading
