import Shading.Proofs.Parse.Statement
import Shading.Proofs.Tree.Access

/-!
# Programs that were read

Every function of a program that was read is a block that is typed and in
scope, given its parameters (`Program.wellRead_of_parse`).  Reading numbers
every node once and links it to the node it stands in
(`Program.numbered_of_parse`).  Spans of nodes are joined from those of tokens,
so they are in every set that has the spans of the tokens, the end of the text
and joins of its members (`Program.spanned_parse`).
-/

namespace Shading

open SymbolTable List

variable {tbl : SymbolTable} {layout : Layout} {may : Span → Prop} {src : Source} {prog : Program}

/-- A layout that was put together member by member. -/
inductive Layout.Built : Layout → Prop where
  | empty : Built .empty
  | add {layout later name type access member}
      (built : Built layout) (valid : type.Valid) (added : layout.add name type access = .ok (member, later)) :
      Built later

/-- A function whose body is typed and in scope and reads only what can be
read. -/
structure FunctionRead (symbols : SymbolTable) (symbol : SymbolId) (parameters : List SymbolId) (body : Node) :
    Prop where
  isFunction : (symbols.get symbol).isFunction = true
  wellFormed : (symbols.get symbol).WellFormed
  isBlock : body.form.isBlock = true
  typed : body.Typed symbols
  inScope : body.Scoped symbols parameters
  readable : body.Readable symbols .read

/-- Every node is reached once, below the node it belongs to, and has a number
that was taken. -/
structure Program.Numbered (program : Program) : Prop where
  isRoot : program.root.parent? = none
  linked : program.root.Linked
  nodup : program.root.ids.Nodup
  bound : ∀ id ∈ program.root.ids, id.index < program.nodeCount

/-- A program all of whose functions are as they were read. -/
structure Program.WellRead (program : Program) (layout : Layout) : Prop where
  symbols : program.symbols.WellFormed
  grows : (ofLayout layout).Extends program.symbols
  numbered : program.Numbered
  isProgram : ∃ functions, program.root.form = .program functions
  functions : ∀ function ∈ program.functions, ∃ symbol parameters body,
    function.form = .function symbol parameters body ∧ FunctionRead program.symbols symbol parameters body

/-! ## Layouts -/

namespace SymbolTable

@[simp] lemma inner_declare_of_inner (h : tbl.inner = []) (sym : Symbol) : (tbl.declare sym).2.inner = [] := by
  rw [declare, h]

lemma WellFormed.empty : empty.WellFormed := by
  refine ⟨?_, fun id h => ?_, ?_⟩
  · simp [visible, SymbolTable.empty]
  · exact absurd h (Nat.not_lt_zero _)
  · simp [SymbolTable.empty]

/-- Symbols are declared outside of all functions. -/
lemma foldl_declare {α : Type} {add : SymbolTable → α → SymbolTable} {items : List α}
    (hadd : ∀ tbl, ∀ item ∈ items, tbl.WellFormed → tbl.inner = [] →
      (add tbl item).WellFormed ∧ (add tbl item).inner = [])
    (hw : tbl.WellFormed) (hi : tbl.inner = []) :
    (items.foldl add tbl).WellFormed ∧ (items.foldl add tbl).inner = [] := by
  induction items generalizing tbl with
  | nil => exact ⟨hw, hi⟩
  | cons item rest ih =>
    obtain ⟨hw, hi⟩ := hadd tbl item (.head _) hw hi
    exact ih (fun tbl item hm => hadd tbl item (.tail _ hm)) hw hi

lemma WellFormed.addIntrinsic (hw : tbl.WellFormed) (f : Intrinsic) : (tbl.addIntrinsic f).WellFormed := by
  have hsym : Symbol.WellFormed ⟨f.name, .void, .intrinsic f, true⟩ := trivial
  exact hw.declare hsym fun _ => rfl

lemma WellFormed.addMember {member : Member} (hw : tbl.WellFormed)
    (hi : tbl.inner = []) (hv : member.type.Valid ∧ member.type.isVoid = false) :
    (tbl.addMember member).WellFormed ∧ (tbl.addMember member).inner = [] := by
  let sym : Symbol := ⟨member.name, member.type, .member member.offset member.access, false⟩
  have h : (tbl.declare sym).2.WellFormed := hw.declare hv fun _ => rfl
  unfold SymbolTable.addMember
  dsimp only
  split
  · exact ⟨⟨h.bound, h.symbol, h.outer⟩, inner_declare_of_inner hi _⟩
  · exact ⟨h, inner_declare_of_inner hi _⟩

end SymbolTable

lemma Layout.Built.valid (h : layout.Built) :
    ∀ member ∈ layout.members, member.type.Valid ∧ member.type.isVoid = false := by
  induction h with
  | empty => simp [Layout.empty]
  | add built valid added ih =>
    unfold Layout.add at added
    split at added
    · cases added
    split at added
    · cases added
    split at added
    · cases added
    rename_i hvoid
    cases added
    intro member hm
    rcases mem_append.mp hm with hm | hm
    · exact ih member hm
    · rw [mem_singleton.mp hm]
      exact ⟨valid, by simpa using hvoid⟩

lemma SymbolTable.wellFormed_ofLayout (h : layout.Built) :
    (ofLayout layout).WellFormed ∧ (ofLayout layout).inner = [] := by
  have hintrinsics : (Intrinsic.all.foldl addIntrinsic empty).WellFormed ∧
      (Intrinsic.all.foldl addIntrinsic empty).inner = [] :=
    foldl_declare (fun tbl f _ hw hi => ⟨hw.addIntrinsic f, inner_declare_of_inner hi _⟩) .empty rfl
  exact foldl_declare (fun tbl member hm hw hi => hw.addMember hi (h.valid member hm)) hintrinsics.1 hintrinsics.2

/-! ## Functions -/

/-- What can be read still can under later tables. -/
lemma Node.Readable.extends {later : SymbolTable} {node : Node} {usage : Usage} (h : node.Readable tbl usage)
    (hl : tbl.Extends later) : node.Readable later usage := by
  intro use hu hreads off access hkind
  by_cases hbound : use.symbol.index < tbl.size
  · rw [hl.get_eq _ hbound] at hkind
    exact h use hu hreads off access hkind
  · exact absurd hkind (hl.not_member _ (Nat.le_of_not_lt hbound) off access)

namespace Parser

variable {node : Node} {old : List Node}

/-- The parameter has a type that values have, and stands at an allowed span. -/
structure Parameter.Fits (allowed : Span → Prop) (parameter : Parameter) : Prop where
  valid : parameter.type.Valid ∧ parameter.type.isVoid = false
  span : allowed parameter.span

lemma parameter_gives : Looks may tbl old parameter (Parameter.Fits may) := by
  refine .skip expectType_gives ?_
  rintro ⟨type, span⟩ ⟨hv, hspan⟩
  dsimp only
  split
  · exact .fail hspan
  · rename_i hvoid
    exact .skip (.expect _ _) fun name hname => .pure rfl ⟨rfl, ⟨hv, by simpa using hvoid⟩, hname⟩

lemma skipVoid_gives : Looks may tbl old skipVoid := by
  refine .skip (.typeAt? 0) fun type? _ => ?_
  split
  · refine .skip (.isAt 1 _) fun isEmpty _ => ?_
    cases isEmpty
    · exact .pure rfl ⟨rfl, trivial⟩
    · exact .skip .next fun _ _ => .pure rfl ⟨rfl, trivial⟩
  · exact .pure rfl ⟨rfl, trivial⟩

lemma parameters_gives : Looks may tbl [] parameters fun res => ∀ parameter ∈ res, parameter.Fits may := by
  have hclose (items : List Parameter) (h : ∀ parameter ∈ items, parameter.Fits may) : Looks may tbl [] (do
        let _ ← expectCloseParen
        return items) fun res => ∀ parameter ∈ res, parameter.Fits may :=
    .skip (.expect _ _) fun _ _ => .pure rfl ⟨rfl, h⟩
  have hitems : Gives may tbl [] (commaSeparated parameter) (·.flatMap fun _ => []) fun res =>
      ∀ parameter ∈ res, parameter.Fits may := by
    refine .commaSeparated _ ?_ ⟨rfl, forall_mem_nil _⟩
    rintro items _ ⟨rfl, h⟩
    exact parameter_gives.imp fun _ _ hitem => ⟨hitem.1,
      forall_mem_append.mpr ⟨h, forall_mem_singleton.mpr hitem.2⟩⟩
  have hnone (parameters : List Parameter) : parameters.flatMap (fun _ => ([] : List Node)) = [] := by simp
  simp only [hnone] at hitems
  refine .skip skipVoid_gives fun _ _ => .skip (.isNext _) fun none _ => ?_
  cases none
  · exact .skip hitems hclose
  · exact hclose [] (by simp)

/-- The parameters of a function come into scope. -/
structure ParametersRead (table later : SymbolTable) (ids : List SymbolId) : Prop where
  grows : table.Extends later
  wellFormed : later.WellFormed
  inner_ne : later.inner ≠ []
  inner_tail : later.inner.tail = table.inner.tail
  outer_eq : later.outer = table.outer
  visible : ∀ id, id ∈ later.visible ↔ id ∈ ids ∨ id ∈ table.visible
  kind : ∀ id ∈ ids, (later.get id).kind = .parameter

lemma declareParameters_yields {parameters : List Parameter} (hfits : ∀ parameter ∈ parameters,
    parameter.Fits may) :
    Yields may tbl old (parameters.mapM fun p => declare ⟨p.name, p.type, .parameter, false⟩ p.span)
    (fun _ => old) fun ids later =>
      tbl.WellFormed → tbl.inner ≠ [] → ParametersRead tbl later ids := by
  induction parameters generalizing tbl with
  | nil =>
    rw [mapM_nil]
    exact .pure rfl fun hw hi => ⟨.refl _, hw, hi, rfl, rfl, by simp, by simp⟩
  | cons parameter rest ih =>
    rw [mapM_cons]
    refine .bind (.declare _ (hfits parameter (.head _)).span) ?_
    rintro _ _ ⟨rfl, rfl⟩ _
    refine .bind (ih (forall_mem_cons.mp hfits).2) fun others later hrest _ => .pure rfl fun hw hi => ?_
    obtain ⟨Γ, scopes, hscope⟩ := exists_cons_of_ne_nil hi
    let sym : Symbol := ⟨parameter.name, parameter.type, .parameter, false⟩
    have hgrows : tbl.Extends (tbl.declare sym).2 := .declare (by rintro _ _ ⟨⟩)
    have hwell : (tbl.declare sym).2.WellFormed := hw.declare (hfits parameter (.head _)).valid fun h =>
      absurd h hi
    have hinner : (tbl.declare sym).2.inner ≠ [] := by
      rw [SymbolTable.declare, hscope]
      exact cons_ne_nil _ _
    replace hrest := hrest hwell hinner
    refine ⟨hgrows.trans hrest.grows, hrest.wellFormed, hrest.inner_ne,
      hrest.inner_tail.trans (inner_declare_tail _ _),
      hrest.outer_eq.trans (outer_declare_of_inner _ _ hscope), fun id => ?_, fun id hid => ?_⟩
    · rw [hrest.visible, mem_visible_declare, mem_cons]
      tauto
    · rcases mem_cons.mp hid with rfl | hid
      · rw [hrest.grows.get_eq _ (by rw [size_declare]; exact Nat.lt_succ_self _), get_declare_new]
      · exact hrest.kind id hid

lemma checkReadable_gives (h : node.Spanned may) : Looks may tbl old (checkReadable node) fun _ =>
    node.Readable tbl .read := by
  refine .skip .get ?_
  rintro st ⟨rfl, -⟩
  dsimp only
  split
  · rename_i use huse
    exact .fail (h.uses .read use (mem_of_find?_eq_some huse))
  · rename_i hnone
    refine .pure rfl ⟨rfl, fun use hu hreads off access hkind => ?_⟩
    have hall := find?_eq_none.mp hnone use hu
    rw [hreads, Symbol.isReadable, hkind] at hall
    simpa using hall

variable {inner : Grammar}

/-- A function fits every later table. -/
def FitsFrom (later : SymbolTable) (node : Node) : Prop :=
  ∀ last, later.Extends last → ∃ sym parameters body,
    node.form = .function sym parameters body ∧ FunctionRead last sym parameters body

/-- Functions are added to a table that is outside of all scopes. -/
def FunctionsRead (table later : SymbolTable) (nodes : List Node) : Prop :=
  table.WellFormed → table.inner = [] →
    table.Extends later ∧ later.WellFormed ∧ later.inner = [] ∧ ∀ node ∈ nodes, FitsFrom later node

section

variable (region : Span.Region may) (hstmt : ReadsRow may Form.isStatement inner.statement)
include region hstmt

lemma function_yields (tbl : SymbolTable) : Yields may tbl [] (function inner)
    (fun node => [node]) fun node later =>
    FunctionsRead tbl later [node] := by
  refine .skip expectType_gives ?_
  rintro ⟨res, typeSpan⟩ ⟨hres, htype⟩
  refine .skip (.expect _ _) fun name hname => .skip (.expect _ _) fun _ _ =>
    .skip parameters_gives fun parameters hparameters => ?_
  refine .bind (.declare _ hname) ?_
  rintro _ declared ⟨rfl, hdecls⟩ _
  refine .openScope (.bind (declareParameters_yields hparameters) fun ids begun hparams _ => ?_)
  refine .bind (block_reads region hstmt begun) fun body ended hbody hspanned => .closeScope ?_
  replace hspanned := hspanned body (.head _)
  refine .skip (checkReadable_gives hspanned) fun _ hreadable => ?_
  refine .imp (.node (.function ⟨tbl.size⟩ ids body) res (region.join htype hspanned.span)) ?_
  rintro _ _ ⟨rfl, id, rfl⟩ hw hi
  -- The function itself is declared outside of all scopes.
  have hsym : Symbol.WellFormed ⟨name.text, res, .function ⟨parameters.map (·.type), res⟩, true⟩ := by
    refine ⟨rfl, hres, fun type ht => ?_⟩
    obtain ⟨parameter, hp, rfl⟩ := mem_map.mp ht
    exact (hparameters parameter hp).valid
  have hgrows : tbl.Extends declared := hdecls ▸ .declare (by rintro _ _ ⟨⟩)
  have hw' : declared.WellFormed := hdecls ▸ hw.declare hsym fun _ => rfl
  have hi' : declared.inner = [] := hdecls ▸ inner_declare_of_inner hi _
  replace hparams := hparams hw'.openScope (cons_ne_nil _ _)
  obtain ⟨hbody, hblk⟩ := hbody hparams.wellFormed hparams.inner_ne
  have hgrows' : declared.Extends ended :=
    (SymbolTable.Extends.openScope _).trans (hparams.grows.trans hbody.grows)
  refine ⟨hgrows.trans (hgrows'.trans (.closeScope _)), hbody.wellFormed.closeScope, ?_,
    forall_mem_singleton.mpr fun last hl => ?_⟩
  · show ended.inner.tail = []
    rw [hbody.inner_tail, hparams.inner_tail]
    exact hi'
  have hl' : ended.Extends last := (SymbolTable.Extends.closeScope _).trans hl
  have hget : last.get ⟨tbl.size⟩ = ⟨name.text, res, .function ⟨parameters.map (·.type), res⟩, true⟩ := by
    rw [(hgrows'.trans hl').get_eq ⟨tbl.size⟩, hdecls, get_declare_new]
    rw [hdecls, size_declare]
    exact Nat.lt_succ_self _
  -- In its body only the parameters are in scope.
  have hlocals : ∀ x, x ∈ begun.locals ↔ x ∈ ids := by
    intro x
    rw [mem_locals, hparams.visible]
    constructor
    · rintro ⟨hx | hx, hlocal⟩
      · exact hx
      · have hx' : x ∈ declared.outer.map Prod.snd := by
          simpa [SymbolTable.visible, SymbolTable.openScope, hi'] using hx
        rw [hparams.grows.get_eq x (hw'.bound x hx)] at hlocal
        exact absurd hlocal (by rw [SymbolTable.get_openScope, hw'.outer x hx']; decide)
    · intro hx
      exact ⟨.inl hx, by rw [Symbol.isLocal, hparams.kind x hx]⟩
  refine ⟨⟨tbl.size⟩, ids, body.withParent (some id), rfl, ?_⟩
  have halike : body.Alike (body.withParent (some id)) := (Node.Alike.withParent _ _).symm
  exact {
    isFunction := by rw [hget]; rfl
    wellFormed := by rw [hget]; exact hsym
    isBlock := hblk body (.head _)
    typed := (hbody.typed last hl' body (.head _)).of_alike halike
    inScope := ((hbody.inScope last hl').1.congr hlocals).of_alike halike
    readable := (hreadable.extends hl).of_alike halike }

lemma functions_yields (tbl : SymbolTable) : Yields may tbl [] (functions inner)
    (fun nodes => nodes) fun nodes later =>
    FunctionsRead tbl later nodes := by
  refine .iterate (fun nodes => nodes) (fun nodes later => FunctionsRead tbl later nodes)
    (fun nodes mid hread => ?_) fun hw hi => ⟨.refl _, hw, hi, by simp⟩
  refine .skip .peek fun token? _ => ?_
  cases token? with
  | none => exact .pure rfl hread
  | some token =>
    refine .more (function_yields region hstmt mid) fun node later hnode _ => .pure rfl fun hw hi => ?_
    obtain ⟨hgrows, hw, hi, hall⟩ := hread hw hi
    obtain ⟨hgrows', hw', hi', hnode⟩ := hnode hw hi
    refine ⟨hgrows.trans hgrows', hw', hi', forall_mem_append.mpr ⟨fun other ho last hl => ?_, hnode⟩⟩
    exact hall other ho last (hgrows'.trans hl)

end

end Parser

/-! ## Programs -/

namespace Program

/-- What a program that was read is made of. -/
structure MadeOf (program : Program) (layout : Layout) (allowed : Span → Prop) (functions : List Node) : Prop where
  root : program.root = (empty (.ofLayout layout)).root.withForm (.program functions)
  numbered : Shading.Numbered 1 program.nodeCount [] functions
  spanned : ∀ function ∈ functions, function.Spanned allowed
  read : Parser.FunctionsRead (.ofLayout layout) program.symbols functions

lemma parse_ends (region : Span.Region may) (layout : Layout)
    (htokens : ∀ lexeme ∈ lexemes src.contents, may (lexemeSpan lexeme)) (hstop : may ⟨src.size, src.size⟩) :
    match parse src layout with
    | .ok prog => ∃ functions, prog.MadeOf layout may functions
    | .error error => may error.span := by
  let depth := (lexemes src.contents).length + 1
  let start : ParseState := ⟨lexemes src.contents, src.size, .ofLayout layout, 1⟩
  have hyields := Parser.functions_yields region (Grammar.readsStatements_ofDepth region depth) (.ofLayout layout)
  have hends := hyields rfl (show start.Spanned may from ⟨htokens, hstop⟩) (forall_mem_nil _)
  have hparse : parse src layout = (Parser.functions (.ofDepth depth)).run start >>= fun res => pure
      ⟨(empty (.ofLayout layout)).root.withForm (.program res.1), res.2.symbols, res.2.nodeCount⟩ := rfl
  rw [hparse]
  generalize (Parser.functions (.ofDepth depth)).run start = res at hends
  cases res with
  | error error => exact hends
  | ok res => exact ⟨res.1, rfl, hends.1.numbered, hends.1.nodes, hends.2⟩

/-- Where all spans are allowed. -/
lemma madeOf_of_parse (h : parse src layout = .ok prog) :
    ∃ functions, prog.MadeOf layout (fun _ => True) functions := by
  have hregion : Span.Region fun _ => True := ⟨trivial, fun _ _ => trivial⟩
  have hends := parse_ends hregion layout (fun lexeme (_ : lexeme ∈ lexemes src.contents) => trivial) trivial
  rwa [h] at hends

lemma numbered_of_parse (h : parse src layout = .ok prog) : prog.Numbered := by
  obtain ⟨functions, hroot, hread, -, -⟩ := madeOf_of_parse h
  have hids : prog.root.ids = ⟨0⟩ :: Node.idsAll functions := by
    rw [hroot, Node.withForm, Node.ids_mk, Node.idsAll_adopt]
    rfl
  have hmem : ∀ id ∈ Node.idsAll functions, 1 ≤ id.index ∧ id.index < prog.nodeCount := fun id hm =>
    (hread.grows.mem id hm).resolve_left (by simp)
  refine ⟨hroot ▸ rfl, ?_, ?_, ?_⟩
  · rw [hroot]
    exact Node.linked_mk.mpr ⟨fun kid => Node.parent?_adopt, Node.linked_adopt (hread.linked (by simp))⟩
  · refine hids ▸ nodup_cons.mpr ⟨fun hm => ?_, hread.grows.nodup nodup_nil (by simp)⟩
    exact absurd (hmem _ hm).1 (by decide)
  · intro id hm
    rw [hids, mem_cons] at hm
    rcases hm with rfl | hm
    · exact hread.grows.le
    · exact (hmem id hm).2

/-- What was read is well-formed. -/
lemma wellRead_of_parse (hl : layout.Built) (h : Program.parse src layout = .ok prog) :
    prog.WellRead layout := by
  obtain ⟨hw, hi⟩ := wellFormed_ofLayout hl
  obtain ⟨functions, hmade⟩ := madeOf_of_parse h
  obtain ⟨hgrows, hwell, -, hall⟩ := hmade.read hw hi
  refine ⟨hwell, hgrows, numbered_of_parse h, ⟨_, by rw [hmade.root]; rfl⟩, fun fn hf => ?_⟩
  rw [Program.functions, hmade.root] at hf
  obtain ⟨original, ho, rfl⟩ := mem_map.mp hf
  exact hall original ho _ (.refl _)

/-- Spans of a program that was read, and of the error if there is one. -/
lemma spanned_parse (region : Span.Region may) (layout : Layout)
    (htokens : ∀ lexeme ∈ lexemes src.contents, may (lexemeSpan lexeme)) (hstop : may ⟨src.size, src.size⟩) :
    match parse src layout with
    | .ok prog => prog.root.Spanned may
    | .error error => may error.span := by
  have hends := parse_ends region layout htokens hstop
  cases h : parse src layout with
  | error error =>
    rw [h] at hends
    exact hends
  | ok prog =>
    rw [h] at hends
    obtain ⟨functions, hroot, -, hfns, -⟩ := hends
    dsimp only
    rw [hroot]
    exact .withForm hfns region.empty

end Program

end Shading
