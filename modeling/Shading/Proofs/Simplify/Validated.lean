import Shading.Proofs.Simplify.Flow

/-!
# What checking leaves of a tree

With both options off the pass only checks.  `Node.validated` says what it then
leaves of a tree: statements up to the first that ends, and values of returns
and arguments with a cast where their type is another one.
-/

namespace Shading

open List

variable {tbl : SymbolTable} {ret : ValueType} {a b node : Node} {env : SimplifyEnv} {lbl : Label}
  {form form' : Form Node}

namespace Node

/-- A value where one of some type is required. -/
def castTo (node : Node) (type : ValueType) : Node :=
  if node.type = type then node else .mk { node.label with type } (.unary .cast node)

/-- Statements up to the first that ends. -/
def upToEnd : List Node → List Node
  | [] => []
  | statement :: rest => if statement.ends then [statement] else statement :: upToEnd rest

/-- What is left of a form whose children are what is left of them. -/
def validatedForm (table : SymbolTable) (result : ValueType) : Form Node → Form Node
  | .block statements => .block (upToEnd statements)
  | .returnValue value? => .returnValue (value?.map (·.castTo result))
  | .call callee args =>
    match parameterTypes (table.get callee) (args.map (·.type)) with
    | .ok types => .call callee (zipWith castTo args types)
    | .error _ => .call callee args
  | form => form

/-- What is left in a function with results of type `result`. -/
def validated (table : SymbolTable) (result : ValueType) (node : Node) : Node :=
  node.fold fun label form => .mk label (validatedForm table result (form.map Prod.snd))

lemma validated_mk (lbl : Label) (form : Form Node) :
    (mk lbl form).validated tbl ret = .mk lbl (validatedForm tbl ret (form.map (validated tbl ret))) := by
  rw [validated, fold_mk, Form.map_map]
  rfl

lemma type_validated (node : Node) : (node.validated tbl ret).type = node.type := by
  cases node
  rw [validated_mk]
  rfl

lemma validated_of_var {sym : SymbolId} (h : node.form = .var sym) : node.validated tbl ret = node := by
  obtain ⟨lbl, form⟩ := node
  obtain rfl : form = .var sym := h
  exact validated_mk _ _

namespace Near

/-- What is left of a node whose children are what is left of them. -/
lemma validated (h : form'.map unplaced = (validatedForm tbl ret (form.map (validated tbl ret))).map unplaced) :
    (Node.mk lbl form').Near false ((Node.mk lbl form).validated tbl ret) := by
  rw [validated_mk]
  exact mk rfl h

lemma castTo (h : a.Near false b) (type : ValueType) : (a.castTo type).Near false (b.castTo type) := by
  rw [Node.castTo, Node.castTo, h.alike.type_eq]
  split
  · exact h
  · refine mk ?_ (congrArg (Form.unary .cast) h)
    obtain ⟨la, fa⟩ := a
    obtain ⟨lb, fb⟩ := b
    rw [Near, blur, unplaced_mk, unplaced_mk] at h
    exact congrArg (fun node : Node => ({ node.label with type } : Label)) h

end Near

/-- Where nothing is folded, a conversion is a cast. -/
lemma eq_castTo {type : ValueType} (hfold : env.options.fold = false) (h : node.coerced? env type = some b) :
    b = node.castTo type := by
  rcases coerced?_cases h with ⟨htype, rfl⟩ | ⟨hne, -, ⟨hfolds, -⟩ | rfl⟩
  · rw [castTo, if_pos htype]
  · rw [hfold] at hfolds
    cases hfolds
  · rw [castTo, if_neg hne]

/-- Arguments are converted alike. -/
lemma unplaced_of_coerces {seen args coerced : List Node} {types : List ValueType}
    (hfold : env.options.fold = false) (hs : seen.map unplaced = args.map unplaced)
    (h : (seen.zip types).mapM (fun item => item.1.coerced? env item.2) = some coerced) :
    coerced.map unplaced = (zipWith Node.castTo args types).map unplaced := by
  induction seen generalizing args types coerced with
  | nil =>
    obtain rfl : args = [] := map_eq_nil_iff.mp hs.symm
    cases h
    rfl
  | cons first rest ih =>
    obtain ⟨arg, others, rfl, hfirst, hrest⟩ := map_eq_cons_iff.mp hs.symm
    cases types with
    | nil =>
      cases h
      rfl
    | cons type types =>
      rw [zip_cons_cons, mapM_cons] at h
      obtain ⟨converted, hc, h⟩ := Option.bind_eq_some_iff.mp h
      obtain ⟨more, hmore, h⟩ := Option.bind_eq_some_iff.mp h
      cases h
      rw [map_cons, zipWith_cons_cons, map_cons, ih hrest.symm hmore, eq_castTo hfold hc]
      exact congrArg (· :: _) (Near.castTo hfirst.symm type)

lemma option_unplaced {seen? node? : Option Node} {f : Node → Node}
    (h : seen?.toList.map unplaced = (node?.toList.map f).map unplaced) :
    seen?.map unplaced = (node?.map f).map unplaced := by
  cases seen? <;> cases node? <;> simp_all

end Node

/-- A half is what is left of an arm before its body is visited. -/
def HalfArm.From (table : SymbolTable) (result : ValueType) (arm : Node) (half : HalfArm) : Prop :=
  ∃ cond?, arm = .mk half.label (.arm cond? half.body) ∧
    half.condition?.map Node.unplaced = (cond?.map (Node.validated table result)).map Node.unplaced

lemma SimplifyEnv.no_fold {p : Prop} (h : env.options.fold = true) (hfold : env.options.fold = false) : p :=
  absurd (hfold.symm.trans h) Bool.false_ne_true

end Shading
