import Shading.Tree.Node

/-!
# Trees as text

One line for each node in preorder, indented by two blanks for each level.
-/

namespace Shading

namespace Node

/-- What the line of a node says. -/
def caption {α : Type} (symbols : SymbolTable) (type : ValueType) : Form α → String
  | .program _ => "Program"
  | .function symbol _ _ => "Function " ++ (symbols.get symbol).name ++ " -> " ++ type.text
  | .block _ => "Block"
  | .branch _ => "Branch"
  | .arm (some _) _ => "Condition"
  | .arm none _ => "Condition (else)"
  | .loop kind .. => "Loop " ++ kind.name
  | .breakLoop => "Break"
  | .continueLoop => "Continue"
  | .returnValue _ => "Return"
  | .declare symbol _ =>
    "VarDecl " ++ (symbols.get symbol).name ++ ": " ++ (symbols.get symbol).type.text
  | .swizzle _ field => "VarMemb ." ++ field ++ ": " ++ type.text
  | .var symbol => "Var " ++ (symbols.get symbol).name ++ ": " ++ type.text
  | .immediate value => "Imm " ++ value.text ++ ": " ++ type.text
  | .unary op _ => "Unary " ++ op.symbol ++ ": " ++ type.text
  | .binary op _ _ => "Binary " ++ op.symbol ++ ": " ++ type.text
  | .call callee _ => "Call " ++ (symbols.get callee).name ++ ": " ++ type.text

def lines (symbols : SymbolTable) (node : Node) : List String :=
  node.fold fun label form =>
    caption symbols label.type form :: (form.children.flatMap Prod.snd).map ("  " ++ ·)

end Node

def Program.lines (program : Program) : List String := program.root.lines program.symbols

def Program.text (program : Program) : String := String.join (program.lines.map (· ++ "\n"))

end Shading
