import Shading.Main
import Shading.Proofs.Diagnostic
import Shading.Proofs.Fold
import Shading.Proofs.Ir.ArenaLog
import Shading.Proofs.Ir.Atomic
import Shading.Proofs.Ir.Compaction
import Shading.Proofs.Ir.Interning
import Shading.Proofs.Ir.Survivors
import Shading.Proofs.Ir.Text
import Shading.Proofs.Lowering.Access
import Shading.Proofs.Lowering.Errors
import Shading.Proofs.Lowering.FlowGraph
import Shading.Proofs.Lowering.Limit
import Shading.Proofs.Lowering.Temporaries
import Shading.Proofs.Parse.Precedence
import Shading.Proofs.Simplify.Effects
import Shading.Proofs.Simplify.Unfolded
import Shading.Proofs.Simplify.Unreachable
import Shading.Proofs.Simplify.WellTyped
import Shading.Proofs.Spelling
import Shading.Proofs.Text.Lines
import Shading.Proofs.Token.Lookahead
import Shading.Proofs.Tree.Usage
import Shading.Simplify.Forest.Program
