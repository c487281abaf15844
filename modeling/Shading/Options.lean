/-!
# Compile options
-/

namespace Shading

structure Options where
  /-- Fold and propagate constants, and remove branches and loops that never
  run. -/
  fold : Bool
  /-- Remove stores and instructions whose results nobody uses. -/
  eliminate : Bool
  /-- How many operands, and how many instructions, may be alive at once. -/
  limit? : Option Nat
deriving DecidableEq

namespace Options

def standard : Options := ⟨true, true, none⟩

/-- Nothing is simplified; programs are still checked. -/
def unoptimized : Options := ⟨false, false, none⟩

end Options

end Shading
