import Shading.ValueType

/-!
# Swizzles

A swizzle such as `xzy` or `rgba` selects lanes of a vector by name.  All its
letters come from one of two sets.
-/

namespace Shading

/-- The sets of lane names, in lane order. -/
def laneNames : List (List Char) := [['x', 'y', 'z', 'w'], ['r', 'g', 'b', 'a']]

/-- Lanes that the letters of a swizzle name, one to four of them. -/
def swizzleLanes (field : String) : Option (List Nat) :=
  let letters := field.toList
  if letters.isEmpty || ValueType.maxLanes < letters.length then none
  else laneNames.findSome? fun names => letters.mapM (names.idxOf? ·)

/-- Type of `object.field`. -/
def swizzleType (object : ValueType) (field : String) : Option ValueType :=
  match swizzleLanes field with
  | some lanes =>
    if object.isVector && lanes.all (· < object.lanes) then some ⟨object.base, lanes.length⟩ else none
  | none => none

end Shading
