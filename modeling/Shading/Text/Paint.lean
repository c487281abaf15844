/-!
# Colored text

Coloring puts an escape sequence before a text and the reset sequence after
it, or leaves the text alone when color is off.
-/

namespace Shading

inductive Paint where
  | redBold
  | white
  | blue
  | yellow
  | green
  | magenta
  | cyan
  | brightRed
  | dimmed
deriving DecidableEq

namespace Paint

def codes : Paint → String
  | .redBold => "1;31"
  | .white => "37"
  | .blue => "34"
  | .yellow => "33"
  | .green => "32"
  | .magenta => "35"
  | .cyan => "36"
  | .brightRed => "91"
  | .dimmed => "2"

def escape (codes : String) : String := "\x1b[" ++ codes ++ "m"

def reset : String := escape "0"

def apply (paint : Paint) (color : Bool) (text : String) : String :=
  if color then escape paint.codes ++ text ++ reset else text

end Paint

/-- A way to color: one escape sequence before a text and one behind it, or
none when color is off. -/
structure Coloring where
  apply : Bool → Paint → String → String
  off : ∀ paint text, apply false paint text = text
  on : ∀ paint text, ∃ first last : String, 'm' ∉ first.toList ∧ 'm' ∉ last.toList ∧
    apply true paint text = Paint.escape first ++ text ++ Paint.escape last

/-- The colors of a terminal. -/
def Coloring.terminal : Coloring where
  apply color paint := paint.apply color
  off _ _ := rfl
  on paint _ := ⟨paint.codes, "0", by cases paint <;> decide, by decide, rfl⟩

end Shading
