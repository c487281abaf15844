import Shading.Text.Character
import Shading.Text.Paint
import Shading.Text.Span

/-!
# Source texts and positions

A position is a byte offset on a character boundary; one past the end counts
as the end.  Rows and columns start at one, and columns count bytes.
-/

namespace Shading

inductive Origin where
  | memory
  | file (path : String)
deriving DecidableEq

def Origin.text : Origin → String
  | .memory => "<memory>"
  | .file path => path

structure Source where
  origin : Origin
  contents : List Char

/-- Splits a text at a byte offset. -/
def splitAtByte : Nat → List Char → List Char × List Char
  | _, [] => ([], [])
  | 0, text => ([], text)
  | n, c :: rest =>
    let (before, after) := splitAtByte (n - c.utf8Size) rest
    (c :: before, after)

namespace Source

def ofMemory (text : String) : Source := ⟨.memory, text.toList⟩

def ofFile (path text : String) : Source := ⟨.file path, text.toList⟩

/-- Number of bytes. -/
def size (source : Source) : Nat := byteLength source.contents

def before (source : Source) (position : Nat) : List Char := (splitAtByte position source.contents).1

def after (source : Source) (position : Nat) : List Char := (splitAtByte position source.contents).2

def row (source : Source) (position : Nat) : Nat := (source.before position).count '\n' + 1

/-- The part of the line of `position` that stands before it. -/
def lineStart (source : Source) (position : Nat) : List Char :=
  ((source.before position).reverse.takeWhile (· ≠ '\n')).reverse

def column (source : Source) (position : Nat) : Nat := byteLength (source.lineStart position) + 1

/-- The line of `position`, without its newline. -/
def line (source : Source) (position : Nat) : List Char :=
  source.lineStart position ++ (source.after position).takeWhile (· ≠ '\n')

/-- `origin:row:column` of the start of a span. -/
def location (source : Source) (span : Span) : String :=
  source.origin.text ++ ":" ++ toString (source.row span.start) ++ ":" ++
    toString (source.column span.start)

/-- Number of carets under a span: at least one, and none beyond its first
line. -/
def underlineWidth (source : Source) (span : Span) : Nat :=
  let room := byteLength (source.line span.start) + 1 - source.column span.start
  min (max (span.stop - span.start) 1) (max room 1)

def gutter (source : Source) (span : Span) : String := toString (source.row span.start) ++ " | "

/-- The line a span starts in and carets under the span. -/
def highlight (source : Source) (span : Span) (color : Bool) : String :=
  let gutter := source.gutter span
  let indent := gutter.length + source.column span.start - 1
  let carets := String.ofList (List.replicate (source.underlineWidth span) '^')
  Paint.blue.apply color gutter ++ String.ofList (source.line span.start) ++ "\n" ++
    String.ofList (List.replicate indent ' ') ++ Paint.redBold.apply color carets ++ "\n"

end Source

end Shading
