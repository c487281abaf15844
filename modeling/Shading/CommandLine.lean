import Shading.Compile
import Shading.Ir.Text
import Shading.Tree.Text

/-!
# The command line

    [-m | --member MEMBER]... [--no-optimize] [--dump-ast] [--dump-ir]
    [--arena-limit N] FILE...

Options may follow files; everything behind `--` is a file.  All files are
compiled against one layout, and a file that fails does not stop the others.
-/

namespace Shading

/-- What the arguments ask for. -/
structure Request where
  members : List Declaration
  noOptimize : Bool
  dumpAst : Bool
  dumpIr : Bool
  limit? : Option Nat
  files : List String

/-- Why the arguments are refused. -/
inductive UsageError where
  | unknownOption (text : String)
  | missingValue (option : String)
  | unexpectedValue (option : String)
  | repeatedOption (option : String)
  | invalidLimit (text : String)
  | invalidMember (error : LayoutError)
  | invalidLayout (error : LayoutError)
  | noFiles
  | missingFile (path : String)

def UsageError.message : UsageError → String
  | .unknownOption text => "unexpected argument '" ++ text ++ "'"
  | .missingValue option => "a value is required for '" ++ option ++ "'"
  | .unexpectedValue option => "'" ++ option ++ "' takes no value"
  | .repeatedOption option => "'" ++ option ++ "' cannot be used multiple times"
  | .invalidLimit text => "invalid limit '" ++ text ++ "'"
  | .invalidMember error | .invalidLayout error => error.message
  | .noFiles => "Missing source files!"
  | .missingFile path => "Source file '" ++ path ++ "' does not exist!"

namespace Request

def empty : Request := ⟨[], false, false, false, none, []⟩

/-! ## Arguments -/

/-- An option, told apart by its name. -/
inductive Switch where
  | member
  | limit
  | noOptimize
  | dumpAst
  | dumpIr

def Switch.ofName? : List Char → Option Switch
  | name =>
    match String.ofList name with
    | "member" => some .member
    | "arena-limit" => some .limit
    | "no-optimize" => some .noOptimize
    | "dump-ast" => some .dumpAst
    | "dump-ir" => some .dumpIr
    | _ => none

def Switch.text : Switch → String
  | .member => "--member"
  | .limit => "--arena-limit"
  | .noOptimize => "--no-optimize"
  | .dumpAst => "--dump-ast"
  | .dumpIr => "--dump-ir"

def Switch.takesValue : Switch → Bool
  | .member | .limit => true
  | _ => false

/-- A machine word in decimal digits, a plus sign allowed in front. -/
def limitOfText? (text : String) : Option Nat :=
  let digits := match text.toList with
    | '+' :: digits => digits
    | digits => digits
  if digits.isEmpty || !digits.all Char.isDigit then none
  else
    let n := Decimal.digitsValue digits
    if n < UInt64.size then some n else none

def addMember (request : Request) (text : String) : Except UsageError Request := do
  let declaration ← (Declaration.ofText text).mapError .invalidMember
  return { request with members := request.members ++ [declaration] }

def setLimit (request : Request) (text : String) : Except UsageError Request :=
  match request.limit?, limitOfText? text with
  | none, some n => .ok { request with limit? := some n }
  | some _, _ => .error (.repeatedOption Switch.limit.text)
  | none, none => .error (.invalidLimit text)

def setValue (request : Request) (switch : Switch) (text : String) : Except UsageError Request :=
  match switch with
  | .member => request.addMember text
  | .limit => request.setLimit text
  | _ => .error (.unexpectedValue switch.text)

/-- Sets an option that takes no value and may be given once. -/
def setFlag (request : Request) (switch : Switch) : Except UsageError Request :=
  match switch, request with
  | .noOptimize, { noOptimize := false, .. } => .ok { request with noOptimize := true }
  | .dumpAst, { dumpAst := false, .. } => .ok { request with dumpAst := true }
  | .dumpIr, { dumpIr := false, .. } => .ok { request with dumpIr := true }
  | _, _ => .error (.repeatedOption switch.text)

def addFile (request : Request) (path : String) : Request :=
  { request with files := request.files ++ [path] }

/-- How one argument reads. -/
inductive Argument where
  | file (path : String)
  /-- `--`: only files follow. -/
  | filesOnly
  | switch (option : Switch) (value? : Option String)
  | unknown (text : String)

/-- The value attached to an option. -/
def attached? : List Char → Option String
  | [] => none
  | '=' :: value => some (String.ofList value)
  | value => some (String.ofList value)

def Argument.ofText (text : String) : Argument :=
  match text.toList with
  | ['-', '-'] => .filesOnly
  | '-' :: '-' :: rest =>
    let name := rest.takeWhile (· ≠ '=')
    match Switch.ofName? name with
    | some option => .switch option (attached? (rest.drop name.length))
    | none => .unknown text
  | '-' :: 'm' :: value => .switch .member (attached? value)
  | '-' :: _ :: _ => .unknown text
  | _ => .file text

/-- A value that stands as an argument of its own does not look like an
option. -/
def isValue (text : String) : Bool :=
  match text.toList with
  | '-' :: _ :: _ => false
  | _ => true

def read (request : Request) : List String → Except UsageError Request
  | [] => .ok request
  | text :: rest =>
    match Argument.ofText text with
    | .file path => (request.addFile path).read rest
    | .filesOnly => .ok (rest.foldl addFile request)
    | .unknown text => .error (.unknownOption text)
    | .switch option (some value) => do (← request.setValue option value).read rest
    | .switch option none =>
      if option.takesValue then
        match rest with
        | value :: rest =>
          if isValue value then do (← request.setValue option value).read rest
          else .error (.missingValue option.text)
        | [] => .error (.missingValue option.text)
      else do (← request.setFlag option).read rest

def ofArguments (arguments : List String) : Except UsageError Request := empty.read arguments

/-! ## What a request means -/

def layout (request : Request) : Except UsageError Layout :=
  if request.members.isEmpty then .ok .sample
  else (Layout.ofDeclarations request.members).mapError .invalidLayout

def options (request : Request) : Options :=
  { (if request.noOptimize then Options.unoptimized else Options.standard) with
    limit? := request.limit? }

end Request

/-! ## Running -/

/-- What a run leaves: its exit code and the two output texts. -/
structure Run where
  code : Nat
  stdout : String
  stderr : String
deriving DecidableEq

namespace Run

def success : Run := ⟨0, "", ""⟩

def failure (stderr : String) : Run := ⟨1, "", stderr⟩

def usage (error : UsageError) : Run := ⟨2, "", "error: " ++ error.message ++ "\n"⟩

/-- One run after another; a failure of either is a failure of both. -/
def append (first second : Run) : Run :=
  ⟨max first.code second.code, first.stdout ++ second.stdout, first.stderr ++ second.stderr⟩

end Run

/-- Text of a dump under a dimmed title. -/
def dumpText (color : Bool) (title path text : String) : String :=
  Paint.dimmed.apply color ("; " ++ title ++ " of " ++ path) ++ "\n" ++ text

def unreadable (path : String) (color : Bool) : String :=
  errorHeading .io color ++ "failed to read `" ++ path ++ "`: stream did not contain valid UTF-8\n"

/-- Compiles one file and prints what the request asks for. -/
def Request.runFile (request : Request) (layout : Layout) (color : Bool) (path : String)
    (contents : ByteArray) : Run :=
  match String.fromUTF8? contents with
  | none => .failure (unreadable path color)
  | some text =>
    let source := Source.ofFile path text
    let outcome := compile source layout request.options
    let stderr := outcome.reportText source color
    match outcome.result with
    | .error _ => .failure stderr
    | .ok compilation =>
      let ast := if request.dumpAst then dumpText color "AST" path compilation.program.text else ""
      let ir := if request.dumpIr then dumpText color "IR" path
        (compilation.builder.text (Coloring.terminal.apply color)) else ""
      ⟨0, ast ++ ir, stderr⟩

/-- Runs the command line where the regular files are those that `file?`
gives. -/
def runArguments (arguments : List String) (file? : String → Option ByteArray) (color : Bool) : Run :=
  let run : Except UsageError Run := do
    let request ← Request.ofArguments arguments
    if request.files.isEmpty then throw .noFiles
    let files ← request.files.mapM fun path =>
      match file? path with
      | some contents => pure (path, contents)
      | none => throw (.missingFile path)
    let layout ← request.layout
    return files.foldl (fun done (path, contents) =>
      done.append (request.runFile layout color path contents)) .success
  match run with
  | .ok run => run
  | .error error => .usage error

/-- Whether to color: forced or forbidden from outside, otherwise only on a
terminal. -/
def wantsColor (force? forbid? allow? : Option String) (isTerminal : Bool) : Bool :=
  if force?.any (· ≠ "0") then true
  else if forbid?.isSome then false
  else allow?.all (· ≠ "0") && isTerminal

end Shading
