import TwoScript.Command.Arguments
import TwoScript.Command.Disk
import TwoScript.Compile
import TwoScript.Tree.Sexpr

/-!
# Running the command line

`execute` does what the arguments ask for. All that depends on the text of the input
is decided by `Settings.plan`; only reading the input and writing the output touch the
disk.
-/

namespace TwoScript

/-- The outcome of a run: the exit code and the lines for the two channels. -/
structure Report where
  code : Nat
  out : List String
  err : List String
deriving DecidableEq, Repr

namespace Report

def linesText (lines : List String) : String :=
  String.join (lines.map (· ++ "\n"))

def outText (r : Report) : String := linesText r.out

def errText (r : Report) : String := linesText r.err

def success (out : List String) : Report := ⟨0, out, []⟩

def failure (out err : List String) : Report := ⟨1, out, err⟩

end Report

/-! ## Listings -/

def padLeft (width : Nat) (s : String) : String :=
  String.ofList (List.replicate (width - s.length) ' ') ++ s

def padRight (width : Nat) (s : String) : String :=
  s ++ String.ofList (List.replicate (width - s.length) ' ')

def Token.row (t : Token) : String :=
  let script :=
    match lookup? t.text with
    | some (script, _) => script.name
    | none => ""
  padLeft 4 (toString t.span.line) ++ " " ++ padLeft 4 (toString t.span.start) ++ ".."
    ++ padRight 4 (toString t.span.stop) ++ " " ++ padRight 20 t.kind.name ++ " "
    ++ padRight 10 script ++ " " ++ quoteText t.text

def tokenListing (input source : String) : List String :=
  ("Tokens for " ++ input ++ ":") :: String.ofList (List.replicate 60 '-')
    :: (tokenize source).map Token.row

def errorListing (input : String) (errors : List ParseError) : List String :=
  errors.map (fun e => input ++ ":" ++ toString e.line ++ ": error: " ++ e.message)
    ++ [input ++ ": " ++ toString errors.length ++ " error(s); no output written"]

/-! ## Plans -/

/-- What is left to do once the input was read: to report, or to write code first. -/
inductive Plan where
  | report (report : Report)
  | write (path code : String)
deriving DecidableEq, Repr

namespace Settings

def announcement (s : Settings) (source : String) : List String :=
  if s.verbose then
    ["Compiling: " ++ s.input, "Source length: " ++ toString source.utf8ByteSize ++ " bytes"]
  else []

def outputPath (s : Settings) : String :=
  s.output.getD (withExtension s.input outputExtension)

def plan (s : Settings) (source : String) : Plan :=
  let intro := s.announcement source
  if s.tokens then .report (.success (intro ++ tokenListing s.input source))
  else
    let program := parse source
    if !program.isOk then
      .report (.failure intro (errorListing s.input program.errors))
    else if s.ast then
      .report (.success (intro ++ program.statements.map Statement.sexpr))
    else if s.check then
      .report (.success (intro ++
        [s.input ++ ": OK (" ++ toString program.statements.length ++ " statements)"]))
    else
      match generate s.options program.statements with
      | .error refusal =>
        .report (.failure intro [s.input ++ ": error: " ++ refusal.message])
      | .ok code => .write s.outputPath code

def unread (s : Settings) (e : DiskError) : Report :=
  .failure [] ["Error reading '" ++ s.input ++ "': " ++ e.message]

def unwritten (s : Settings) (source path : String) (e : DiskError) : Report :=
  .failure (s.announcement source) ["Error writing '" ++ path ++ "': " ++ e.message]

def written (s : Settings) (source path : String) : Report :=
  .success (s.announcement source ++
    if s.verbose then ["Backend: " ++ outputFormat, "Output: " ++ path] else [])

def run {m : Type → Type} [Monad m] (disk : Disk m) (s : Settings) : m Report := do
  match ← disk.read s.input with
  | .error e => return s.unread e
  | .ok source =>
    match s.plan source with
    | .report report => return report
    | .write path code =>
      match ← disk.write path code with
      | .error e => return s.unwritten source path e
      | .ok () => return s.written source path

end Settings

/-! ## Commands -/

def versionLine : String := "dvibhasha 0.1.0"

def helpLines : List String :=
  ["dvibhasha - compiles Devanagari or romanized source to JavaScript",
   "",
   "Usage: dvibhasha [OPTIONS] <FILE>",
   "",
   "Arguments:",
   "  <FILE>  Input source file",
   "",
   "Options:",
   "  -o, --output <FILE>  Output file (default: input name with .js extension)",
   "      --tokens         Only run lexer and print tokens (for debugging)",
   "      --ast            Only parse and print the syntax tree",
   "      --check          Check for syntax errors without writing output",
   "      --indent <N>     Spaces per indentation level in generated code [default: 4]",
   "      --strict         Emit a \"use strict\" prologue",
   "  -v, --verbose        Verbose output",
   "  -h, --help           Print help",
   "  -V, --version        Print version"]

def misuseReport : Report :=
  ⟨2, [], ["error: wrong arguments", "", "Usage: dvibhasha [OPTIONS] <FILE>", "",
    "For more information, try '--help'."]⟩

def execute {m : Type → Type} [Monad m] (disk : Disk m) (args : List String) : m Report :=
  match Request.ofArguments args with
  | .run settings => settings.run disk
  | .version => return .success [versionLine]
  | .help => return .success helpLines
  | .misuse => return misuseReport

/-- Runs the command line on files in memory. -/
def Files.execute (f : Files) (args : List String) : Report × Files :=
  (TwoScript.execute Files.disk args).run f

end TwoScript
