import TwoScript.Code.Generate
import TwoScript.Number.Decimal

/-!
# Command-line arguments

The program takes one input file and options. It only declares them: the arguments are
taken apart by an argument parser from outside, and `Request.ofArguments` follows the rules
that this parser documents. A flag may be given once; short flags may be bundled, and an
option's value may be attached to it or follow as the next argument, where it may not look
like a flag. Two dashes alone end the flags.
-/

namespace TwoScript

structure Settings where
  input : String
  output : Option String
  tokens : Bool
  ast : Bool
  check : Bool
  options : Options
  verbose : Bool
deriving DecidableEq, Repr

inductive Request where
  | run (settings : Settings)
  | version
  | help
  | misuse
deriving DecidableEq, Repr

inductive Flag where
  | tokens
  | ast
  | check
  | strict
  | verbose
deriving DecidableEq, Repr

inductive ValueOption where
  | output
  | indent
deriving DecidableEq, Repr

/-- The arguments read so far. -/
structure Draft where
  input : Option String := none
  output : Option String := none
  indent : Option Nat := none
  flags : List Flag := []
deriving DecidableEq, Repr

namespace Draft

/-- Takes a flag, which may be given once. -/
def setFlag (d : Draft) (flag : Flag) : Option Draft :=
  if d.flags.contains flag then none else some { d with flags := flag :: d.flags }

def setInput (d : Draft) (path : String) : Option Draft :=
  if path.isEmpty || d.input.isSome then none else some { d with input := some path }

/-- The natural number that a text writes, if it fits in 64 bits. A plus sign may stand
in front. -/
def width? (text : String) : Option Nat :=
  let digits :=
    match text.toList with
    | '+' :: rest => rest
    | cs => cs
  if !digits.isEmpty && digits.all isDigit && digitsValue digits < UInt64.size then
    some (digitsValue digits)
  else none

def setValue (d : Draft) (value : String) : ValueOption → Option Draft
  | .output =>
    if value.isEmpty || d.output.isSome then none else some { d with output := some value }
  | .indent =>
    if d.indent.isSome then none
    else (width? value).map fun n => { d with indent := some n }

/-- What complete arguments ask for. The input file is required. -/
def request (d : Draft) : Request :=
  match d.input with
  | none => .misuse
  | some input =>
    .run
      { input
        output := d.output
        tokens := d.flags.contains .tokens
        ast := d.flags.contains .ast
        check := d.flags.contains .check
        options := { indent := d.indent.getD 4, strict := d.flags.contains .strict }
        verbose := d.flags.contains .verbose }

end Draft

/-- The meaning of one argument: a request that ends the reading, more arguments to
read, an option whose value is the next argument, or the end of the flags. -/
inductive Reading where
  | ends (request : Request)
  | goesOn (draft : Draft)
  | wants (option : ValueOption) (draft : Draft)
  | endsFlags

namespace Reading

def ofDraft? : Option Draft → Reading
  | some d => goesOn d
  | none => ends .misuse

end Reading

def longFlag? : String → Option Flag
  | "tokens" => some .tokens
  | "ast" => some .ast
  | "check" => some .check
  | "strict" => some .strict
  | "verbose" => some .verbose
  | _ => none

def longOption? : String → Option ValueOption
  | "output" => some .output
  | "indent" => some .indent
  | _ => none

/-- Reads an argument behind its two dashes: a name, with a value behind an equals
sign or without. -/
def readLong (d : Draft) (cs : List Char) : Reading :=
  let name := String.ofList (cs.takeWhile (· != '='))
  match cs.dropWhile (· != '=') with
  | [] =>
    if name = "help" then .ends .help
    else if name = "version" then .ends .version
    else
      match longFlag? name, longOption? name with
      | some flag, _ => .ofDraft? (d.setFlag flag)
      | none, some option => .wants option d
      | none, none => .ends .misuse
  | _ :: value =>
    match longOption? name with
    | some option => .ofDraft? (d.setValue (String.ofList value) option)
    | none => .ends .misuse

/-- Reads an argument behind its single dash: bundled flags, of which the last may be an
option with its value. -/
def readShort (d : Draft) : List Char → Reading
  | [] => .goesOn d
  | 'v' :: cs =>
    match d.setFlag .verbose with
    | some d => readShort d cs
    | none => .ends .misuse
  | 'h' :: _ => .ends .help
  | 'V' :: _ => .ends .version
  | ['o'] => .wants .output d
  | 'o' :: '=' :: value => .ofDraft? (d.setValue (String.ofList value) .output)
  | 'o' :: value => .ofDraft? (d.setValue (String.ofList value) .output)
  | _ => .ends .misuse

/-- Whether an argument looks like a flag. A dash alone does not. -/
def looksLikeFlag (arg : String) : Bool :=
  match arg.toList with
  | '-' :: _ :: _ => true
  | _ => false

def readArgument (d : Draft) (arg : String) : Reading :=
  match arg.toList with
  | ['-', '-'] => .endsFlags
  | '-' :: '-' :: cs => readLong d cs
  | '-' :: c :: cs => readShort d (c :: cs)
  | _ => .ofDraft? (d.setInput arg)

def readFiles (d : Draft) : List String → Request
  | [] => d.request
  | arg :: args =>
    match d.setInput arg with
    | some d => readFiles d args
    | none => .misuse

def readArguments (d : Draft) : List String → Request
  | [] => d.request
  | arg :: args =>
    match readArgument d arg with
    | .ends request => request
    | .goesOn d => readArguments d args
    | .endsFlags => readFiles d args
    | .wants option d =>
      match args with
      | [] => .misuse
      | value :: args =>
        if looksLikeFlag value then .misuse
        else
          match d.setValue value option with
          | some d => readArguments d args
          | none => .misuse

def Request.ofArguments (args : List String) : Request :=
  readArguments {} args

end TwoScript
