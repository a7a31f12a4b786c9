import TwoScript.Code.Generate
import TwoScript.Parse.Program

/-!
# Compiling

From source text to JavaScript text.
-/

namespace TwoScript

/-- Why a source text was not compiled: statements that could not be read, with all
their errors, or a tree that has no code. -/
inductive CompileError where
  | unreadable (errors : List ParseError)
  | refused (refusal : Refusal)
deriving DecidableEq, Repr

namespace CompileError

def message : CompileError → String
  | unreadable errors => toString errors.length ++ " syntax error(s)"
  | refused refusal => refusal.message

end CompileError

def compile (options : Options) (source : String) : Except CompileError String :=
  let program := parse source
  if program.isOk then
    match generate options program.statements with
    | .ok code => .ok code
    | .error refusal => .error (.refused refusal)
  else .error (.unreadable program.errors)

/-- A text that was compiled was read without errors and has code. -/
theorem compile_eq_ok {options : Options} {source code : String}
    (compiled : compile options source = .ok code) :
    (parse source).isOk = true ∧ generate options (parse source).statements = .ok code := by
  unfold compile at compiled
  simp only at compiled
  split at compiled
  · rename_i ok
    split at compiled
    · rename_i generated
      cases compiled
      exact ⟨ok, generated⟩
    · cases compiled
  · cases compiled

end TwoScript
