import TwoScript.Tree.Basic

/-!
# What code generation meets

Code is generated for the nodes of a tree in a fixed order: mostly that of the text,
except that the arms of a selection with a pattern come before the first one without,
and later arms without a pattern are never reached. `visits` lists the nodes in that
order that matter beyond their text: selections, which take a temporary each, and
placeholders of failed statements, which have no code.
-/

namespace TwoScript

/-- A node that is met while code is generated. -/
inductive Visit where
  | selection (span : Span) (arms : Nat)
  | failed (span : Span)
deriving DecidableEq, Repr

inductive Refusal where
  | failedStatement (span : Span)
  | emptySelection (span : Span)
deriving DecidableEq, Repr

namespace Refusal

def span : Refusal → Span
  | failedStatement s | emptySelection s => s

/-- What a message calls the node. -/
def subject : Refusal → String
  | failedStatement _ => "a statement that failed to parse"
  | emptySelection _ => "a match expression with no cases"

def message (r : Refusal) : String :=
  "code generation error: cannot generate code for " ++ r.subject ++ " on line "
    ++ toString r.span.line

end Refusal

namespace Visit

def isSelection : Visit → Bool
  | selection _ _ => true
  | failed _ => false

def refusal? : Visit → Option Refusal
  | selection s 0 => some (.emptySelection s)
  | selection _ (_ + 1) => none
  | failed s => some (.failedStatement s)

end Visit

mutual

def Expr.visits : Expr → List Visit
  | .literal _ _ | .ident _ _ => []
  | .assign _ _ target value => target.visits ++ value.visits
  | .binary _ _ left right => left.visits ++ right.visits
  | .unary _ _ operand => operand.visits
  | .group _ inner => inner.visits
  | .call _ callee args => callee.visits ++ argsVisits args
  | .member _ object _ => object.visits
  | .await _ operand => operand.visits
  | .select s subject arms =>
    .selection s arms.length :: subject.visits ++ valueArmsVisits arms
      ++ defaultArmVisits arms
  | .template _ parts => partsVisits parts

def argsVisits : List Expr → List Visit
  | [] => []
  | e :: es => e.visits ++ argsVisits es

def valueArmsVisits : List Arm → List Visit
  | [] => []
  | ⟨none, _⟩ :: arms => valueArmsVisits arms
  | ⟨some pattern, body⟩ :: arms => pattern.visits ++ body.visits ++ valueArmsVisits arms

/-- The nodes met in the first arm without a pattern. -/
def defaultArmVisits : List Arm → List Visit
  | [] => []
  | ⟨none, body⟩ :: _ => body.visits
  | ⟨some _, _⟩ :: arms => defaultArmVisits arms

def partsVisits : List Part → List Visit
  | [] => []
  | .text _ :: parts => partsVisits parts
  | .expr e :: parts => e.visits ++ partsVisits parts

def Statement.visits : Statement → List Visit
  | .function _ routine => routine.visits
  | .classDecl _ _ methods => routinesVisits methods
  | .declare _ _ _ _ none => []
  | .declare _ _ _ _ (some initial) => initial.visits
  | .conditional _ condition body none => condition.visits ++ bodyVisits body
  | .conditional _ condition body (some otherwise) =>
    condition.visits ++ bodyVisits body ++ otherwise.visits
  | .attempt _ body handler cleanup =>
    bodyVisits body ++ handlerVisits handler ++ cleanupVisits cleanup
  | .returning _ none => []
  | .returning _ (some value) => value.visits
  | .block _ body => bodyVisits body
  | .expression _ value => value.visits
  | .failed s => [.failed s]

def bodyVisits : List Statement → List Visit
  | [] => []
  | s :: ss => s.visits ++ bodyVisits ss

def handlerVisits : Option Handler → List Visit
  | none => []
  | some ⟨_, body⟩ => bodyVisits body

def cleanupVisits : Option (List Statement) → List Visit
  | none => []
  | some body => bodyVisits body

def Routine.visits : Routine → List Visit
  | ⟨_, params, _, body, _⟩ => paramsVisits params ++ bodyVisits body

def routinesVisits : List Routine → List Visit
  | [] => []
  | r :: rs => r.visits ++ routinesVisits rs

def paramsVisits : List Parameter → List Visit
  | [] => []
  | ⟨_, _, none⟩ :: params => paramsVisits params
  | ⟨_, _, some value⟩ :: params => value.visits ++ paramsVisits params

end

/-- The number of temporaries that nodes take. -/
def temporaries (visits : List Visit) : Nat :=
  visits.countP Visit.isSelection

/-- Why code is refused for nodes: the reason of the first that has none. -/
def refusal? (visits : List Visit) : Option Refusal :=
  visits.findSome? Visit.refusal?

@[simp] theorem temporaries_nil : temporaries [] = 0 := rfl

@[simp] theorem temporaries_append (a b : List Visit) :
    temporaries (a ++ b) = temporaries a + temporaries b := by
  simp [temporaries]

end TwoScript
