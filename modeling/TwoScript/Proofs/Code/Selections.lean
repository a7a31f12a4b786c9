import TwoScript.Code.Visit

/-!
# Selections in the order of code

The selections of a tree in the order in which code for them is generated, each with its
arms. Every selection takes one temporary, so the number of a selection in this order is the
number of its temporary.
-/

namespace TwoScript

mutual

def Expr.selections : Expr → List (List Arm)
  | .literal _ _ | .ident _ _ => []
  | .assign _ _ target value => target.selections ++ value.selections
  | .binary _ _ left right => left.selections ++ right.selections
  | .unary _ _ operand => operand.selections
  | .group _ inner => inner.selections
  | .call _ callee args => callee.selections ++ argsSelections args
  | .member _ object _ => object.selections
  | .await _ operand => operand.selections
  | .select _ subject arms =>
    arms :: subject.selections ++ valueArmsSelections arms ++ defaultArmSelections arms
  | .template _ parts => partsSelections parts

def argsSelections : List Expr → List (List Arm)
  | [] => []
  | e :: es => e.selections ++ argsSelections es

def valueArmsSelections : List Arm → List (List Arm)
  | [] => []
  | ⟨none, _⟩ :: arms => valueArmsSelections arms
  | ⟨some pattern, body⟩ :: arms =>
    pattern.selections ++ body.selections ++ valueArmsSelections arms

def defaultArmSelections : List Arm → List (List Arm)
  | [] => []
  | ⟨none, body⟩ :: _ => body.selections
  | ⟨some _, _⟩ :: arms => defaultArmSelections arms

def partsSelections : List Part → List (List Arm)
  | [] => []
  | .text _ :: parts => partsSelections parts
  | .expr e :: parts => e.selections ++ partsSelections parts

def Statement.selections : Statement → List (List Arm)
  | .function _ routine => routine.selections
  | .classDecl _ _ methods => routinesSelections methods
  | .declare _ _ _ _ none => []
  | .declare _ _ _ _ (some initial) => initial.selections
  | .conditional _ condition body none => condition.selections ++ bodySelections body
  | .conditional _ condition body (some otherwise) =>
    condition.selections ++ bodySelections body ++ otherwise.selections
  | .attempt _ body handler cleanup =>
    bodySelections body ++ handlerSelections handler ++ cleanupSelections cleanup
  | .returning _ none => []
  | .returning _ (some value) => value.selections
  | .block _ body => bodySelections body
  | .expression _ value => value.selections
  | .failed _ => []

def bodySelections : List Statement → List (List Arm)
  | [] => []
  | s :: ss => s.selections ++ bodySelections ss

def handlerSelections : Option Handler → List (List Arm)
  | none => []
  | some ⟨_, body⟩ => bodySelections body

def cleanupSelections : Option (List Statement) → List (List Arm)
  | none => []
  | some body => bodySelections body

def Routine.selections : Routine → List (List Arm)
  | ⟨_, params, _, body, _⟩ => paramsSelections params ++ bodySelections body

def routinesSelections : List Routine → List (List Arm)
  | [] => []
  | r :: rs => r.selections ++ routinesSelections rs

def paramsSelections : List Parameter → List (List Arm)
  | [] => []
  | ⟨_, _, none⟩ :: params => paramsSelections params
  | ⟨_, _, some value⟩ :: params => value.selections ++ paramsSelections params

end

/-! ## Temporaries -/

theorem temporaries_selection (s : Span) (arms : Nat) (visits : List Visit) :
    temporaries (.selection s arms :: visits) = temporaries visits + 1 := by
  rw [temporaries, List.countP_cons_of_pos rfl, temporaries]

mutual

theorem Expr.length_selections : ∀ e : Expr, e.selections.length = temporaries e.visits
  | .literal _ _ | .ident _ _ => rfl
  | .assign _ _ left right | .binary _ _ left right => by
    simp only [Expr.selections, Expr.visits, List.length_append, temporaries_append,
      Expr.length_selections left, Expr.length_selections right]
  | .unary _ _ operand | .group _ operand | .member _ operand _ | .await _ operand =>
    Expr.length_selections operand
  | .call _ callee args => by
    simp only [Expr.selections, Expr.visits, List.length_append, temporaries_append,
      Expr.length_selections callee, length_argsSelections args]
  | .select _ subject arms => by
    simp only [Expr.selections, Expr.visits, List.cons_append, List.length_cons, List.length_append,
      temporaries_selection, temporaries_append, Expr.length_selections subject,
      length_valueArmsSelections arms, length_defaultArmSelections arms]
  | .template _ parts => length_partsSelections parts

theorem length_argsSelections : ∀ args : List Expr,
    (argsSelections args).length = temporaries (argsVisits args)
  | [] => rfl
  | e :: es => by
    simp only [argsSelections, argsVisits, List.length_append, temporaries_append,
      Expr.length_selections e, length_argsSelections es]

theorem length_valueArmsSelections : ∀ arms : List Arm,
    (valueArmsSelections arms).length = temporaries (valueArmsVisits arms)
  | [] => rfl
  | ⟨none, _⟩ :: arms => length_valueArmsSelections arms
  | ⟨some pattern, body⟩ :: arms => by
    simp only [valueArmsSelections, valueArmsVisits, List.length_append, temporaries_append,
      Expr.length_selections pattern, Statement.length_selections body,
      length_valueArmsSelections arms]

theorem length_defaultArmSelections : ∀ arms : List Arm,
    (defaultArmSelections arms).length = temporaries (defaultArmVisits arms)
  | [] => rfl
  | ⟨none, body⟩ :: _ => Statement.length_selections body
  | ⟨some _, _⟩ :: arms => length_defaultArmSelections arms

theorem length_partsSelections : ∀ parts : List Part,
    (partsSelections parts).length = temporaries (partsVisits parts)
  | [] => rfl
  | .text _ :: parts => length_partsSelections parts
  | .expr e :: parts => by
    simp only [partsSelections, partsVisits, List.length_append, temporaries_append,
      Expr.length_selections e, length_partsSelections parts]

theorem Statement.length_selections : ∀ s : Statement,
    s.selections.length = temporaries s.visits
  | .function _ routine => Routine.length_selections routine
  | .classDecl _ _ methods => length_routinesSelections methods
  | .declare _ _ _ _ none | .returning _ none | .failed _ => rfl
  | .declare _ _ _ _ (some value) | .returning _ (some value) | .expression _ value =>
    Expr.length_selections value
  | .conditional _ condition body none => by
    simp only [Statement.selections, Statement.visits, List.length_append, temporaries_append,
      Expr.length_selections condition, length_bodySelections body]
  | .conditional _ condition body (some otherwise) => by
    simp only [Statement.selections, Statement.visits, List.length_append, temporaries_append,
      Expr.length_selections condition, length_bodySelections body,
      Statement.length_selections otherwise]
  | .attempt _ body handler cleanup => by
    simp only [Statement.selections, Statement.visits, List.length_append, temporaries_append,
      length_bodySelections body, length_handlerSelections handler,
      length_cleanupSelections cleanup]
  | .block _ body => length_bodySelections body

theorem length_bodySelections : ∀ body : List Statement,
    (bodySelections body).length = temporaries (bodyVisits body)
  | [] => rfl
  | s :: ss => by
    simp only [bodySelections, bodyVisits, List.length_append, temporaries_append,
      Statement.length_selections s, length_bodySelections ss]

theorem length_handlerSelections : ∀ handler : Option Handler,
    (handlerSelections handler).length = temporaries (handlerVisits handler)
  | none => rfl
  | some ⟨_, body⟩ => length_bodySelections body

theorem length_cleanupSelections : ∀ cleanup : Option (List Statement),
    (cleanupSelections cleanup).length = temporaries (cleanupVisits cleanup)
  | none => rfl
  | some body => length_bodySelections body

theorem Routine.length_selections : ∀ r : Routine, r.selections.length = temporaries r.visits
  | ⟨_, params, _, body, _⟩ => by
    simp only [Routine.selections, Routine.visits, List.length_append, temporaries_append,
      length_paramsSelections params, length_bodySelections body]

theorem length_routinesSelections : ∀ rs : List Routine,
    (routinesSelections rs).length = temporaries (routinesVisits rs)
  | [] => rfl
  | r :: rs => by
    simp only [routinesSelections, routinesVisits, List.length_append, temporaries_append,
      Routine.length_selections r, length_routinesSelections rs]

theorem length_paramsSelections : ∀ params : List Parameter,
    (paramsSelections params).length = temporaries (paramsVisits params)
  | [] => rfl
  | ⟨_, _, none⟩ :: params => length_paramsSelections params
  | ⟨_, _, some value⟩ :: params => by
    simp only [paramsSelections, paramsVisits, List.length_append, temporaries_append,
      Expr.length_selections value, length_paramsSelections params]

end

end TwoScript
