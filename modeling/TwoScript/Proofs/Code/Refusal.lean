import Mathlib.Data.List.Lex
import TwoScript.Compile
import TwoScript.Proofs.Parse.Placeholder

/-!
# Which trees have no code

Code is refused for placeholders of failed statements and for selections without arms.
A path leads from the statements of a program to a node for which code is generated, and
paths are ordered as the code is: a node comes before what is below it, and children
come one after the other. `generate_refuses_first` says that code is refused if and only
if some path leads to such a node, and that the reason is the first one.
-/

namespace TwoScript

/-! ## Nodes in the order of their code -/

/-- The nodes of arms: first those with a pattern, then the first one without. Later arms
without a pattern have no code. -/
def Arm.emitted (arms : List Arm) : List Node :=
  (arms.filter (·.pattern.isSome)).flatMap nodes ++
    (arms.find? (·.pattern.isNone)).toList.flatMap nodes

namespace Node

def emitted : Node → List Node
  | expr (.select _ subject arms) => .expr subject :: Arm.emitted arms
  | n => n.children

/-- Why there is no code for a node, whatever is below it. -/
def refusal? : Node → Option Refusal
  | expr (.select span _ []) => some (.emptySelection span)
  | statement (.failed span) => some (.failedStatement span)
  | _ => none

/-- The node at the end of a path, which says which child to take at each node. -/
def at? (n : Node) : List Nat → Option Node
  | [] => some n
  | i :: path => n.emitted[i]?.bind fun child => child.at? path

end Node

def nodeAt (ns : List Node) : List Nat → Option Node
  | [] => none
  | i :: path => ns[i]?.bind (·.at? path)

def FirstRefused (ns : List Node) (r : Refusal) : Prop :=
  ∃ path n, nodeAt ns path = some n ∧ n.refusal? = some r ∧
    ∀ earlier < path, ∀ m, nodeAt ns earlier = some m → m.refusal? = none

def NoneRefused (ns : List Node) : Prop :=
  ∀ path n, nodeAt ns path = some n → n.refusal? = none

/-! ## Paths -/

section

variable {a b : List Node} {n : Node} {i : Nat} {path : List Nat}

theorem nodeAt_append_left (inside : i < a.length) :
    nodeAt (a ++ b) (i :: path) = nodeAt a (i :: path) := by
  rw [nodeAt, nodeAt, List.getElem?_append_left inside]

theorem nodeAt_append_right :
    nodeAt (a ++ b) ((a.length + i) :: path) = nodeAt b (i :: path) := by
  rw [nodeAt, nodeAt, List.getElem?_append_right (by omega), Nat.add_sub_cancel_left]

theorem lt_length_of_nodeAt (h : nodeAt a (i :: path) = some n) : i < a.length := by
  obtain ⟨m, found, _⟩ := Option.bind_eq_some_iff.mp h
  exact (List.getElem?_eq_some_iff.mp found).1

/-- A path into two lists leads into one of them. -/
theorem nodeAt_append_cases {m : Node} (h : nodeAt (a ++ b) path = some m) :
    (∃ i rest, path = i :: rest ∧ i < a.length ∧ nodeAt a path = some m) ∨
      ∃ i rest, path = (a.length + i) :: rest ∧ nodeAt b (i :: rest) = some m := by
  cases path with
  | nil => cases h
  | cons i rest =>
      by_cases inside : i < a.length
      · rw [nodeAt_append_left inside] at h
        exact .inl ⟨i, rest, rfl, inside, h⟩
      · obtain ⟨j, rfl⟩ := Nat.exists_eq_add_of_le (Nat.le_of_not_lt inside)
        rw [nodeAt_append_right] at h
        exact .inr ⟨j, rest, rfl, h⟩

/-- A path that begins with a single node leads to it or to a node below. -/
theorem nodeAt_singleton_cases {m : Node} (h : nodeAt [n] path = some m) :
    (path = [0] ∧ m = n) ∨ ∃ i rest, path = 0 :: i :: rest ∧
      nodeAt n.emitted (i :: rest) = some m := by
  cases path with
  | nil => cases h
  | cons j path =>
      have inside := lt_length_of_nodeAt h
      obtain rfl : j = 0 := by simpa using inside
      cases path with
      | nil => exact .inl ⟨rfl, (Option.some.inj h).symm⟩
      | cons i rest => exact .inr ⟨i, rest, rfl, h⟩

/-! ## The first reason -/

theorem FirstRefused.append {r : Refusal} (h : FirstRefused a r) (b : List Node) :
    FirstRefused (a ++ b) r := by
  obtain ⟨path, n, found, refused, first⟩ := h
  cases path with
  | nil => cases found
  | cons i rest =>
      have inside := lt_length_of_nodeAt found
      refine ⟨i :: rest, n, by rw [nodeAt_append_left inside, found], refused, ?_⟩
      intro earlier before m leads
      rcases nodeAt_append_cases leads with ⟨j, rest', rfl, _, within⟩ | ⟨j, rest', rfl, _⟩
      · exact first _ before m within
      · -- A path into the second list comes behind every path into the first.
        rw [List.cons_lt_cons_iff] at before
        omega

theorem FirstRefused.behind {r : Refusal} (clear : NoneRefused a) (h : FirstRefused b r) :
    FirstRefused (a ++ b) r := by
  obtain ⟨path, n, found, refused, first⟩ := h
  cases path with
  | nil => cases found
  | cons i rest =>
      refine ⟨(a.length + i) :: rest, n, by rw [nodeAt_append_right, found], refused, ?_⟩
      intro earlier before m leads
      rcases nodeAt_append_cases leads with ⟨_, _, _, _, within⟩ | ⟨j, rest', rfl, within⟩
      · exact clear _ m within
      · refine first _ ?_ m within
        rw [List.cons_lt_cons_iff] at before ⊢
        exact before.imp (fun less => by omega) fun same => ⟨by omega, same.2⟩

theorem NoneRefused.append (left : NoneRefused a) (right : NoneRefused b) :
    NoneRefused (a ++ b) := by
  intro path m leads
  rcases nodeAt_append_cases leads with ⟨_, _, _, _, within⟩ | ⟨_, _, _, within⟩
  · exact left _ m within
  · exact right _ m within

theorem FirstRefused.root {r : Refusal} (h : n.refusal? = some r) : FirstRefused [n] r := by
  refine ⟨[0], n, rfl, h, ?_⟩
  intro earlier before m leads
  rcases nodeAt_singleton_cases leads with ⟨rfl, _⟩ | ⟨i, rest, rfl, _⟩
  · exact absurd before (List.lt_irrefl _)
  · rw [List.cons_lt_cons_iff] at before
    simp at before

theorem FirstRefused.below {r : Refusal} (clear : n.refusal? = none)
    (h : FirstRefused n.emitted r) : FirstRefused [n] r := by
  obtain ⟨path, k, found, refused, first⟩ := h
  cases path with
  | nil => cases found
  | cons i rest =>
      refine ⟨0 :: i :: rest, k, found, refused, ?_⟩
      intro earlier before m leads
      rcases nodeAt_singleton_cases leads with ⟨rfl, rfl⟩ | ⟨j, rest', rfl, within⟩
      · exact clear
      · refine first _ ?_ m within
        rw [List.cons_lt_cons_iff] at before
        simpa using before

theorem NoneRefused.below (clear : n.refusal? = none) (h : NoneRefused n.emitted) :
    NoneRefused [n] := by
  intro path m leads
  rcases nodeAt_singleton_cases leads with ⟨_, rfl⟩ | ⟨_, _, _, within⟩
  · exact clear
  · exact h _ m within

/-- Nodes without a reason have no first one. -/
theorem NoneRefused.not_first {r : Refusal} (clear : NoneRefused a) : ¬FirstRefused a r := by
  rintro ⟨path, n, found, refused, _⟩
  rw [clear path n found] at refused
  cases refused

theorem FirstRefused.unique {r r' : Refusal} (h : FirstRefused a r) (h' : FirstRefused a r') :
    r = r' := by
  obtain ⟨path, n, found, refused, first⟩ := h
  obtain ⟨path', n', found', refused', first'⟩ := h'
  rcases lt_trichotomy path path' with before | rfl | behind
  · rw [first' path before n found] at refused
    cases refused
  · obtain rfl := Option.some.inj (found.symm.trans found')
    exact Option.some.inj (refused.symm.trans refused')
  · rw [first path' behind n' found'] at refused'
    cases refused'

end

/-! ## What is met while code is generated -/

/-- The visits name the first reason of the nodes, or none of them has one. -/
def Settles (ns : List Node) (vs : List Visit) : Prop :=
  match refusal? vs with
  | some r => FirstRefused ns r
  | none => NoneRefused ns

namespace Settles

variable {a b : List Node} {n : Node} {vs ws : List Visit}

theorem nil : Settles [] [] := by
  intro path n leads
  cases path <;> cases leads

theorem append (left : Settles a vs) (right : Settles b ws) : Settles (a ++ b) (vs ++ ws) := by
  unfold Settles refusal? at *
  rw [List.findSome?_append]
  cases first : vs.findSome? Visit.refusal? with
  | some r =>
      rw [first] at left
      exact left.append b
  | none =>
      rw [first] at left
      cases second : ws.findSome? Visit.refusal? with
      | some r =>
          rw [second] at right
          exact right.behind left
      | none =>
          rw [second] at right
          exact left.append right

/-- A node is met in front of what is below it. -/
theorem node (own : List Visit) (same : refusal? own = n.refusal?) (h : Settles n.emitted vs) :
    Settles [n] (own ++ vs) := by
  unfold Settles refusal? at *
  rw [List.findSome?_append, same]
  cases root : n.refusal? with
  | some r => exact FirstRefused.root root
  | none =>
      cases below : vs.findSome? Visit.refusal? with
      | some r =>
          rw [below] at h
          exact h.below root
      | none =>
          rw [below] at h
          exact h.below root

theorem plain (clear : n.refusal? = none) (h : Settles n.emitted vs) : Settles [n] vs :=
  node [] clear.symm h

theorem refusal_iff (h : Settles a vs) {r : Refusal} :
    refusal? vs = some r ↔ FirstRefused a r := by
  unfold Settles at h
  cases found : refusal? vs with
  | some r' =>
      rw [found] at h
      exact ⟨fun same => Option.some.inj same ▸ h, fun first => congrArg some (h.unique first)⟩
  | none =>
      rw [found] at h
      exact ⟨nofun, fun first => (h.not_first first).elim⟩

theorem exists_refusal_iff (h : Settles a vs) : (∃ r, refusal? vs = some r) ↔
    ∃ path n, nodeAt a path = some n ∧ n.refusal?.isSome = true := by
  constructor
  · rintro ⟨r, found⟩
    obtain ⟨path, n, leads, refused, _⟩ := h.refusal_iff.mp found
    exact ⟨path, n, leads, by rw [refused]; rfl⟩
  · rintro ⟨path, n, leads, refused⟩
    unfold Settles at h
    cases found : refusal? vs with
    | some r => exact ⟨r, rfl⟩
    | none =>
        rw [found] at h
        rw [h path n leads] at refused
        cases refused

end Settles

mutual

theorem Expr.settles : ∀ e : Expr, Settles [.expr e] e.visits
  | .literal _ _ | .ident _ _ => .plain rfl .nil
  | .assign _ _ left right | .binary _ _ left right =>
    .plain rfl ((Expr.settles left).append (Expr.settles right))
  | .unary _ _ inner | .group _ inner | .member _ inner _ | .await _ inner =>
    .plain rfl (Expr.settles inner)
  | .call _ callee args => .plain rfl ((Expr.settles callee).append (argsSettle args))
  | .select s subject arms => by
    have own : refusal? [.selection s arms.length] =
        (Node.expr (.select s subject arms)).refusal? := by cases arms <;> rfl
    have below := (Expr.settles subject).append
      ((valueArmsSettle arms).append (defaultArmSettles arms))
    have whole := Settles.node [.selection s arms.length] own below
    rwa [← List.append_assoc, ← List.append_assoc] at whole
  | .template _ parts => .plain rfl (partsSettle parts)

theorem argsSettle : ∀ args : List Expr, Settles (args.map .expr) (argsVisits args)
  | [] => .nil
  | e :: es => (Expr.settles e).append (argsSettle es)

theorem valueArmsSettle : ∀ arms : List Arm,
    Settles ((arms.filter (·.pattern.isSome)).flatMap Arm.nodes) (valueArmsVisits arms)
  | [] => .nil
  | ⟨none, _⟩ :: arms => valueArmsSettle arms
  | ⟨some pattern, body⟩ :: arms =>
    ((Expr.settles pattern).append (Statement.settles body)).append (valueArmsSettle arms)

theorem defaultArmSettles : ∀ arms : List Arm,
    Settles ((arms.find? (·.pattern.isNone)).toList.flatMap Arm.nodes) (defaultArmVisits arms)
  | [] => .nil
  | ⟨none, body⟩ :: _ => Statement.settles body
  | ⟨some _, _⟩ :: arms => defaultArmSettles arms

theorem partsSettle : ∀ parts : List Part, Settles (parts.flatMap Part.nodes) (partsVisits parts)
  | [] => .nil
  | .text _ :: parts => partsSettle parts
  | .expr e :: parts => (Expr.settles e).append (partsSettle parts)

theorem Statement.settles : ∀ s : Statement, Settles [.statement s] s.visits
  | .function _ routine => .plain rfl (Routine.settles routine)
  | .classDecl _ _ methods => .plain rfl (routinesSettle methods)
  | .declare _ _ _ _ none | .returning _ none => .plain rfl .nil
  | .declare _ _ _ _ (some value) | .returning _ (some value) => .plain rfl (Expr.settles value)
  | .conditional _ condition body none => by
    have below := (Expr.settles condition).append (bodySettles body)
    refine .plain rfl ?_
    simpa [Node.emitted, Node.children, Statement.children, Statement.visits] using below
  | .conditional _ condition body (some otherwise) =>
    .plain rfl (((Expr.settles condition).append (bodySettles body)).append
      (Statement.settles otherwise))
  | .attempt _ body handler cleanup =>
    .plain rfl (((bodySettles body).append (handlerSettles handler)).append
      (cleanupSettles cleanup))
  | .block _ body => .plain rfl (bodySettles body)
  | .expression _ value => .plain rfl (Expr.settles value)
  | .failed s => .node [.failed s] rfl .nil

theorem bodySettles : ∀ body : List Statement, Settles (body.map .statement) (bodyVisits body)
  | [] => .nil
  | s :: ss => (Statement.settles s).append (bodySettles ss)

theorem handlerSettles : ∀ handler : Option Handler,
    Settles ((handler.toList.flatMap Handler.body).map .statement) (handlerVisits handler)
  | none => .nil
  | some ⟨_, body⟩ => by simpa [handlerVisits] using bodySettles body

theorem cleanupSettles : ∀ cleanup : Option (List Statement),
    Settles ((cleanup.getD []).map .statement) (cleanupVisits cleanup)
  | none => .nil
  | some body => bodySettles body

theorem Routine.settles : ∀ r : Routine, Settles r.nodes r.visits
  | ⟨_, params, _, body, _⟩ => (paramsSettle params).append (bodySettles body)

theorem routinesSettle : ∀ rs : List Routine,
    Settles (rs.flatMap Routine.nodes) (routinesVisits rs)
  | [] => .nil
  | r :: rs => (Routine.settles r).append (routinesSettle rs)

theorem paramsSettle : ∀ params : List Parameter,
    Settles ((params.filterMap Parameter.default).map .expr) (paramsVisits params)
  | [] => .nil
  | ⟨_, _, none⟩ :: params => paramsSettle params
  | ⟨_, _, some value⟩ :: params => (Expr.settles value).append (paramsSettle params)

end

/-! ## Generated code -/

theorem generate_error_iff {o : Options} {ss : List Statement} {r : Refusal} :
    generate o ss = .error r ↔ refusal? (bodyVisits ss) = some r := by
  rw [generate]
  cases refusal? (bodyVisits ss) <;> simp

theorem compile_refused_iff {options : Options} {source : String} {r : Refusal} :
    compile options source = .error (.refused r) ↔
      (parse source).errors = [] ∧
        FirstRefused ((parse source).statements.map .statement) r := by
  rw [← (bodySettles _).refusal_iff, ← generate_error_iff (o := options), compile]
  by_cases ok : (parse source).isOk = true
  · have none : (parse source).errors = [] := List.isEmpty_iff.mp ok
    simp only [ok, if_true, none, true_and]
    cases generate options (parse source).statements <;> simp
  · have some : (parse source).errors ≠ [] := fun none => ok (List.isEmpty_iff.mpr none)
    simp [ok, some]

/-- A program without errors has no placeholders. -/
theorem every_unbroken_of_parse {source : String} (ok : (parse source).errors = []) :
    ∀ s ∈ (parse source).statements, s.Every unbroken := by
  intro s hs
  obtain ⟨ps, run, program⟩ := program_steps (tokenize source)
  rw [parse, program] at ok hs
  obtain ⟨p, member, rfl⟩ := List.mem_map.mp hs
  obtain ⟨c₁, c₂, _, read, _⟩ :=
    run.exists_step (Grammar.progresses_ofRoom maxNesting) member
  have none : p.error = none := List.filterMap_eq_nil_iff.mp ok p member
  rw [none] at read
  exact read.every_of_none

namespace Node

theorem emitted_subset {n m : Node} (h : m ∈ n.emitted) : m ∈ n.children := by
  unfold emitted at h
  split at h
  · rename_i subject arms
    rcases List.mem_cons.mp h with rfl | inside
    · exact List.mem_cons_self
    · refine List.mem_cons_of_mem _ (List.mem_flatMap.mpr ?_)
      rcases List.mem_append.mp inside with value | default
      · obtain ⟨a, ha, within⟩ := List.mem_flatMap.mp value
        exact ⟨a, List.mem_of_mem_filter ha, within⟩
      · obtain ⟨a, ha, within⟩ := List.mem_flatMap.mp default
        exact ⟨a, List.mem_of_find?_eq_some (Option.mem_toList.mp ha), within⟩
  · exact h

theorem Below.of_child {n m k : Node} (child : m ∈ n.children) (below : m.Below k) :
    n.Below k := by
  induction below with
  | child last => exact .deeper (.child child) last
  | deeper _ last ih => exact .deeper ih last

/-- A path stays inside the tree. -/
theorem eq_or_below_of_at? {n m : Node} {path : List Nat} (h : n.at? path = some m) :
    m = n ∨ n.Below m := by
  induction path generalizing n with
  | nil => exact .inl (Option.some.inj h).symm
  | cons i path ih =>
      obtain ⟨child, found, leads⟩ := Option.bind_eq_some_iff.mp h
      have member := emitted_subset (List.mem_of_getElem? found)
      rcases ih leads with rfl | below
      · exact .inr (.child member)
      · exact .inr (.of_child member below)

end Node

/-- If a program without errors has no code, then for a selection without arms. -/
theorem FirstRefused.emptySelection {source : String} {r : Refusal}
    (ok : (parse source).errors = [])
    (h : FirstRefused ((parse source).statements.map .statement) r) :
    ∃ s ∈ (parse source).statements, ∃ span subject,
      (Node.statement s).Below (.expr (.select span subject [])) ∧ r = .emptySelection span := by
  obtain ⟨path, n, leads, refused, _⟩ := h
  cases path with
  | nil => cases leads
  | cons i path =>
      obtain ⟨root, found, leads⟩ := Option.bind_eq_some_iff.mp leads
      obtain ⟨s, member, rfl⟩ := List.mem_map.mp (List.mem_of_getElem? found)
      have every : (Node.statement s).Every unbroken := every_unbroken_of_parse ok s member
      have inside := Node.eq_or_below_of_at? leads
      have read : n.isFailed = false := by
        rcases inside with rfl | below
        · exact every.isFailed_eq
        · exact (every.below unbroken_bare below).isFailed_eq
      unfold Node.refusal? at refused
      split at refused
      · rename_i span subject _
        have below := inside.resolve_left nofun
        exact ⟨s, member, span, subject, below, (Option.some.inj refused).symm⟩
      · cases read
      · cases refused

/-- Code is refused for a tree if and only if a path leads to a placeholder or to a
selection without arms, and the reason is that of the first such node. A source is
refused code only if it was read without errors, for a selection without arms in it. -/
theorem generate_refuses_first :
    (∀ (options : Options) (ss : List Statement) (r : Refusal),
      generate options ss = .error r ↔ FirstRefused (ss.map .statement) r) ∧
    (∀ (options : Options) (ss : List Statement), (∃ r, generate options ss = .error r) ↔
      ∃ path n, nodeAt (ss.map .statement) path = some n ∧ n.refusal?.isSome = true) ∧
    ∀ (options : Options) (source : String) (r : Refusal),
      compile options source = .error (.refused r) ↔
        (parse source).errors = [] ∧
        FirstRefused ((parse source).statements.map .statement) r ∧
        ∃ s ∈ (parse source).statements, ∃ span subject,
          (Node.statement s).Below (.expr (.select span subject [])) ∧
            r = .emptySelection span := by
  refine ⟨fun options ss r => ?_, fun options ss => ?_, fun options source r => ?_⟩
  · rw [generate_error_iff, (bodySettles ss).refusal_iff]
  · simp only [generate_error_iff]
    exact (bodySettles ss).exists_refusal_iff
  · rw [compile_refused_iff]
    exact ⟨fun ⟨ok, first⟩ => ⟨ok, first, first.emptySelection ok⟩,
      fun ⟨ok, first, _⟩ => ⟨ok, first⟩⟩

/-- An arm with a pattern is refused before the arm without one that stands in front of it. -/
example (s t u : Span) (options : Options) :
    generate options [.expression s (.select s (.literal s .null)
      [⟨none, .failed t⟩, ⟨some (.literal s .null), .failed u⟩])] =
      .error (.failedStatement u) := rfl

end TwoScript
