import TwoScript.Proofs.Parse.Passage

/-!
# Where every node was read

A tree says which statements and expressions were read, and a derivation says from which
cursor to which: the children of a node were read one behind the other between the cursors
of the node itself, and the expressions of a template from the tokens of its sources. Every
tree that a grammar reads has a derivation, so whatever is to be said about the place of a
node, at any depth, follows from the cursors at which it was read. A passage holds across
all that lies between the children of a node, and thus across the whole node.
-/

namespace TwoScript

open TwoScript.Parser

namespace Node

def span : Node → Span
  | expr e => e.span
  | statement s => s.span

def isTemplate : Node → Bool
  | expr (.template _ _) => true
  | _ => false

/-- Whether a node is a template or a name, both of which are a single token. -/
def isToken : Node → Bool
  | expr (.template _ _) | expr (.ident _ _) => true
  | _ => false

end Node

/-- Things that were read one behind the other, with a relation across what lies between. -/
inductive Laid {α : Type} (R : Cursor → Cursor → Prop) (read : α → Cursor → Cursor → Prop) :
    List α → Cursor → Cursor → Prop where
  | nil {c c' : Cursor} (gap : R c c') : Laid R read [] c c'
  | cons {a : α} {as : List α} {c c₁ c₂ c' : Cursor} (gap : R c c₁) (first : read a c₁ c₂)
      (rest : Laid R read as c₂ c') : Laid R read (a :: as) c c'

inductive PartsRead (read : Node → Cursor → Cursor → Prop) : List Segment → List Part → Prop where
  | nil : PartsRead read [] []
  | text {cs : List Char} {segments : List Segment} {parts : List Part}
      (rest : PartsRead read segments parts) :
      PartsRead read (.text cs :: segments) (.text (String.ofList cs) :: parts)
  | source {place : Place} {cs : List Char} {e : Expr} {c' : Cursor} {segments : List Segment}
      {parts : List Part} (inside : read (.expr e) (.ofTokens (tokensFrom place cs)) c')
      (ended : c'.ahead = []) (rest : PartsRead read segments parts) :
      PartsRead read (.source place cs :: segments) (.expr e :: parts)

inductive Node.Read (R : Cursor → Cursor → Prop) : Node → Cursor → Cursor → Prop where
  | ident {c : Cursor} (begins : c.peek.kind = .identifier) :
      Read R (.expr (.ident c.peek.span c.peek.text)) c c.next
  | template {c : Cursor} {parts : List Part} (begins : c.peek.kind = .template)
      (inside : PartsRead (Read R) c.templateSegments parts) :
      Read R (.expr (.template c.peek.span parts)) c c.next
  | node {n : Node} {c c' : Cursor} (plain : n.isToken = false) (advances : c.Advances c')
      (span : c.Ordered → n.span = c'.spanFrom c.span)
      (children : Laid R (Read R) n.children c c') : Read R n c c'

/-! ## Lists of nodes -/

namespace Laid

variable {R : Cursor → Cursor → Prop} {α : Type} {read : α → Cursor → Cursor → Prop}
  {as bs : List α} {a : α} {c c₁ c' : Cursor}

theorem single (passage : Passage R) (h : read a c c') : Laid R read [a] c c' :=
  .cons (passage.refl c) h (.nil (passage.refl c'))

theorem after (h : Laid R read as c₁ c') (passage : Passage R) (gap : R c c₁) :
    Laid R read as c c' := by
  cases h with
  | nil there => exact .nil (passage.trans gap there)
  | cons there first rest => exact .cons (passage.trans gap there) first rest

theorem before (h : Laid R read as c c₁) (passage : Passage R) (gap : R c₁ c') :
    Laid R read as c c' := by
  induction h with
  | nil there => exact .nil (passage.trans there gap)
  | cons there first _ ih => exact .cons there first (ih gap)

theorem append (left : Laid R read as c c₁) (passage : Passage R) (right : Laid R read bs c₁ c') :
    Laid R read (as ++ bs) c c' := by
  induction left with
  | nil gap => exact right.after passage gap
  | cons gap first _ ih => exact .cons gap first (ih right)

/-- Things between two marks. -/
theorem enclosed {opens closes : Kind} (h : Laid R read as c.next c₁) (passage : Passage R)
    (first : c.peek.kind = opens) (last : c₁.peek.kind = closes)
    (ordinary : opens.isOrdinary = true ∧ closes.isOrdinary = true) :
    Laid R read as c c₁.next :=
  (h.after passage (passage.token first ordinary.1)).before passage
    (passage.token last ordinary.2)

theorem reaches (h : Laid Cursor.Reaches read as c c')
    (further : ∀ a c c', read a c c' → c.Advances c') : c.Reaches c' := by
  induction h with
  | nil gap => exact gap
  | cons gap first _ ih => exact gap.trans ((further _ _ _ first).reaches.trans ih)

theorem mem (h : Laid Cursor.Reaches read as c c')
    (further : ∀ a c c', read a c c' → c.Advances c') (member : a ∈ as) :
    ∃ c₁ c₂, c.Reaches c₁ ∧ read a c₁ c₂ ∧ c₂.Reaches c' := by
  induction h with
  | nil => cases member
  | cons gap first rest ih =>
      rcases List.mem_cons.mp member with rfl | later
      · exact ⟨_, _, gap, first, rest.reaches further⟩
      · obtain ⟨c₁, c₂, there, found, behind⟩ := ih later
        exact ⟨c₁, c₂, gap.trans ((further _ _ _ first).reaches.trans there), found, behind⟩

end Laid

abbrev Node.RowRead (R : Cursor → Cursor → Prop) : List Node → Cursor → Cursor → Prop :=
  Laid R (Node.Read R)

namespace Passage

variable {R : Cursor → Cursor → Prop} {α : Type} {nodes : α → List Node} {c c' : Cursor}
  {as : List α}

/-- What every step of a loop reads, one behind the other. -/
theorem many (passage : Passage R) {step : Parser (Option α)}
    (more : ∀ {c c' a}, step c = .ok (some a) c' →
      c.Advances c' ∧ Node.RowRead R (nodes a) c c')
    (stops : ∀ {c c'}, step c = .ok none c' → R c c') (h : many step c = .ok as c') :
    Node.RowRead R (as.flatMap nodes) c c' := by
  have loop := repeats_of_many_ok (fun _ => True)
    (fun _ _ _ _ run => ⟨trivial, (more run).1.length_lt⟩) trivial h
  induction loop with
  | nil stop => exact .nil (stops stop)
  | cons first _ rest ih => exact (more first).2.append passage (ih rest.many_ok)

theorem items (passage : Passage R) {item : Parser α}
    (reads : ∀ {c c' a}, item c = .ok a c' → c.Advances c' ∧ Node.RowRead R (nodes a) c c')
    (h : items item c = .ok as c') : Node.RowRead R (as.flatMap nodes) c c' := by
  refine passage.many (fun {c c' a} run => ?_) (fun {c c'} run => ?_) h
  · rcases itemBeforeBrace_ok.mp run with ⟨_, none, _⟩ | ⟨_, _, b, read, same⟩
    · cases none
    · cases same
      exact reads read
  · rcases itemBeforeBrace_ok.mp run with ⟨_, _, rfl⟩ | ⟨_, _, b, _, same⟩
    · exact passage.refl c
    · cases same

theorem option (passage : Passage R) {kind : Kind} {item : Parser α} {r : Option α}
    (ordinary : kind.isOrdinary = true)
    (reads : ∀ {c c' a}, item c = .ok a c' → Node.RowRead R (nodes a) c c')
    (h : Parser.optionally kind item c = .ok r c') :
    Node.RowRead R (r.toList.flatMap nodes) c c' := by
  rcases optionally_ok.mp h with ⟨mark, a, read, rfl⟩ | ⟨_, rfl, rfl⟩
  · rw [Option.toList_some, List.flatMap_singleton]
    exact (reads read).after passage (passage.token mark ordinary)
  · exact .nil (passage.refl c)

theorem separated (passage : Passage R) {close : Kind} {item : Parser α}
    (reads : ∀ {c c' a}, item c = .ok a c' → c.Advances c' ∧ Node.RowRead R (nodes a) c c')
    (h : separated close item c = .ok as c') : Node.RowRead R (as.flatMap nodes) c c' := by
  rcases separated_ok.mp h with ⟨_, rfl, rfl⟩ | ⟨_, first, c₁, read, rest, others, rfl⟩
  · exact .nil (passage.refl c)
  · rw [List.flatMap_cons]
    refine (reads read).2.append passage
      (passage.many (fun {c c' a} run => ?_) (fun {c c'} run => ?_) others)
    · rcases optionally_ok.mp run with ⟨comma, b, read, same⟩ | ⟨_, none, _⟩
      · cases same
        have mark := Cursor.advances_next comma (by decide)
        exact ⟨mark.trans (reads read).1.reaches,
          (reads read).2.after passage (passage.token comma rfl)⟩
      · cases none
    · rcases optionally_ok.mp run with ⟨_, b, _, same⟩ | ⟨_, _, rfl⟩
      · cases same
      · exact passage.refl c

end Passage

/-! ## Single nodes -/

namespace Node.Read

variable {R : Cursor → Cursor → Prop} {n m : Node} {e : Expr} {s : Statement} {c c' : Cursor}

theorem advances (h : n.Read R c c') : c.Advances c' := by
  cases h with
  | ident begins => exact Cursor.advances_next begins (by decide)
  | template begins _ => exact Cursor.advances_next begins (by decide)
  | node _ further _ _ => exact further

theorem span_eq (h : n.Read R c c') (ordered : c.Ordered) : n.span = c'.spanFrom c.span := by
  have further := h.advances
  cases h with
  | ident => exact (ordered.spanFrom_next further).symm
  | template => exact (ordered.spanFrom_next further).symm
  | node _ _ span _ => exact span ordered

theorem of_covers (covers : e.Covers c c') (plain : (Node.expr e).isToken = false)
    (children : RowRead R e.children c c') : (Node.expr e).Read R c c' :=
  .node plain covers.advances covers.span children

theorem of_statement (covers : s.Covers c c') (children : RowRead R s.children c c') :
    (Node.statement s).Read R c c' :=
  .node rfl covers.advances (fun _ => covers.span) children

/-- The parentheses around an expression were read around it. -/
theorem ungrouped (h : (Node.expr e).Read R c c') (passage : Passage R) :
    RowRead R [.expr e.ungrouped] c c' := by
  cases e with
  | group s inner =>
      cases h with
      | node _ _ _ children => exact children
  | _ => exact .single passage h

end Node.Read

/-! ## Passages across nodes -/

-- Gaps and single tokens are what a passage holds across, and the rest is put together of them.
mutual

theorem Node.Read.passes {R : Cursor → Cursor → Prop} (passage : Passage R) :
    ∀ {n : Node} {c c' : Cursor}, n.Read R c c' → R c c'
  | _, _, _, .ident begins => passage.token begins rfl
  | _, _, _, .template begins inside =>
      passage.template begins fun _ _ => inside.passes passage
  | _, _, _, .node _ _ _ children => children.passes passage

theorem Laid.passes {R : Cursor → Cursor → Prop} (passage : Passage R) :
    ∀ {ns : List Node} {c c' : Cursor}, Laid R (Node.Read R) ns c c' → R c c'
  | _, _, _, .nil gap => gap
  | _, _, _, .cons gap first rest =>
      passage.trans gap (passage.trans (first.passes passage) (rest.passes passage))

/-- Every source of a template was read to its end. -/
theorem PartsRead.passes {R : Cursor → Cursor → Prop} (passage : Passage R) :
    ∀ {segments : List Segment} {parts : List Part}, PartsRead (Node.Read R) segments parts →
      ∀ {place : Place} {cs : List Char}, .source place cs ∈ segments →
        ∃ c', R (.ofTokens (tokensFrom place cs)) c' ∧ c'.ahead = []
  | _, _, .nil, _, _, member => nomatch member
  | _, _, .text rest, _, _, member => rest.passes passage (by simpa using member)
  | _, _, .source inside ended rest, _, _, member => by
      rcases List.mem_cons.mp member with same | later
      · cases same
        exact ⟨_, inside.passes passage, ended⟩
      · exact rest.passes passage later

end

/-! ## Nodes further down -/

namespace Cursor

/-- A condition on cursors that holds wherever reading goes on, in the tokens ahead or in those
of a source of a template. -/
structure Inherited (P : Cursor → Prop) : Prop where
  reaches {c c' : Cursor} : P c → c.Reaches c' → P c'
  enters {c : Cursor} {place : Place} {cs : List Char} : P c → c.peek.kind = .template →
    .source place cs ∈ c.templateSegments → P (.ofTokens (tokensFrom place cs))

end Cursor

theorem PartsRead.mem {read : Node → Cursor → Cursor → Prop} {segments : List Segment}
    {parts : List Part} (h : PartsRead read segments parts) {n : Node}
    (member : n ∈ parts.flatMap Part.nodes) :
    ∃ place cs c', .source place cs ∈ segments ∧ read n (.ofTokens (tokensFrom place cs)) c' := by
  induction h with
  | nil => cases member
  | text _ ih =>
      obtain ⟨place, cs, c', found, inside⟩ := ih member
      exact ⟨place, cs, c', List.mem_cons_of_mem _ found, inside⟩
  | source first _ _ ih =>
      rcases List.mem_cons.mp member with rfl | later
      · exact ⟨_, _, _, List.mem_cons_self, first⟩
      · obtain ⟨place, cs, c', found, inside⟩ := ih later
        exact ⟨place, cs, c', List.mem_cons_of_mem _ found, inside⟩

namespace Node

/-- The other node is the same or further down, with no template in between. -/
inductive Outside (n : Node) : Node → Prop where
  | refl : Outside n n
  | step {m k : Node} (there : Outside n m) (plain : m.isTemplate = false)
      (child : k ∈ m.children) : Outside n k

namespace Read

variable {n m : Node} {c c' : Cursor}

/-- A child was read inside the cursors of its parent, unless that is a template. -/
theorem child (h : n.Read Cursor.Reaches c c') (plain : n.isTemplate = false)
    (member : m ∈ n.children) :
    ∃ c₁ c₂, c.Reaches c₁ ∧ m.Read Cursor.Reaches c₁ c₂ ∧ c₂.Reaches c' := by
  cases h with
  | ident => cases member
  | template => cases plain
  | node _ _ _ children => exact children.mem (fun _ _ _ read => read.advances) member

theorem outside (h : n.Read Cursor.Reaches c c') (there : n.Outside m) :
    ∃ c₁ c₂, c.Reaches c₁ ∧ m.Read Cursor.Reaches c₁ c₂ ∧ c₂.Reaches c' := by
  induction there with
  | refl => exact ⟨c, c', .refl c, h, .refl c'⟩
  | step _ plain member ih =>
      obtain ⟨c₁, c₂, before, read, behind⟩ := ih
      obtain ⟨c₃, c₄, before', found, behind'⟩ := read.child plain member
      exact ⟨c₃, c₄, before.trans before', found, behind'.trans behind⟩

/-- Every node further down was read from a cursor at which an inherited condition holds. -/
theorem inherited {P : Cursor → Prop} (inherits : Cursor.Inherited P)
    (h : n.Read Cursor.Reaches c c') (start : P c) (inside : m = n ∨ n.Below m) :
    ∃ c₁ c₂, P c₁ ∧ m.Read Cursor.Reaches c₁ c₂ := by
  have down : ∀ {n m : Node} {c c' : Cursor}, n.Read Cursor.Reaches c c' → P c → m ∈ n.children →
      ∃ c₁ c₂, P c₁ ∧ m.Read Cursor.Reaches c₁ c₂ := by
    intro n m c c' h start member
    cases h with
    | ident => cases member
    | template begins inside =>
        obtain ⟨place, cs, c', found, read⟩ := inside.mem member
        exact ⟨_, c', inherits.enters start begins found, read⟩
    | node _ _ _ children =>
        obtain ⟨c₁, c₂, there, read, _⟩ :=
          children.mem (fun _ _ _ read => read.advances) member
        exact ⟨c₁, c₂, inherits.reaches start there, read⟩
  rcases inside with rfl | below
  · exact ⟨c, c', start, h⟩
  · induction below with
    | child member => exact down h start member
    | deeper _ member ih =>
        obtain ⟨c₁, c₂, there, read⟩ := ih
        exact down read there member

end Read

end Node

/-- What a run that succeeded gives is good. -/
theorem Outcome.good {α : Type} {P : α → Cursor → Prop} {p : Parser α} {c c₁ c' : Cursor} {a : α}
    (h : Outcome c P (p c₁)) (run : p c₁ = .ok a c') : P a c' := by
  rw [run] at h
  exact h.of_ok.2

/-! ## Readers -/

structure Grammar.Derives (g : Grammar) (R : Cursor → Cursor → Prop) : Prop where
  progress : g.Progresses
  passage : Passage R
  statement {c c' : Cursor} {s : Statement} : g.statement c = .ok s c' →
    (Node.statement s).Read R c c'
  expression {c c' : Cursor} {min : Precedence} {e : Expr} : g.expression min c = .ok e c' →
    (Node.expr e).Read R c c'

namespace Grammar

variable {R : Cursor → Cursor → Prop} {g : Grammar} {c c' : Cursor} {e : Expr} {s : Statement}

theorem isToken_of_isLiteral (h : e.isLiteral = true) :
    (Node.expr e).isToken = false ∧ e.children = [] := by
  cases e with
  | literal => exact ⟨rfl, rfl⟩
  | _ => cases h

theorem literal_derived (passage : Passage R) (kind : c.peek.shape.isLiteral = true)
    (run : literal c = .ok e c') : (Node.expr e).Read R c c' := by
  obtain ⟨covers, bare⟩ := (literal_outcome kind).good run
  obtain ⟨plain, none⟩ := isToken_of_isLiteral bare
  exact .of_covers covers plain (none ▸ .nil (passage.literal kind run))

theorem armPattern_derived {r : Option Expr} (passage : Passage R)
    (run : armPattern c = .ok r c') : Node.RowRead R (r.toList.map .expr) c c' := by
  rcases armPattern_ok.mp run with ⟨word, rfl, rfl⟩ | ⟨_, p, read, rfl⟩
  · exact .nil (passage.token word rfl)
  · obtain ⟨covers, bare⟩ := (pattern_outcome c).good read
    obtain ⟨plain, none⟩ := isToken_of_isLiteral bare
    exact .single passage (.of_covers covers plain (none ▸ .nil (passage.pattern read)))

theorem map_defaults (params : List Parameter) :
    (params.filterMap Parameter.default).map Node.expr =
      params.flatMap fun p => p.default.toList.map .expr := by
  induction params with
  | nil => rfl
  | cons p params ih => cases h : p.default <;> simp [h, ih]

namespace Derives

/-! ### Blocks and selections -/

theorem single {min : Precedence} (derives : g.Derives R) (run : g.expression min c = .ok e c') :
    Node.RowRead R [.expr e] c c' :=
  .single derives.passage (derives.expression run)

theorem block {body : List Statement} (derives : g.Derives R) (run : g.block c = .ok body c') :
    Node.RowRead R (body.map .statement) c c' := by
  obtain ⟨opens, ss, c₁, inside, closes, rfl, rfl⟩ := block_ok.mp run
  have statements : Node.RowRead R (ss.map .statement) c.next c₁ := by
    rw [List.map_eq_flatMap]
    refine derives.passage.items (fun read => ?_) inside
    have node := derives.statement read
    exact ⟨node.advances, .single derives.passage node⟩
  exact statements.enclosed derives.passage opens closes ⟨rfl, rfl⟩

theorem blockStatement (derives : g.Derives R) (run : g.blockStatement c = .ok s c') :
    (Node.statement s).Read R c c' := by
  have covers := ((derives.progress.blockStatement c).good run).1
  obtain ⟨body, c₁, inside, rfl, rfl⟩ := blockStatement_ok.mp run
  exact .of_statement covers (derives.block inside)

theorem armBody (derives : g.Derives R) (run : g.armBody c = .ok s c') :
    (Node.statement s).Read R c c' := by
  rcases armBody_ok.mp run with ⟨_, block⟩ | ⟨_, value⟩
  · exact derives.blockStatement block
  · obtain ⟨e, read, rfl⟩ := armValue_ok.mp value
    have node := derives.expression read
    exact .node rfl node.advances node.span_eq (derives.single read)

theorem arm {a : Arm} (derives : g.Derives R) (run : g.arm c = .ok a c') :
    Node.RowRead R a.nodes c c' := by
  have passage := derives.passage
  obtain ⟨pattern, c₁, first, arrow, body, c₂, second, u, c₃, ended, rfl, rfl⟩ := arm_ok.mp run
  have body := (Laid.single passage (derives.armBody second)).before passage
    (passage.armEnd ended)
  have both := (armPattern_derived passage first).append passage
    (body.after passage (passage.token arrow rfl))
  cases pattern <;> exact both

theorem selection (derives : g.Derives R) (begins : c.peek.kind = .matchWord)
    (run : g.selection c = .ok e c') : (Node.expr e).Read R c c' := by
  have passage := derives.passage
  have covers := (derives.progress.selection begins).good run
  obtain ⟨subject, c₁, first, opens, arms, c₂, inside, closes, rfl, rfl⟩ := selection_ok.mp run
  have cases : Node.RowRead R (arms.flatMap Arm.nodes) c₁.next c₂ := passage.items
    (fun read => ⟨((derives.progress.arm _).good read).1, derives.arm read⟩) inside
  have subject := ((derives.expression first).ungrouped passage).after passage
    (passage.token begins rfl)
  exact .of_covers covers rfl
    (subject.append passage (cases.enclosed passage opens closes ⟨rfl, rfl⟩))

/-! ### Operators -/

theorem parts {segments : List Segment} {parts : List Part} (derives : g.Derives R)
    (run : segments.mapM g.part = .ok parts) : PartsRead (Node.Read R) segments parts := by
  induction segments generalizing parts with
  | nil =>
      cases run
      exact .nil
  | cons segment segments ih =>
      obtain ⟨part, rest, first, others, rfl⟩ := parts_ok_cons.mp run
      cases segment with
      | text cs =>
          cases first
          exact .text (ih others)
      | source place cs =>
          obtain ⟨e, inside, rfl⟩ := part_source_ok.mp first
          obtain ⟨c', read, ended⟩ := interpolation_ok.mp inside
          exact .source (derives.expression read) ended (ih others)

theorem template (derives : g.Derives R) (begins : c.peek.kind = .template)
    (run : g.template c = .ok e c') : (Node.expr e).Read R c c' := by
  obtain ⟨parts, inside, rfl, rfl⟩ := template_ok.mp run
  exact .template begins (derives.parts inside)

theorem operand (derives : g.Derives R) (run : g.operand c = .ok e c') :
    (Node.expr e).Read R c c' := by
  have passage := derives.passage
  have covers := (derives.progress.operand c).good run
  rcases operand_ok.mp run with ⟨kind, run⟩ | ⟨begins, run⟩ | ⟨begins, run⟩ | ⟨opens, run⟩ |
    ⟨begins, run⟩ | ⟨op, mark, run⟩ | ⟨word, run⟩
  · exact literal_derived passage kind run
  · exact derives.template begins run
  · obtain ⟨rfl, rfl⟩ := ident_ok.mp run
    exact .ident begins
  · obtain ⟨operand, c₁, read, closes, rfl, rfl⟩ := group_ok.mp run
    exact .of_covers covers rfl
      ((derives.single read).enclosed passage opens closes ⟨rfl, rfl⟩)
  · exact derives.selection begins run
  · obtain ⟨operand, c₁, read, rfl, rfl⟩ := unary_ok.mp run
    exact .of_covers covers rfl ((derives.single read).after passage (passage.unary mark))
  · obtain ⟨operand, c₁, read, rfl, rfl⟩ := await_ok.mp run
    exact .of_covers covers rfl ((derives.single read).after passage (passage.token word rfl))

/-- What continues an expression was read behind it. -/
theorem continuation {start : Cursor} {left : Expr} (derives : g.Derives R)
    (covers : left.Covers start c) (before : (Node.expr left).Read R start c)
    (operator : Precedence.lowest < Precedence.ofKind c.peek.kind)
    (run : g.continuation left c = .ok e c') : (Node.expr e).Read R start c' := by
  have passage := derives.passage
  have whole := ((derives.progress.continuation covers operator).good run).2
  have left := (Laid.single passage before).before passage (passage.operator operator)
  rcases continuation_ok.mp run with ⟨_, run⟩ | ⟨_, run⟩ | ⟨op, _, run⟩ | ⟨op, _, run⟩
  · obtain ⟨args, c₁, inside, closes, rfl, rfl⟩ := callOf_ok.mp run
    have args : Node.RowRead R (args.map .expr) c.next c₁ := by
      rw [List.map_eq_flatMap]
      refine passage.separated (fun read => ?_) inside
      exact ⟨(derives.expression read).advances, derives.single read⟩
    exact .of_covers whole rfl
      (left.append passage (args.before passage (passage.token closes rfl)))
  · obtain ⟨name, c₁, found, rfl, rfl⟩ := memberOf_ok.mp run
    exact .of_covers whole rfl (left.before passage (passage.propertyName found))
  · obtain ⟨_, value, c₁, read, rfl, rfl⟩ := assignmentTo_ok.mp run
    exact .of_covers whole rfl (left.append passage (derives.single read))
  · obtain ⟨right, c₁, read, rfl, rfl⟩ := operationOn_ok.mp run
    exact .of_covers whole rfl (left.append passage (derives.single read))

theorem chain {room : Nat} {min : Precedence} (derives : g.Derives R)
    (run : g.chain room min c = .ok e c') : (Node.expr e).Read R c c' := by
  obtain ⟨first, c₁, read, whole, c₂, loop, rfl, rfl⟩ := chain_ok.mp run
  have keeps : ∀ k d l d', (k.expr.Covers c d ∧ (Node.expr k.expr).Read R c d) →
      g.extend room min k d = .ok (some l) d' →
      (l.expr.Covers c d' ∧ (Node.expr l.expr).Read R c d') ∧
        d'.ahead.length < d.ahead.length := by
    rintro k d l d' ⟨covers, node⟩ run
    have further := ((derives.progress.extend covers).good run).1 l rfl
    rcases extend_ok.mp run with ⟨_, none, _⟩ | ⟨tighter, e, continued, _, same⟩
    · cases none
    · cases same
      have operator := Precedence.lowest_lt_of_not_le tighter
      exact ⟨⟨further.2, derives.continuation covers node operator continued⟩,
        further.1.length_lt⟩
  have start := And.intro ((derives.progress.operand c).good read) (derives.operand read)
  have grown := grows_of_iterate_ok _ keeps start loop
  obtain ⟨c₃, ⟨_, node⟩, stop⟩ :=
    grown.invariant (fun k d l d' known run => (keeps k d l d' known run).1) start
  rcases extend_ok.mp stop with ⟨_, _, rfl⟩ | ⟨_, e, _, _, same⟩
  · exact node
  · cases same

/-! ### Statements -/

theorem declaration (derives : g.Derives R)
    (begins : c.peek.kind = .constWord ∨ c.peek.kind = .letWord)
    (run : g.declaration c = .ok s c') : (Node.statement s).Read R c c' := by
  have passage := derives.passage
  have word : R c c.next := by
    rcases begins with begins | begins
    · exact passage.token begins rfl
    · exact passage.token begins rfl
  have inner : c.peek.kind ≠ .endOfFile := by rcases begins with h | h <;> simp [h]
  have covers := (derives.progress.declaration inner).good run
  obtain ⟨name, type, c₁, typed, initial, c₂, valued, ends, rfl, rfl⟩ := declaration_ok.mp run
  have there : R c c₁ := passage.trans word
    (passage.behind name rfl (passage.optionally rfl passage.typeName typed))
  have node : Node.RowRead R (initial.toList.map .expr) c c₂ := by
    rcases initialValue_ok.mp valued with ⟨mark, e, read, rfl⟩ | ⟨_, _, rfl, rfl⟩
    · exact (derives.single read).after passage (passage.trans there (passage.token mark rfl))
    · exact .nil there
  exact .of_statement covers (node.before passage (passage.token ends rfl))

theorem parameter {p : Parameter} (derives : g.Derives R) (run : g.parameter c = .ok p c') :
    Node.RowRead R (p.default.toList.map .expr) c c' := by
  have passage := derives.passage
  obtain ⟨name, type, c₁, typed, default, c₂, read, rfl, rfl⟩ := parameter_ok.mp run
  have value : Node.RowRead R (default.toList.map .expr) c₁ c₂ := by
    rw [List.map_eq_flatMap]
    exact passage.option rfl (fun read => derives.single read) read
  exact value.after passage
    (passage.behind name rfl (passage.optionally rfl passage.typeName typed))

theorem routine {async : Bool} {r : Routine} (derives : g.Derives R)
    (run : g.routine async c = .ok r c') : Node.RowRead R r.nodes c c' := by
  have passage := derives.passage
  obtain ⟨name, opens, params, c₁, inside, closes, returns, c₂, typed, body, c₃, block, rfl, rfl⟩ :=
    routine_ok.mp run
  have defaults : Node.RowRead R (params.flatMap fun p => p.default.toList.map .expr)
      c.next.next c₁ :=
    passage.separated (fun read => ⟨((derives.progress.parameter _).good read).1,
      derives.parameter read⟩) inside
  rw [Routine.nodes, map_defaults]
  exact ((defaults.enclosed passage opens closes ⟨rfl, rfl⟩).after passage
      (passage.token name rfl)).append passage
    ((derives.block block).after passage (passage.optionally rfl passage.typeName typed))

theorem function {async : Bool} {r : Routine} (derives : g.Derives R)
    (run : g.function async c = .ok r c') : Node.RowRead R r.nodes c c' := by
  obtain ⟨word, rest⟩ := function_ok.mp run
  exact (derives.routine rest).after derives.passage (derives.passage.token word rfl)

theorem method {r : Routine} (derives : g.Derives R) (run : g.method c = .ok r c') :
    Node.RowRead R r.nodes c c' := by
  have passage := derives.passage
  obtain ⟨async, c₁, accepted, rest⟩ := method_ok.mp run
  have first : R c c₁ := by
    rcases accept_ok.mp accepted with ⟨word, _, rfl⟩ | ⟨_, _, rfl⟩
    · exact passage.token word rfl
    · exact passage.refl c
  exact (derives.routine rest).after passage (passage.trans first (passage.accepted rfl c₁))

theorem classStatement (derives : g.Derives R) (begins : c.peek.kind = .classWord)
    (run : g.classStatement c = .ok s c') : (Node.statement s).Read R c c' := by
  have passage := derives.passage
  have covers := (derives.progress.classStatement (by simp [begins])).good run
  obtain ⟨name, opens, methods, c₁, inside, closes, rfl, rfl⟩ := classStatement_ok.mp run
  have methods : Node.RowRead R (methods.flatMap Routine.nodes) c.next.next.next c₁ := passage.items
    (fun read => ⟨((derives.progress.method _).good read).1, derives.method read⟩) inside
  exact .of_statement covers ((methods.enclosed passage opens closes ⟨rfl, rfl⟩).after passage
    (passage.behind begins rfl (passage.token name rfl)))

theorem alternative (derives : g.Derives R) (run : g.alternative c = .ok s c') :
    (Node.statement s).Read R c c' := by
  rcases alternative_ok.mp run with ⟨_, run⟩ | ⟨_, run⟩
  · exact derives.statement run
  · exact derives.blockStatement run

theorem conditional (derives : g.Derives R) (begins : c.peek.kind = .ifWord)
    (run : g.conditional c = .ok s c') : (Node.statement s).Read R c c' := by
  have passage := derives.passage
  have covers := (derives.progress.conditional c).good run
  obtain ⟨condition, c₁, first, body, c₂, block, otherwise, c₃, last, rfl, rfl⟩ :=
    conditional_ok.mp run
  have condition := ((derives.expression first).ungrouped passage).after passage
    (passage.token begins rfl)
  have rest : Node.RowRead R (otherwise.toList.map .statement) c₂ c₃ := by
    rw [List.map_eq_flatMap]
    exact passage.option rfl (fun read => .single passage (derives.alternative read)) last
  exact .of_statement covers
    (condition.append passage ((derives.block block).append passage rest))

theorem handler {h : Handler} (derives : g.Derives R) (run : g.handler c = .ok h c') :
    Node.RowRead R (h.body.map .statement) c c' := by
  have passage := derives.passage
  obtain ⟨binding, c₁, bound, body, c₂, block, rfl, rfl⟩ := handler_ok.mp run
  exact (derives.block block).after passage (passage.optionally rfl passage.caughtName bound)

theorem attempt (derives : g.Derives R) (begins : c.peek.kind = .tryWord)
    (run : g.attempt c = .ok s c') : (Node.statement s).Read R c c' := by
  have passage := derives.passage
  have covers := (derives.progress.attempt c).good run
  obtain ⟨body, c₁, block, handler, c₂, caught, cleanup, c₃, cleaned, _, rfl, rfl⟩ :=
    attempt_ok.mp run
  have block := (derives.block block).after passage (passage.token begins rfl)
  have handlers : Node.RowRead R ((handler.toList.flatMap Handler.body).map .statement) c₁ c₂ := by
    rw [List.map_flatMap]
    exact passage.option rfl (fun read => derives.handler read) caught
  have cleanups : Node.RowRead R ((cleanup.getD []).map .statement) c₂ c₃ := by
    have laid : Node.RowRead R (cleanup.toList.flatMap fun body => body.map .statement) c₂ c₃ :=
      passage.option rfl (fun read => derives.block read) cleaned
    cases cleanup with
    | none => exact laid
    | some body => simpa using laid
  exact .of_statement covers ((block.append passage handlers).append passage cleanups)

theorem returning (derives : g.Derives R) (begins : c.peek.kind = .returnWord)
    (run : g.returning c = .ok s c') : (Node.statement s).Read R c c' := by
  have passage := derives.passage
  have covers := (derives.progress.returning (by simp [begins])).good run
  obtain ⟨value, c₁, read, ends, rfl, rfl⟩ := returning_ok.mp run
  refine .of_statement covers (Laid.enclosed ?_ passage begins ends ⟨rfl, rfl⟩)
  rcases returnValue_ok.mp read with ⟨_, rfl, rfl⟩ | ⟨_, e, value, rfl⟩
  · exact .nil (passage.refl _)
  · exact derives.single value

theorem expressionStatement (derives : g.Derives R) (run : g.expressionStatement c = .ok s c') :
    (Node.statement s).Read R c c' := by
  have covers := (derives.progress.expressionStatement c).good run
  obtain ⟨value, c₁, read, ends⟩ := expressionStatement_ok.mp run
  rcases ends with ⟨mark, rfl, rfl⟩ | ⟨_, _, rfl, rfl⟩
  · exact .of_statement covers
      ((derives.single read).before derives.passage (derives.passage.token mark rfl))
  · exact .of_statement covers (derives.single read)

/-! ### Levels -/

theorem anyStatement (derives : g.Derives R) (run : g.anyStatement c = .ok s c') :
    (Node.statement s).Read R c c' := by
  have covers := (derives.progress.anyStatement c).good run
  rcases anyStatement_ok.mp run with ⟨_, run⟩ | ⟨word, run⟩ | ⟨begins, run⟩ | ⟨begins, run⟩ |
    ⟨begins, run⟩ | ⟨begins, run⟩ | ⟨begins, run⟩ | ⟨_, run⟩ | ⟨_, run⟩
  · obtain ⟨r, c₁, read, rfl, rfl⟩ := functionStatement_ok.mp run
    exact .of_statement covers (derives.function read)
  · obtain ⟨r, c₁, read, rfl, rfl⟩ := asyncStatement_ok.mp run
    exact .of_statement covers
      ((derives.function read).after derives.passage (derives.passage.token word rfl))
  · exact derives.classStatement begins run
  · exact derives.declaration begins run
  · exact derives.conditional begins run
  · exact derives.attempt begins run
  · exact derives.returning begins run
  · exact derives.blockStatement run
  · exact derives.expressionStatement run

theorem nest (derives : g.Derives R) (room : Nat) : (g.nest room).Derives R where
  progress := derives.progress.nest room
  passage := derives.passage
  statement := derives.anyStatement
  expression := derives.chain

end Derives

/-- Every tree that a grammar built by levels reads has a derivation. -/
theorem derives_ofRoom (passage : Passage R) (room : Nat) : (ofRoom room).Derives R := by
  induction room with
  | zero => exact ⟨progresses_ofRoom 0, passage, nofun, nofun⟩
  | succ room ih => exact ih.nest room

end Grammar

end TwoScript
