import TwoScript.Proofs.Parse.Coverage
import TwoScript.Proofs.Parse.SoundStatement

/-!
# What holds in every tree that was read

The forms that the grammar rules out do not occur anywhere in a program that was read
from a source, below selections and templates as little as in statements, and names are
words that no table holds: `parse_wellFormed`. This is true of programs with errors too,
since a placeholder has nothing below it.
-/

namespace TwoScript

/-! ## Names -/

def isSpelling (word : String) : Bool :=
  Script.all.any fun script => (script.spellings.map Prod.fst).contains word

def isIdentifier (name : String) : Bool :=
  isWord name && !isSpelling name

/-- The words with a meaning are those of the tables. -/
theorem keyword?_isSome (word : String) : (keyword? word).isSome = isSpelling word := by
  rw [keyword?, Option.isSome_map, lookup?, isSpelling, Bool.eq_iff_iff]
  simp only [List.findSome?_isSome_iff, Option.isSome_map, List.any_eq_true,
    List.contains_iff_mem, List.mem_map, List.lookup_isSome_iff, beq_iff_eq, @eq_comm _ word]

theorem isName_eq (name : String) : isName name = isIdentifier name := by
  rw [isName, isIdentifier, ← keyword?_isSome]
  cases keyword? name <;> rfl

/-- A word is a name or stands in a table. -/
theorem isIdentifier_or_isSpelling {word : String} (h : isWord word = true) :
    isIdentifier word = true ∨ isSpelling word = true := by
  rw [isIdentifier, h]
  cases isSpelling word <;> simp

/-! ## Single nodes -/

def Part.WellFormed (parts : List Part) : Prop :=
  (∀ s, text s ∈ parts → s ≠ "") ∧
    ∀ before s t after, parts ≠ before ++ text s :: text t :: after

/-- The form of an expression and the names in it, those of its operands aside. -/
def Expr.WellFormed : Expr → Prop
  | ident _ name => isIdentifier name = true
  | member _ _ property => isIdentifier property = true ∨ isSpelling property = true
  | assign _ _ target _ => target.isAssignable = true
  | select _ _ arms => ∀ a ∈ arms, (a.body.isBlock = true ∨ a.body.isExpression = true) ∧
      ∀ p, a.pattern = some p → p.IsPattern
  | template _ parts => Part.WellFormed parts
  | _ => True

def Routine.WellFormed (r : Routine) : Prop :=
  isIdentifier r.name = true ∧ ∀ p ∈ r.params, isIdentifier p.name = true

/-- The form of a statement and the names that it binds, those of statements inside
aside. -/
def Statement.WellFormed : Statement → Prop
  | function _ routine => routine.WellFormed
  | classDecl _ name methods => isIdentifier name = true ∧ ∀ m ∈ methods, m.WellFormed
  | declare _ constant name _ initial =>
    isIdentifier name = true ∧ (constant = true → initial.isSome = true)
  | conditional _ _ _ otherwise =>
    ∀ s, otherwise = some s → s.isBlock = true ∨ s.isConditional = true
  | attempt _ _ handler cleanup =>
    (handler.isSome = true ∨ cleanup.isSome = true) ∧
      ∀ h, handler = some h → ∀ name, h.binding = some name → isIdentifier name = true
  | _ => True

def Node.WellFormed : Node → Prop
  | expr e => e.WellFormed
  | statement s => s.WellFormed

theorem Part.Apart.wellFormed {parts : List Part} (h : Apart parts) : WellFormed parts := by
  induction parts with
  | nil => exact ⟨by simp, by simp⟩
  | cons part parts ih =>
      cases part with
      | text s =>
          obtain ⟨nonempty, next, rest⟩ := h
          obtain ⟨full, alone⟩ := ih rest
          refine ⟨fun t ht => ?_, fun before t u after split => ?_⟩
          · rcases List.mem_cons.mp ht with same | later
            · cases same
              exact nonempty
            · exact full t later
          · cases before with
            | nil =>
                rw [(List.cons.inj split).2] at next
                cases next
            | cons _ before => exact alone before t u after (List.cons.inj split).2
      | expr e =>
          obtain ⟨full, alone⟩ := ih h
          refine ⟨fun t ht => full t (by simpa using ht), fun before t u after split => ?_⟩
          cases before with
          | nil => cases (List.cons.inj split).1
          | cons _ before => exact alone before t u after (List.cons.inj split).2

/-! ## All nodes -/

theorem Routine.Formed.wellFormed {r : Routine} (h : r.Formed) : r.WellFormed := by
  refine ⟨by rw [← isName_eq, h.1], fun p hp => ?_⟩
  rw [← isName_eq, (h.2 p hp).1]

theorem Statement.Formed.wellFormed {s : Statement} (h : s.Formed) : s.WellFormed := by
  cases s with
  | function _ routine => exact Routine.Formed.wellFormed h
  | classDecl _ name methods =>
      exact ⟨by rw [← isName_eq, h.1], fun m hm => (h.2 m hm).wellFormed⟩
  | declare => exact ⟨by rw [← isName_eq, h.1], h.2⟩
  | conditional => exact fun s hs => (h s hs).symm
  | attempt _ _ handler cleanup =>
      obtain ⟨either, names⟩ := h
      refine ⟨?_, fun k hk name bound => by rw [← isName_eq, names k hk name bound]⟩
      cases handler <;> cases cleanup <;> simp_all
  | failed => cases h
  | _ => trivial

/-- A tree without placeholders that is grammatical is well-formed at its root. -/
theorem Node.Every.wellFormed {n : Node} (h : n.Every (unbroken.and grammatical)) :
    n.WellFormed := by
  cases n with
  | statement s =>
      have root : (unbroken.and grammatical).Holds (.statement s) := h.holds
      exact root.2.wellFormed
  | expr e =>
      rcases h with h | pattern
      · cases e with
        | ident _ name =>
            show isIdentifier name = true
            rw [← isName_eq]
            exact h.2.2
        | member => exact isIdentifier_or_isSpelling h.1.2.2
        | assign => exact h.1.2.1
        | select _ _ arms =>
            intro a ha
            exact ⟨h.1.1 a ha, fun p hp => ((armsEvery_iff.mp h.2.2 a ha).1 p hp).2⟩
        | template => exact h.1.2.2.wellFormed
        | _ => trivial
      · cases e with
        | literal => trivial
        | _ => cases pattern.1

/-- All nodes of a statement of a program are well-formed, whether it was read or failed. -/
theorem StatementRead.wellFormed {g : Grammar} (sound : g.Sound) {c c' : Cursor} {s : Statement}
    {e : Option ParseError} (h : StatementRead g c s e c') (lexed : c.Lexed) {n : Node}
    (inside : n = .statement s ∨ (Node.statement s).Below n) : n.WellFormed := by
  cases h with
  | parsed run covers =>
      obtain ⟨_, formed, _⟩ := sound.statement lexed run
      have every : (Node.statement s).Every (unbroken.and grammatical) :=
        Statement.Every.and s covers.every formed
      have bare : (unbroken.and grammatical).Bare := fun e pattern => unbroken_bare e pattern.1
      rcases inside with rfl | below
      · exact every.wellFormed
      · exact (every.below bare below).wellFormed
  | failed =>
      rcases inside with rfl | below
      · trivial
      · exact (Node.not_below_failed below).elim

/-- Every node of a program that was read from a source is well-formed. -/
theorem parse_wellFormed (source : String) :
    ∀ s ∈ (parse source).statements, ∀ n : Node,
      n = .statement s ∨ (Node.statement s).Below n → n.WellFormed := by
  intro s hs n inside
  obtain ⟨ps, run, program⟩ := program_steps (tokenize source)
  rw [parse, program] at hs
  obtain ⟨p, member, rfl⟩ := List.mem_map.mp hs
  obtain ⟨c₁, c₂, there, read, _⟩ :=
    run.exists_step (Grammar.progresses_ofRoom maxNesting) member
  obtain ⟨_, _, lexed⟩ := Cursor.ofTokens_tokensFrom .first source.toList
  exact read.wellFormed (Grammar.sound_ofRoom maxNesting) (there.lexed lexed) inside

/-- A constant inside a block has its value. -/
theorem parse_wellFormed_constant :
    ∃ s ∈ (parse "\x7b const b = a; \x7d").statements,
      (Node.statement s).Below (.statement (.declare ⟨2, 14, 1⟩ true "b" none
        (some (.ident ⟨12, 13, 1⟩ "a")))) ∧
      (Node.statement (.declare ⟨2, 14, 1⟩ true "b" none
        (some (.ident ⟨12, 13, 1⟩ "a")))).WellFormed := by
  have program : (parse "\x7b const b = a; \x7d").statements =
      [.block ⟨0, 16, 1⟩ [.declare ⟨2, 14, 1⟩ true "b" none
        (some (.ident ⟨12, 13, 1⟩ "a"))]] := by
    with_unfolding_all rfl
  have member := program ▸ List.mem_singleton_self _
  have below : (Node.statement (.block ⟨0, 16, 1⟩ [.declare ⟨2, 14, 1⟩ true "b" none
      (some (.ident ⟨12, 13, 1⟩ "a"))])).Below
      (.statement (.declare ⟨2, 14, 1⟩ true "b" none (some (.ident ⟨12, 13, 1⟩ "a")))) :=
    .child (.head _)
  exact ⟨_, member, below, parse_wellFormed _ _ member _ (.inr below)⟩

end TwoScript
