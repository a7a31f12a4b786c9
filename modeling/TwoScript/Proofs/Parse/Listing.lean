import TwoScript.Proofs.Code.Respelling
import TwoScript.Proofs.Parse.Recovery
import TwoScript.Proofs.Tree.Shown

/-!
# Listings of programs

Two statements that were read from sources are listed alike if and only if a listing shows the
same of them: `listings_identify`. A source that is read twice, the second time with every type
that is no word replaced, gives the same program, so the types of a program are words.
-/

namespace TwoScript

/-- The name of a type that was read is a word. -/
theorem Shape.Lexed.isWord_type {t : Shape} (h : t.Lexed)
    (type : t.kind = .identifier ∨ t.kind = .nullWord) : isWord t.text = true := by
  rcases type with name | null
  · exact isWord_of_isName (h.isName_text name)
  · exact isWord_of_keyword (by rw [h.keyword_of_null null]; rfl)

/-- What is compared when types that are no words are replaced in the second reading. -/
def View.words : View where
  left := .same
  right := .words
  text := id
  places p p' := p = p'
  types lexed type := (if_pos (lexed.isWord_type type)).symm
  merge := by
    rintro a _ b _ rfl rfl
    rfl
  stretch := by
    rintro a _ b _ rfl rfl
    rfl
  inside := by
    rintro a _ rfl
    rfl
  after := by
    rintro p _ cs rfl
    rfl
  spans := by
    rintro p _ cs rfl
    rfl

section

variable {source : String} {s : Statement}

/-- The types of a program are words. -/
theorem relabel_words (member : s ∈ (parse source).statements) : s.relabel .words = s := by
  have start : View.words.places .first .first := rfl
  have alike := programFrom_alike (Grammar.agrees_ofRoom View.words maxNesting)
    (View.ahead_ofTokens source.toList start)
  have statements : (parse source).statements.map (Statement.relabel .same) =
      (parse source).statements.map (Statement.relabel .words) := congrArg Program.statements alike
  rw [← List.map_inj_left.mp statements s member, Statement.relabel_same]

theorem StatementRead.listable {g : Grammar} (sound : g.Sound) {c c' : Cursor}
    {e : Option ParseError} (h : StatementRead g c s e c') (lexed : c.Lexed) :
    s.Every listable := by
  cases h with
  | parsed run _ =>
      obtain ⟨_, formed, _⟩ := sound.statement lexed run
      exact formed.mono grammatical_implies_listable
  | failed => trivial

theorem listable_of_mem (member : s ∈ (parse source).statements) : s.Every listable := by
  obtain ⟨ps, run, program⟩ := program_steps (tokenize source)
  rw [parse, program] at member
  obtain ⟨p, step, rfl⟩ := List.mem_map.mp member
  obtain ⟨c₁, c₂, there, read, _⟩ :=
    run.exists_step (Grammar.progresses_ofRoom maxNesting) step
  obtain ⟨_, _, lexed⟩ := Cursor.ofTokens_tokensFrom .first source.toList
  exact read.listable (Grammar.sound_ofRoom maxNesting) (there.lexed lexed)

theorem valid_of_mem (member : s ∈ (parse source).statements) : s.item.Valid := by
  have valid := Statement.valid_item s (listable_of_mem member)
  rwa [relabel_words member] at valid

end

/-- Statements that were read, from one source or from two, are listed alike if and only if they
are the same without spans and without what `shown` takes out: an infinite number against a
name, the text of a template against a string, and a caught name against a statement. -/
theorem listings_identify (source source' : String) :
    ∀ s ∈ (parse source).statements, ∀ s' ∈ (parse source').statements,
      s.sexpr = s'.sexpr ↔ (s.relabel .bare).shown = (s'.relabel .bare).shown := by
  intro s member s' member'
  constructor
  · intro same
    have chars : s.item.chars = s'.item.chars := by
      rw [← Statement.toList_sexpr, ← Statement.toList_sexpr, same]
    exact Statement.shown_eq s s' (listable_of_mem member) (listable_of_mem member')
      (Item.chars_injective (valid_of_mem member) (valid_of_mem member') chars)
  · intro same
    rw [← String.toList_inj, Statement.toList_sexpr, Statement.toList_sexpr,
      ← Statement.item_shown s, same, Statement.item_shown s']

/-- A caught name is listed like a statement of the handler. -/
theorem listings_identify_catch :
    ∃ s ∈ (parse "try \x7b\x7d catch (e) \x7b\x7d").statements,
      ∃ s' ∈ (parse "try \x7b\x7d catch \x7b e; \x7d").statements,
        s.sexpr = s'.sexpr ∧ s.relabel .bare ≠ s'.relabel .bare := by
  have caught : (parse "try \x7b\x7d catch (e) \x7b\x7d").statements =
      [.attempt ⟨0, 19, 1⟩ [] (some ⟨some "e", []⟩) none] := by
    with_unfolding_all rfl
  have inside : (parse "try \x7b\x7d catch \x7b e; \x7d").statements =
      [.attempt ⟨0, 19, 1⟩ [] (some ⟨none, [.expression ⟨15, 17, 1⟩ (.ident ⟨15, 16, 1⟩ "e")]⟩)
        none] := by
    with_unfolding_all rfl
  have member := caught ▸ List.mem_singleton_self _
  have member' := inside ▸ List.mem_singleton_self _
  refine ⟨_, member, _, member', (listings_identify _ _ _ member _ member').mpr rfl, ?_⟩
  simp [Statement.relabel, handlerRelabel]

end TwoScript
