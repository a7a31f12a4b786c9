import Mathlib.Data.List.Forall2
import TwoScript.Editor.Diagnostic
import TwoScript.Proofs.Editor.Positions
import TwoScript.Proofs.Parse.Coverage

/-!
# Diagnostics and tokens under the cursor

What an editor shows is found by recounting the source. An error begins with a token, whose
place the tokenizer has counted on its way, and both counts agree: `diagnostics_match_errors`.
Tokens follow each other, so at most one of them lies under a cursor: `hover_names_token`.
-/

namespace TwoScript

variable {source : String}

/-- A token begins between two characters, on the line that its span names. -/
theorem Token.StandsIn.start_position {t : Token} (h : t.StandsIn source) :
    IsBoundary source t.span.start ∧
      (positionAt source t.span.start).line + 1 = t.span.line := by
  obtain ⟨before, after, rfl, start, _, line⟩ := h
  rw [← byteLength_toList] at start
  have whole : (before ++ t.text ++ after).toList =
      before.toList ++ (t.text.toList ++ after.toList) := by
    simp
  refine ⟨⟨_, _, whole, start.symm⟩, ?_⟩
  rw [start, positionAt_byteLength whole, Position.line_along, line]
  show 0 + before.toList.count '\n' + 1 = _
  omega

/-! ## Where errors begin -/

namespace Cursor

variable {c c' : Cursor}

/-- An error begins where a token does, and names the line of that token. -/
theorem Shows.exists_first {s : Span} (h : c.Shows c' s) :
    ∃ c₁, c.Reaches c₁ ∧ s.start = c₁.span.start ∧ s.line = c₁.span.line := by
  cases h with
  | token first _ => exact ⟨_, first, rfl, rfl⟩
  | stretch first _ _ => exact ⟨_, first, rfl, rfl⟩

theorem Begins.peek_mem_tokenize (h : c.Begins source) (there : c.Reaches c') :
    c'.peek ∈ tokenize source := by
  rw [h.tokens, ← there.final_eq]
  rcases List.mem_append.mp c'.peek_mem with ahead | last
  · obtain ⟨ts, taken⟩ := there
    exact List.mem_append_left _ (taken.mem_ahead ahead)
  · exact List.mem_append_right _ last

end Cursor

/-- Errors show forward, from a token of the source on. -/
theorem exists_token_of_mem_errors {e : ParseError} (member : e ∈ (parse source).errors) :
    e.span.start ≤ e.span.stop ∧
      ∃ t ∈ tokenize source, e.span.start = t.span.start ∧ e.line = t.span.line := by
  have progress : Grammar.full.Progresses := Grammar.progresses_ofRoom maxNesting
  have begins := Cursor.begins_tokenize source
  obtain ⟨ps, run, program⟩ := program_steps (tokenize source)
  rw [parse, program] at member
  obtain ⟨p, step, error⟩ := List.mem_filterMap.mp member
  obtain ⟨c₁, c₂, there, read, _⟩ := run.exists_step progress step
  have ordered := begins.ordered.reaches there
  rw [error] at read
  generalize p.statement = s at read
  cases read with
  | failed _ shows =>
      obtain ⟨c₃, first, start, line⟩ := (shows ordered).exists_first
      exact ⟨((shows ordered).bounds ordered).2.2.1, c₃.peek,
        begins.peek_mem_tokenize (there.trans first), start, line⟩

/-- There is one diagnostic for each error, in the same order and with the same message. Its
range is not reversed, begins on the line that the error names, and leads back to the offset
of the error; in a text of less than 2³² bytes its counts fit into 32 bits. -/
theorem diagnostics_match_errors (source : String) :
    List.Forall₂ (fun d e => d.message = e.message ∧ d.start ≤ d.stop ∧
        d.start.line + 1 = e.line ∧ offsetAt? source d.start = some e.span.start)
      (diagnostics source) (parse source).errors ∧
    (source.utf8ByteSize < 2 ^ 32 → ∀ d ∈ diagnostics source, ∀ p ∈ [d.start, d.stop],
      p.line < 2 ^ 32 ∧ p.column < 2 ^ 32) := by
  rw [diagnostics, List.forall₂_map_left_iff, List.forall₂_same]
  constructor
  · intro e member
    obtain ⟨forward, t, token, start, line⟩ := exists_token_of_mem_errors member
    have tiles : Tiles source.toList [] (tokenize source) := tiles_tokensFrom rfl
    obtain ⟨boundary, place⟩ := (tiles.standsIn t token).start_position
    rw [← start] at boundary place
    refine ⟨rfl, Position.advance_mono _ _ forward, ?_, offsetAt?_positionAt boundary⟩
    rw [line]
    exact place
  · intro small d member p hp
    obtain ⟨e, _, rfl⟩ := List.mem_map.mp member
    have count : ∃ o, p = positionAt source o := by
      rcases List.mem_pair.mp hp with rfl | rfl
      · exact ⟨_, rfl⟩
      · exact ⟨_, rfl⟩
    obtain ⟨o, rfl⟩ := count
    have bound := positionAt_le_utf8ByteSize source o
    omega

/-- An error in a template of two lines that begins on the second line of its source. -/
theorem diagnostics_match_errors_template :
    (parse "\n`\n$\x7b)\x7d`").errors =
        [.interpolation (.cannotStart ")" ⟨5, 6, 3⟩) ⟨1, 8, 2⟩] ∧
      ∃ d, diagnostics "\n`\n$\x7b)\x7d`" = [d] ∧ d.start.line = 1 ∧
        offsetAt? "\n`\n$\x7b)\x7d`" d.start = some 1 ∧ d.stop.column < 2 ^ 32 := by
  have errors : (parse "\n`\n$\x7b)\x7d`").errors =
      [.interpolation (.cannotStart ")" ⟨5, 6, 3⟩) ⟨1, 8, 2⟩] := by
    decide +kernel
  obtain ⟨agree, small⟩ := diagnostics_match_errors "\n`\n$\x7b)\x7d`"
  rw [errors, List.forall₂_cons_right_iff] at agree
  obtain ⟨d, ds, ⟨_, _, line, offset⟩, rest, whole⟩ := agree
  rw [List.forall₂_nil_right_iff.mp rest] at whole
  refine ⟨errors, d, whole, Nat.succ.inj line, offset, ?_⟩
  exact (small (by decide) d (by simp [whole]) d.stop (by simp)).2

/-! ## Tokens under the cursor -/

/-- No spelling stands in the tables with two meanings. -/
theorem keyword?_of_mem (script : Script) :
    ∀ entry ∈ script.spellings, keyword? entry.1 = some entry.2 := by
  cases script <;> decide +kernel

/-- The spellings of a kind are the words that are read as this kind. -/
theorem mem_spellings_iff {kind : Kind} {word : String} :
    word ∈ kind.spellings ↔ keyword? word = some kind := by
  rw [Kind.spellings, List.mem_map]
  constructor
  · rintro ⟨⟨w, k⟩, listed, rfl⟩
    obtain ⟨anywhere, same⟩ := List.mem_filter.mp listed
    obtain ⟨script, _, found⟩ := List.mem_flatMap.mp anywhere
    rw [← eq_of_beq same]
    exact keyword?_of_mem script _ found
  · intro read
    obtain ⟨⟨script, k⟩, found, rfl⟩ := Option.map_eq_some_iff.mp read
    have listed : script ∈ Script.all := by cases script <;> decide
    refine ⟨(word, k), List.mem_filter.mpr ⟨?_, beq_self_eq_true k⟩, rfl⟩
    exact List.mem_flatMap.mpr ⟨script, listed, mem_spellings_of_lookup found⟩

theorem Token.covers_iff {t : Token} {o : Nat} :
    t.covers o = true ↔ t.span.start ≤ o ∧ o < t.span.stop := by
  simp [covers]

/-- Of tokens that follow each other only one covers an offset. -/
theorem find?_covers {tokens : List Token} {t : Token} {o : Nat}
    (apart : tokens.Pairwise fun t u => t.span.stop ≤ u.span.start) (member : t ∈ tokens)
    (inside : t.covers o = true) : tokens.find? (·.covers o) = some t := by
  obtain ⟨us, vs, rfl⟩ := List.append_of_mem member
  refine List.find?_eq_some_iff_append.mpr ⟨inside, us, vs, rfl, fun u earlier => ?_⟩
  have before := (List.pairwise_append.mp apart).2.2 u earlier t List.mem_cons_self
  rw [Token.covers_iff] at inside
  rw [Bool.not_eq_true', ← Bool.not_eq_true, Token.covers_iff]
  omega

/-- At the position of a boundary the token that covers it is described. -/
theorem hover?_positionAt {o : Nat} (h : IsBoundary source o) :
    hover? source (positionAt source o) =
      ((tokenize source).find? (·.covers o)).map Token.hover := by
  simp only [hover?, offsetAt?_positionAt h, Option.bind_eq_bind, Option.bind_some]
  cases (tokenize source).find? (·.covers o) <;> rfl

/-- The hover text at a boundary describes the token around it: its kind, its text and the words
that are read as its kind. Between the tokens there is none. -/
theorem hover_names_token (source : String) (o : Nat) (h : IsBoundary source o) :
    (∀ t ∈ tokenize source, t.span.start ≤ o → o < t.span.stop →
      ∃ words : List String, (∀ w, w ∈ words ↔ keyword? w = some t.kind) ∧
        hover? source (positionAt source o) =
          some ("**Token:** " ++ backquoted t.kind.name ++ "\n\n**Text:** " ++ backquoted t.text ++
            (if words.isEmpty then ""
              else "\n\n**Spellings:** " ++ ", ".intercalate (words.map backquoted)))) ∧
    ((∀ t ∈ tokenize source, ¬(t.span.start ≤ o ∧ o < t.span.stop)) →
      hover? source (positionAt source o) = none) := by
  rw [hover?_positionAt h]
  constructor
  · intro t member start stop
    have tiles : Tiles source.toList [] (tokenize source) := tiles_tokensFrom rfl
    have found := find?_covers tiles.ordered member (Token.covers_iff.mpr ⟨start, stop⟩)
    rw [found]
    exact ⟨t.kind.spellings, fun _ => mem_spellings_iff, rfl⟩
  · intro outside
    have missing : (tokenize source).find? (·.covers o) = none := by
      rw [List.find?_eq_none]
      exact fun t member inside => outside t member (Token.covers_iff.mp inside)
    rw [missing]
    rfl

/-- A name behind a character of two units, and the space between them. -/
theorem hover_names_token_wide :
    positionAt "😀 a" 5 = ⟨0, 3⟩ ∧
      hover? "😀 a" ⟨0, 3⟩ = some "**Token:** `Identifier`\n\n**Text:** `a`" ∧
      hover? "😀 a" ⟨0, 2⟩ = none := by
  have tokens : tokenize "😀 a" =
      [⟨.invalid .unexpectedCharacter, "😀", ⟨0, 4, 1⟩, none⟩, ⟨.identifier, "a", ⟨5, 6, 1⟩, none⟩,
        ⟨.endOfFile, "", ⟨6, 6, 1⟩, none⟩] := by
    decide +kernel
  have place : positionAt "😀 a" 5 = ⟨0, 3⟩ := by decide
  have name : IsBoundary "😀 a" 5 := ⟨['😀', ' '], ['a'], rfl, rfl⟩
  have space : IsBoundary "😀 a" 4 := ⟨['😀'], [' ', 'a'], rfl, rfl⟩
  obtain ⟨words, spelled, text⟩ := (hover_names_token "😀 a" 5 name).1
    ⟨.identifier, "a", ⟨5, 6, 1⟩, none⟩ (by rw [tokens]; decide) (by decide) (by decide)
  have none : words = [] := List.eq_nil_iff_forall_not_mem.mpr fun w listed =>
    (keyword_ne ((spelled w).mp listed)).2 rfl
  rw [place, none] at text
  exact ⟨place, text, (hover_names_token "😀 a" 4 space).2 (by rw [tokens]; decide)⟩

end TwoScript
