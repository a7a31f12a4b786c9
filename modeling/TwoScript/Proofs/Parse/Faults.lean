import TwoScript.Compile
import TwoScript.Proofs.Parse.Derivation
import TwoScript.Proofs.Parse.Placeholder
import TwoScript.Proofs.Token.Extent

/-!
# No fault is passed over

A statement that was read has taken no invalid token, and neither have the sources of its
templates, however deep. So an invalid token always lies in a placeholder, and a text that
was compiled has none anywhere: `faults_surface`.
-/

namespace TwoScript

/-- Tokens that are made while a source is read: its own, or those of a source inside a
template among such tokens. -/
inductive TokensMade (source : String) : List Token → Prop where
  | whole : TokensMade source (tokenize source)
  | inside {ts : List Token} {t : Token} {place : Place} {cs : List Char}
      (outer : TokensMade source ts) (member : t ∈ ts) (template : t.kind = .template)
      (segment : .source place cs ∈
        templateSegments ⟨t.span.start + 1, t.span.line⟩ (Grammar.templateBody t)) :
      TokensMade source (tokensFrom place cs)

inductive Token.Sound : Token → Prop where
  | intro {t : Token} (valid : t.kind.fault? = none)
      (inside : t.kind = .template → ∀ place cs, .source place cs ∈
        templateSegments ⟨t.span.start + 1, t.span.line⟩ (Grammar.templateBody t) →
        ∀ u ∈ tokensFrom place cs, u.Sound) : t.Sound

/-! ## Passing tokens -/

theorem Token.Sound.of_isOrdinary {t : Token} (ordinary : t.kind.isOrdinary = true) : t.Sound := by
  refine .intro ?_ fun template => ?_
  · cases kind : t.kind <;> simp_all [Kind.isOrdinary, Kind.fault?]
  · rw [template] at ordinary
    cases ordinary

def Cursor.Clears (c c' : Cursor) : Prop :=
  c.Lexed → c'.Lexed ∧ ∃ ts, c.ahead = ts ++ c'.ahead ∧ ∀ t ∈ ts, t.Sound

theorem Cursor.Clears.next {c : Cursor}
    (sound : c.Lexed → c.peek.kind ≠ .endOfFile ∧ c.peek.Sound) : c.Clears c.next := by
  intro lexed
  obtain ⟨inner, sound⟩ := sound lexed
  refine ⟨lexed.next, [c.peek], ahead_eq_cons inner, ?_⟩
  simpa using sound

/-- A keyword is no fault and no template, wherever it is taken for a name. -/
theorem isOrdinary_of_keyword {t : Shape} (lexed : t.Lexed)
    (keyword : (keyword? t.text).isSome = true) : t.kind.isOrdinary = true := by
  obtain ⟨c, cs, rfl⟩ := lexed
  obtain ⟨kind, found⟩ := Option.isSome_iff_exists.mp keyword
  have same : (Lexeme.read c cs).shape.kind = kind := read_kind_of_keyword found
  obtain ⟨⟨script, k⟩, entry, rfl⟩ := Option.map_eq_some_iff.mp found
  have spelled := spellings_isSpelled script _ (mem_spellings_of_lookup entry)
  rw [same]
  cases k <;> simp_all [Kind.isSpelled, Kind.isOrdinary]

/-- A source that was read to its end holds sound tokens only. -/
theorem Cursor.Clears.sound_tokensFrom {place : Place} {cs : List Char} {c' : Cursor}
    (h : Clears (.ofTokens (tokensFrom place cs)) c') (ended : c'.ahead = []) :
    ∀ t ∈ tokensFrom place cs, t.Sound := by
  obtain ⟨ts, whole, _⟩ := exists_tokensFrom place cs
  obtain ⟨_, us, ahead, sound⟩ := h (ofTokens_tokensFrom place cs).2.2
  rw [(ofTokens_eq whole).1, ended, List.append_nil] at ahead
  intro t member
  rw [whole, List.mem_append, List.mem_singleton] at member
  rcases member with before | rfl
  · exact sound t (ahead ▸ before)
  · exact .intro rfl fun template => nomatch template

theorem passage_clears : Passage Cursor.Clears where
  refl c lexed := ⟨lexed, [], rfl, by simp⟩
  trans first second lexed := by
    obtain ⟨lexed₁, ts, ahead, sound⟩ := first lexed
    obtain ⟨lexed₂, us, ahead₁, sound₁⟩ := second lexed₁
    refine ⟨lexed₂, ts ++ us, by rw [ahead, ahead₁, List.append_assoc], fun t member => ?_⟩
    rcases List.mem_append.mp member with before | behind
    · exact sound t before
    · exact sound₁ t behind
  token := by
    rintro c _ rfl ordinary
    refine .next fun _ => ⟨fun ends => ?_, .of_isOrdinary ordinary⟩
    rw [ends] at ordinary
    cases ordinary
  property := by
    intro c keyword
    refine .next fun lexed => ?_
    have inner := lexed.ne_end_of_property (Shape.isProperty_iff.mpr (.inr keyword))
    exact ⟨inner, .of_isOrdinary (isOrdinary_of_keyword (lexed.peek inner) keyword)⟩
  template := by
    intro c begins sources
    refine .next fun _ => ⟨by simp [begins], .intro (by simp [begins, Kind.fault?]) ?_⟩
    intro _ place cs segment
    obtain ⟨c', clears, ended⟩ := sources place cs segment
    exact clears.sound_tokensFrom ended

/-! ## Programs -/

/-- A statement without an error took sound tokens only. -/
theorem StatementRead.sound {room : Nat} {c c' : Cursor} {s : Statement} {ts : List Token}
    (h : StatementRead (Grammar.ofRoom room) c s none c') (lexed : c.Lexed)
    (taken : c.ahead = ts ++ c'.ahead) : ∀ t ∈ ts, t.Sound := by
  cases h with
  | parsed read _ =>
      have node := (Grammar.derives_ofRoom passage_clears room).statement read
      obtain ⟨_, us, ahead, sound⟩ := node.passes passage_clears lexed
      rw [taken] at ahead
      rwa [List.append_cancel_right ahead]

theorem Token.Sound.of_made {source : String} (whole : ∀ t ∈ tokenize source, t.Sound)
    {ts : List Token} (made : TokensMade source ts) : ∀ t ∈ ts, t.Sound := by
  induction made with
  | whole => exact whole
  | inside _ member template segment ih =>
      cases ih _ member with
      | intro _ inside => exact inside template _ _ segment

/-- Every invalid token of a source lies inside a placeholder, and a source that is compiled
has no invalid token, neither itself nor in any source inside its templates. -/
theorem faults_surface (source : String) :
    (∀ t ∈ tokenize source, ∀ fault, t.kind = .invalid fault →
      ∃ s ∈ (parse source).statements, s.isFailed = true ∧
        s.span.start ≤ t.span.start ∧ t.span.stop ≤ s.span.stop) ∧
    ∀ options code, compile options source = .ok code → ∀ ts, TokensMade source ts →
      ∀ t ∈ ts, ∀ fault, t.kind ≠ .invalid fault := by
  have progress : Grammar.full.Progresses := Grammar.progresses_ofRoom maxNesting
  have begins := Cursor.begins_tokenize source
  have lexed : (Cursor.ofTokens (tokenize source)).Lexed :=
    (Cursor.ofTokens_tokensFrom .first source.toList).2.2
  obtain ⟨ps, run, program⟩ := program_steps (tokenize source)
  -- The tokens of a step are sound unless its statement failed.
  have sound : ∀ p ∈ ps, p.error = none → ∀ t ∈ p.tokens, t.Sound := by
    intro p member read
    obtain ⟨c₁, c₂, there, step, taken⟩ := run.exists_step progress member
    rw [read] at step
    exact step.sound (there.lexed lexed) taken
  constructor
  · intro t member fault invalid
    obtain ⟨p, taken, within⟩ := (run.mem_tokens begins).mpr ⟨member, by simp [invalid]⟩
    have encloses := (run.frames progress begins.ordered p taken).2.2 t within
    refine ⟨p.statement, ?_, ?_, encloses⟩
    · rw [parse, program]
      exact List.mem_map_of_mem taken
    · rw [← run.isSome_eq progress p taken]
      cases error : p.error with
      | some e => rfl
      | none =>
          cases sound p taken error t within with
          | intro valid _ => simp [invalid, Kind.fault?] at valid
  · intro options code compiled ts made t member fault invalid
    have errors : ps.filterMap ProgramStep.error = [] := by
      have ok := (compile_eq_ok compiled).1
      rw [parse, program] at ok
      exact List.isEmpty_iff.mp ok
    have whole : ∀ t ∈ tokenize source, t.Sound := by
      intro t member
      by_cases inner : t.kind = .endOfFile
      · exact .intro (by simp [inner, Kind.fault?]) (by simp [inner])
      · obtain ⟨p, taken, within⟩ := (run.mem_tokens begins).mpr ⟨member, inner⟩
        exact sound p taken (List.filterMap_eq_nil_iff.mp errors p taken) t within
    cases Token.Sound.of_made whole made t member with
    | intro valid _ => simp [invalid, Kind.fault?] at valid

def nestedTemplate : String :=
  "`$\x7b`$\x7bx\x7d`\x7d`;"

/-- A string that is left open makes a placeholder, and templates inside one another are
compiled, with sound tokens in the innermost source. -/
theorem faults_surface_nested :
    (∃ t ∈ tokenize "a; 'b", t.kind = .invalid .unterminatedString ∧
      ∃ s ∈ (parse "a; 'b").statements, s.isFailed = true ∧
        s.span.start ≤ t.span.start ∧ t.span.stop ≤ s.span.stop) ∧
    ∃ code, compile ⟨2, false⟩ nestedTemplate = .ok code ∧
      TokensMade nestedTemplate (tokensFrom ⟨6, 1⟩ ['x']) ∧
      ∀ t ∈ tokensFrom ⟨6, 1⟩ ['x'], ∀ fault, t.kind ≠ .invalid fault := by
  have faulty : tokenize "a; 'b" =
      [⟨.identifier, "a", ⟨0, 1, 1⟩, none⟩, ⟨.semicolon, ";", ⟨1, 2, 1⟩, none⟩,
        ⟨.invalid .unterminatedString, "'b", ⟨3, 5, 1⟩, none⟩, endToken ⟨5, 1⟩] := by
    decide +kernel
  have outer : tokenize nestedTemplate =
      [⟨.template, "`$\x7b`$\x7bx\x7d`\x7d`", ⟨0, 11, 1⟩,
          some (.string "$\x7b`$\x7bx\x7d`\x7d")⟩,
        ⟨.semicolon, ";", ⟨11, 12, 1⟩, none⟩, endToken ⟨12, 1⟩] := by
    decide +kernel
  have inner : tokensFrom ⟨3, 1⟩ "`$\x7bx\x7d`".toList =
      [⟨.template, "`$\x7bx\x7d`", ⟨3, 9, 1⟩, some (.string "$\x7bx\x7d")⟩, endToken ⟨9, 1⟩] := by
    decide +kernel
  have read : parse nestedTemplate =
      ⟨[.expression ⟨0, 12, 1⟩ (.template ⟨0, 11, 1⟩
        [.expr (.template ⟨3, 9, 1⟩ [.expr (.ident ⟨6, 7, 1⟩ "x")])])], []⟩ := by
    with_unfolding_all rfl
  have compiled : compile ⟨2, false⟩ nestedTemplate = .ok (nestedTemplate ++ "\n") := by
    rw [compile, read]
    rfl
  have made : TokensMade nestedTemplate (tokensFrom ⟨6, 1⟩ ['x']) := by
    have once : TokensMade nestedTemplate (tokensFrom ⟨3, 1⟩ "`$\x7bx\x7d`".toList) :=
      .inside .whole (outer ▸ List.mem_cons_self) rfl (by decide)
    exact .inside once (inner ▸ List.mem_cons_self) rfl (by decide)
  have invalid : ⟨.invalid .unterminatedString, "'b", ⟨3, 5, 1⟩, none⟩ ∈ tokenize "a; 'b" := by
    simp [faulty]
  refine ⟨⟨_, invalid, rfl, (faults_surface "a; 'b").1 _ invalid _ rfl⟩, _, compiled, made, ?_⟩
  exact (faults_surface nestedTemplate).2 _ _ compiled _ made

end TwoScript
