import TwoScript.Proofs.Parse.Recovery
import TwoScript.Proofs.Parse.Room
import TwoScript.Proofs.Token.Braces

/-!
# Expressions inside templates

Every expression can be put between the braces of a source and be read there as it is
read alone. The scanner of templates knows nothing of tokens: that it finds the right end
rests on the braces of an expression being balanced, and that the tree is the same one on
the levels that are left inside the template.
-/

namespace TwoScript

/-! ## Balanced braces -/

/-- The cursor stands inside the tokens `whole`, behind some that lead from `start` open
braces to `depth`. -/
def BracesOpen (whole : List Token) (start depth : Nat) (c : Cursor) : Prop :=
  ∃ ts, whole = ts ++ c.ahead ∧ bracesBehind start (ts.map Token.kind) = some depth

namespace BracesOpen

variable {whole : List Token} {start depth : Nat} {c : Cursor}

theorem begin (c : Cursor) (start : Nat) : BracesOpen c.ahead start start c :=
  ⟨[], rfl, rfl⟩

theorem next {behind : Nat} (h : BracesOpen whole start depth c)
    (inner : c.peek.kind ≠ .endOfFile) (step : c.peek.kind.bracesBehind depth = some behind) :
    BracesOpen whole start behind c.next := by
  obtain ⟨ts, rfl, count⟩ := h
  refine ⟨ts ++ [c.peek], ?_, ?_⟩
  · rw [Cursor.ahead_eq_cons inner]
    simp
  · simp [bracesBehind_append, count, bracesBehind, step]

theorem next_plain (h : BracesOpen whole start depth c) (plain : c.peek.kind.isPlain = true) :
    BracesOpen whole start depth c.next := by
  apply h.next (Kind.ne_of_isPlain plain rfl)
  exact Kind.bracesBehind_of_ne depth (Kind.ne_of_isPlain plain rfl) (Kind.ne_of_isPlain plain rfl)

end BracesOpen

/-- A reading beside itself, which keeps count of the braces. -/
def Pairing.counted (whole : List Token) (start : Nat) : Pairing (View.shift 0 0) where
  rel s c d := c = d ∧ c.Lexed ∧ BracesOpen whole start s.depth c
  extra := 0
  length h := by rw [h.1]; rfl
  peek h := by
    rw [h.1]
    exact View.tokens_of_shape rfl (fun _ => rfl) rfl
  plain h kind := ⟨by rw [h.1], h.2.1.next, h.2.2.next_plain kind⟩
  opens h kind := ⟨by rw [h.1], h.2.1.next, h.2.2.next (by simp [kind]) (by rw [kind]; rfl)⟩
  closes h kind := ⟨by rw [h.1], h.2.1.next, h.2.2.next (by simp [kind]) (by rw [kind]; rfl)⟩
  ends h kind := ⟨by rw [h.1], h.2.1.next, h.2.2.next (by simp [kind]) (by rw [kind]; rfl)⟩
  inner h := h
  anew h := h
  finish h := h
  spanFrom h same := by
    cases same
    rw [h.1]
    rfl
  dot h _ := .inl (by rw [h.1])
  property {f k c d} h mark name := by
    have behind := h.2.2.next_plain (by rw [mark]; rfl)
    have inner := h.2.1.next.ne_end_of_property (Shape.isProperty_iff.mpr name)
    have plain : c.next.peek.kind.isPlain = true := by
      rcases name with name | keyword
      · rw [name]
        rfl
      · exact (h.2.1.next.peek inner).isPlain_of_keyword keyword
    exact ⟨by rw [h.1], h.2.1.next.next, behind.next_plain plain⟩

/-- The tokens of an expression close the braces that they open, and no others. -/
theorem Grammar.expression_balanced {room : Nat} {min : Precedence} {c c' : Cursor} {e : Expr}
    (lexed : c.Lexed) (run : (ofRoom room).expression min c = .ok e c') (depth : Nat) :
    BracesOpen c.ahead depth depth c' := by
  have start : (Pairing.counted c.ahead depth).rel ⟨true, depth, false⟩ c c :=
    ⟨rfl, lexed, .begin c depth⟩
  rcases ((agrees_ofRoom _ room).expression min start).ends with
    ⟨a, b, c₁, d₁, left, _, _, there⟩ | ⟨e₁, _, c₁, _, _, left, _⟩
  · rw [run] at left
    cases left
    exact there.2.2
  · rw [run] at left
    cases left

/-- The text of an expression leaves every string and every brace as open as it was. -/
theorem Neutral.of_expression {p : Place} {cs : List Char} {room : Nat} {min : Precedence}
    {c' : Cursor} {e : Expr} (plain : uncommented cs = true)
    (sound : ∀ t ∈ shapes cs, t.kind.fault? = none ∧ t.kind ≠ .template)
    (run : (Grammar.ofRoom room).expression min (Cursor.ofTokens (tokensFrom p cs)) = .ok e c')
    (whole : c'.ahead = []) : Neutral cs := by
  intro depth
  obtain ⟨tokens, _, lexed⟩ := Cursor.ofTokens_tokensFrom p cs
  obtain ⟨ts, all, count⟩ := Grammar.expression_balanced lexed run depth
  rw [whole, List.append_nil] at all
  have kinds : (shapes cs).map Shape.kind = ts.map Token.kind := by
    rw [← tokens, all, List.map_map]
    rfl
  have walked := walk_eq_bracesBehind plain sound depth
  rw [kinds, count] at walked
  exact walked

/-! ## Templates -/

def interpolated (text : String) : String :=
  "`$\x7b" ++ text ++ "\x7d`"

theorem toList_interpolated (text : String) :
    (interpolated text).toList = '`' :: (sourceChars text.toList ++ ['`']) := by
  simp [interpolated, sourceChars]

def interpolatedToken (text : String) : Token where
  kind := .template
  text := interpolated text
  span := Place.first.span (interpolated text).toList
  literal := some (.string (String.ofList (sourceChars text.toList)))

theorem tokenize_interpolated {text : String} (neutral : Neutral text.toList) :
    tokenize (interpolated text) =
      [interpolatedToken text] ++ [endToken (Place.first.after (interpolated text).toList)] := by
  have resolved : templateValue .text (sourceChars text.toList) = sourceChars text.toList := by
    simpa [templateValue] using templateValue_source neutral []
  have lexeme := Lexeme.read_backtick [] (fun rest _ => splitTemplate_source neutral rest) resolved
  rw [tokenize, toList_interpolated, tokensFrom_cons _ rfl, lexeme, tokensFrom_nil]
  simp [Lexeme.token, interpolatedToken, toList_interpolated, ← String.toList_inj]

theorem templateSegments_sourceChars {cs : List Char} (neutral : Neutral cs) (here : Place) :
    templateSegments here (sourceChars cs) = [.source (here.after ['$', '{']) cs] := by
  obtain ⟨there, same⟩ := segments_source neutral [] here here
  rw [List.append_nil] at same
  rw [templateSegments, same]
  rfl

/-- An expression is read alike in every place, with spans that move along. -/
theorem Grammar.interpolation_shift {room : Nat} {p : Place} {cs : List Char} {e : Expr}
    (bytes lines : Nat) (h : (ofRoom room).interpolation p cs = .ok e) :
    (ofRoom room).interpolation (p.shift bytes lines) cs =
      .ok (e.relabel (.shift bytes lines)) := by
  have moved : (View.shift bytes lines).places p (p.shift bytes lines) := rfl
  have same := (agrees_ofRoom (View.shift bytes lines) room).interpolation cs moved
  rw [h] at same
  cases run : (ofRoom room).interpolation (p.shift bytes lines) cs with
  | error e' =>
      rw [run] at same
      cases same
  | ok e' =>
      rw [run] at same
      have equal : e.relabel (.shift bytes lines) = e'.relabel .same := Except.ok.inj same
      rw [equal, Expr.relabel_same]

/-- A template with a source alone is read by reading the source, which begins behind a
backtick, a dollar sign and a brace. -/
theorem Grammar.operand_interpolated {g : Grammar} {c : Cursor} {text : String} {e : Expr}
    (neutral : Neutral text.toList) (first : c.peek = interpolatedToken text)
    (inside : g.interpolation (Place.first.shift 3 0) text.toList = .ok e) :
    g.operand c = .ok (.template (interpolatedToken text).span [.expr e]) c.next := by
  have body : templateBody (interpolatedToken text) = sourceChars text.toList := by
    simp [templateBody, interpolatedToken]
  have parts : (templateSegments ⟨1, 1⟩ (sourceChars text.toList)).mapM g.part =
      .ok [.expr e] := by
    have place : (⟨1, 1⟩ : Place).after ['$', '{'] = Place.first.shift 3 0 := by decide
    rw [templateSegments_sourceChars neutral, place]
    exact parts_ok_cons.mpr ⟨.expr e, [], part_source_ok.mpr ⟨e, inside, rfl⟩, rfl, rfl⟩
  refine operand_ok.mpr (.inr (.inl ⟨by rw [first]; rfl, ?_⟩))
  refine template_ok.mpr ⟨[.expr e], ?_, by rw [first], rfl⟩
  rw [first, body]
  exact parts

/-- Nothing follows an operand at the end of the input. -/
theorem Grammar.chain_of_operand {g : Grammar} {room : Nat} {c c' : Cursor} {e : Expr}
    (run : g.operand c = .ok e c') (ended : c'.ahead = []) :
    g.chain room .lowest c = .ok e c' := by
  have stops : g.extend room .lowest ⟨e, e.height⟩ c' = .ok none c' := by
    refine extend_ok.mpr (.inl ⟨?_, rfl, rfl⟩)
    rw [Cursor.peek_kind_eq_end.mpr ended]
    decide
  exact chain_ok.mpr ⟨e, c', run, _, c', (Parser.Grows.done stops).iterate_ok, rfl, rfl⟩

/-- An expression that was read alone, without comments and without templates of its own, is
read alike between the braces of a template: the template is one token, and its one part is
the same tree, three bytes further on. -/
theorem expression_interpolated (text : String) (e : Expr) (c' : Cursor)
    (plain : uncommented text.toList = true)
    (sound : ∀ t ∈ tokenize text, t.kind.fault? = none ∧ t.kind ≠ .template)
    (read : (Cursor.ofTokens (tokenize text)).expression = .ok e c') (whole : c'.ahead = [])
    (low : e.height ≤ 100) :
    ∃ t ends, tokenize (interpolated text) = [t, ends] ∧ t.kind = .template ∧
      t.text = interpolated text ∧ ends.kind = .endOfFile ∧
      ∃ c'', (Cursor.ofTokens (tokenize (interpolated text))).expression =
          .ok (.template t.span [.expr (e.relabel (.shift 3 0))]) c'' ∧ c''.ahead = [] := by
  have valid : ∀ t ∈ shapes text.toList, t.kind.fault? = none ∧ t.kind ≠ .template := by
    obtain ⟨ts, tokens, same⟩ := exists_tokensFrom .first text.toList
    intro t member
    obtain ⟨u, found, rfl⟩ := List.mem_map.mp (same ▸ member)
    exact sound u (by rw [tokenize, tokens]; exact List.mem_append_left _ found)
  have neutral : Neutral text.toList := .of_expression plain valid read whole
  -- Inside the template one level less is left, which is more than the tree needs.
  have inside : (Grammar.ofRoom 255).interpolation (Place.first.shift 3 0) text.toList =
      .ok (e.relabel (.shift 3 0)) := by
    have room : e.levels < 255 := Nat.lt_of_le_of_lt e.levels_le (by omega)
    have lower := (Grammar.extends_ofRoom 255 maxNesting).expression read room
    exact Grammar.interpolation_shift 3 0 (Grammar.interpolation_ok.mpr ⟨c', lower, whole⟩)
  have tokens := tokenize_interpolated neutral
  have ahead : (Cursor.ofTokens (tokenize (interpolated text))).ahead = [interpolatedToken text] :=
    (Cursor.ofTokens_eq tokens).1
  have operand := Grammar.operand_interpolated neutral (Cursor.peek_of_cons ahead) inside
  have ended : (Cursor.ofTokens (tokenize (interpolated text))).next.ahead = [] := by
    rw [Cursor.ahead_next, ahead, List.tail_cons]
  exact ⟨_, _, tokens, rfl, rfl, rfl, _, Grammar.chain_of_operand operand ended, ended⟩

/-- A selection with a block, in which one string holds a brace, a quote and an escape, and
another one a backtick. -/
def quotingSelection : String :=
  "match \"\x7b'\\\"\" \x7b default -> \x7b return '`'; \x7d \x7d"

theorem expression_interpolated_selection :
    ∃ t ends, tokenize (interpolated quotingSelection) = [t, ends] ∧ t.kind = .template ∧
      ∃ c'', (Cursor.ofTokens (tokenize (interpolated quotingSelection))).expression =
        .ok (.template t.span [.expr (.select ⟨3, 46, 1⟩ (.literal ⟨9, 15, 1⟩ (.string "\x7b'\""))
          [⟨none, .block ⟨29, 44, 1⟩
            [.returning ⟨31, 42, 1⟩ (some (.literal ⟨38, 41, 1⟩ (.string "`")))]⟩])]) c'' := by
  have plain : uncommented quotingSelection.toList = true := by
    decide +kernel
  have tokens : tokenize quotingSelection =
      [⟨.matchWord, "match", ⟨0, 5, 1⟩, none⟩,
        ⟨.string, "\"\x7b'\\\"\"", ⟨6, 12, 1⟩, some (.string "\x7b'\"")⟩,
        ⟨.leftBrace, "\x7b", ⟨13, 14, 1⟩, none⟩, ⟨.defaultWord, "default", ⟨15, 22, 1⟩, none⟩,
        ⟨.arrow, "->", ⟨23, 25, 1⟩, none⟩, ⟨.leftBrace, "\x7b", ⟨26, 27, 1⟩, none⟩,
        ⟨.returnWord, "return", ⟨28, 34, 1⟩, none⟩,
        ⟨.string, "'`'", ⟨35, 38, 1⟩, some (.string "`")⟩, ⟨.semicolon, ";", ⟨38, 39, 1⟩, none⟩,
        ⟨.rightBrace, "\x7d", ⟨40, 41, 1⟩, none⟩, ⟨.rightBrace, "\x7d", ⟨42, 43, 1⟩, none⟩,
        endToken ⟨43, 1⟩] := by
    decide +kernel
  have sound : ∀ t ∈ tokenize quotingSelection, t.kind.fault? = none ∧ t.kind ≠ .template := by
    rw [tokens]
    decide
  have read : (Cursor.ofTokens (tokenize quotingSelection)).expression =
      .ok (.select ⟨0, 43, 1⟩ (.literal ⟨6, 12, 1⟩ (.string "\x7b'\""))
        [⟨none, .block ⟨26, 41, 1⟩
          [.returning ⟨28, 39, 1⟩ (some (.literal ⟨35, 38, 1⟩ (.string "`")))]⟩])
        ⟨some ⟨.rightBrace, "\x7d", ⟨42, 43, 1⟩, none⟩, [], ⟨.endOfFile, "", ⟨43, 43, 1⟩, none⟩,
          by simp, rfl⟩ := by
    rw [tokens]
    with_unfolding_all rfl
  obtain ⟨t, ends, both, kind, _, _, c'', run, _⟩ :=
    expression_interpolated _ _ _ plain sound read rfl (by decide)
  exact ⟨t, ends, both, kind, c'', run⟩

end TwoScript
