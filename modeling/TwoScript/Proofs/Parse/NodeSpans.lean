import TwoScript.Proofs.Parse.Coverage
import TwoScript.Proofs.Parse.Derivation
import TwoScript.Proofs.Token.Sources

/-!
# Spans of nodes

The spans of a tree nest: a node lies inside its parent, and children follow each other.
Outside templates every span begins and ends with a token and knows its line. Inside a
template offsets count the resolved text, so that they may fall short of the source, but
never leave the template; where nothing is escaped they are exact.
-/

namespace TwoScript

/-! ## Rows of spans -/

/-- Spans that go forward and follow each other between two offsets. -/
def Row (low high : Nat) : List Span → Prop
  | [] => low ≤ high
  | s :: ss => low ≤ s.start ∧ s.start ≤ s.stop ∧ Row s.stop high ss

namespace Row

variable {low high : Nat} {ss : List Span}

theorem le (h : Row low high ss) : low ≤ high := by
  induction ss generalizing low with
  | nil => exact h
  | cons s ss ih =>
      obtain ⟨first, forward, rest⟩ := h
      have := ih rest
      omega

theorem wider {low' high' : Nat} (h : Row low high ss) (before : low' ≤ low)
    (behind : high ≤ high') : Row low' high' ss := by
  induction ss generalizing low low' with
  | nil =>
      have : low ≤ high := h
      show low' ≤ high'
      omega
  | cons s ss ih =>
      obtain ⟨first, forward, rest⟩ := h
      exact ⟨by omega, forward, ih rest (Nat.le_refl _)⟩

theorem inside (h : Row low high ss) : ∀ s ∈ ss, low ≤ s.start ∧ s.stop ≤ high := by
  induction ss generalizing low with
  | nil => nofun
  | cons s ss ih =>
      obtain ⟨first, forward, rest⟩ := h
      intro t member
      rcases List.mem_cons.mp member with rfl | later
      · exact ⟨first, rest.le⟩
      · obtain ⟨start, stop⟩ := ih rest t later
        exact ⟨by omega, stop⟩

theorem apart (h : Row low high ss) : ss.Pairwise fun s t => s.stop ≤ t.start := by
  induction ss generalizing low with
  | nil => exact .nil
  | cons s ss ih =>
      obtain ⟨_, _, rest⟩ := h
      exact List.pairwise_cons.mpr ⟨fun t later => (rest.inside t later).1, ih rest⟩

end Row

/-- The span of a node goes forward, those of its children lie in it and follow each other. -/
structure Node.Nests (n : Node) : Prop where
  forward : n.span.start ≤ n.span.stop
  inside : ∀ m ∈ n.children, n.span.start ≤ m.span.start ∧ m.span.stop ≤ n.span.stop
  apart : n.children.Pairwise fun m k => m.span.stop ≤ k.span.start

theorem Node.Nests.of_row {n : Node} (h : Row n.span.start n.span.stop (n.children.map Node.span)) :
    n.Nests :=
  ⟨h.le, fun m member => h.inside m.span (List.mem_map_of_mem member),
    List.pairwise_map.mp h.apart⟩

/-- All that is below a node lies in it, if every node nests. -/
theorem Node.Below.inside {n m : Node} (below : n.Below m)
    (nests : ∀ k, k = n ∨ n.Below k → k.Nests) :
    n.span.start ≤ m.span.start ∧ m.span.stop ≤ n.span.stop := by
  induction below with
  | child member => exact (nests n (.inl rfl)).inside _ member
  | @deeper m k between member ih =>
      have outer := ih
      have inner := (nests m (.inr between)).inside k member
      omega

/-! ## Cursors whose templates fit -/

/-- The tokens ahead follow each other, and the values of templates fit between their
backticks. -/
structure Cursor.Fits (c : Cursor) : Prop where
  ordered : c.Ordered
  templates : ∀ t ∈ c.ahead, t.kind = .template →
    t.span.start + 1 + byteLength (Grammar.templateBody t) ≤ t.span.stop

theorem Cursor.mem_ahead_of_reaches {c c' : Cursor} (h : c.Reaches c') {t : Token}
    (member : t ∈ c'.ahead) : t ∈ c.ahead := by
  obtain ⟨ts, taken⟩ := h
  exact taken.mem_ahead member

theorem Cursor.tokens_of_ofTokens (p : Place) (cs : List Char) :
    (ofTokens (tokensFrom p cs)).ahead ++ [(ofTokens (tokensFrom p cs)).final] =
      tokensFrom p cs := by
  obtain ⟨ts, whole, _⟩ := exists_tokensFrom p cs
  obtain ⟨ahead, final⟩ := ofTokens_eq whole
  rw [ahead, final, whole]

theorem Cursor.fits_tokensFrom (p : Place) (cs : List Char) :
    (ofTokens (tokensFrom p cs)).Fits := by
  obtain ⟨frame, apart⟩ := frame_tokensFrom p cs
  have whole := tokens_of_ofTokens p cs
  refine ⟨⟨fun t member => ?_, by rwa [whole]⟩, fun t member template => ?_⟩
  · rw [whole] at member
    obtain ⟨_, long, _⟩ := frame t member
    omega
  · have lexed : t ∈ tokensFrom p cs := whole ▸ List.mem_append_left _ member
    obtain ⟨body, text, scans, value⟩ := body_of_template lexed template
    obtain ⟨_, long, _⟩ := frame t lexed
    have short := scans.byteLength_templateValue
    rw [text, String.toList_ofList, List.cons_append, byteLength_cons, byteLength_append] at long
    have mark : '`'.utf8Size = 1 := rfl
    rw [value]
    omega

theorem Cursor.fits_inherited : Inherited Fits where
  reaches fits there :=
    ⟨fits.ordered.reaches there,
      fun t member => fits.templates t (mem_ahead_of_reaches there member)⟩
  enters _ _ _ := fits_tokensFrom _ _

/-! ## Spans from derivations -/

section

variable {n : Node} {ns : List Node} {c c' : Cursor}

/-- A node goes from the first token to the last one. -/
theorem Node.Read.bounds (h : n.Read Cursor.Reaches c c') (ordered : c.Ordered) :
    ∃ t, c'.previous = some t ∧ n.span.start = c.span.start ∧ n.span.stop = t.span.stop ∧
      n.span.line = c.span.line ∧ c.span.stop ≤ t.span.stop ∧ t.span.stop ≤ c'.span.start := by
  obtain ⟨t, last, first, next⟩ := ordered.last h.advances
  have forward := ordered.span_forward
  have span := h.span_eq ordered
  rw [Cursor.spanFrom_of_previous last (by omega)] at span
  exact ⟨t, last, by rw [span], by rw [span], by rw [span], first, next⟩

/-- Nodes that were read one behind the other follow each other. -/
theorem Laid.row (h : Node.RowRead Cursor.Reaches ns c c') (ordered : c.Ordered) {low high : Nat}
    (before : low ≤ c.span.start) (long : low ≤ high)
    (behind : ∀ t, c'.previous = some t → t.span.stop ≤ high) :
    Row low high (ns.map Node.span) := by
  induction h generalizing low with
  | nil => exact long
  | @cons n ns c c₁ c₂ c' gap first rest ih =>
      have ordered₁ := ordered.reaches gap
      have ordered₂ := ordered₁.advances first.advances
      have between := ordered.start_le gap
      have forward := ordered₁.span_forward
      obtain ⟨t, last, start, stop, _, reach, next⟩ := first.bounds ordered₁
      have within : t.span.stop ≤ high := by
        rcases (rest.reaches fun _ _ _ read => read.advances).eq_or_advances with rfl | further
        · exact behind t last
        · obtain ⟨u, last', reach', _⟩ := ordered₂.last further
          have high := behind u last'
          have forward' := ordered₂.span_forward
          omega
      exact ⟨by omega, by omega, ih ordered₂ (by omega) (by omega) behind⟩

/-- What was read from the tokens of a text lies in that text. -/
theorem Node.Read.inside_text {p : Place} {cs : List Char}
    (h : n.Read Cursor.Reaches (.ofTokens (tokensFrom p cs)) c') :
    p.offset ≤ n.span.start ∧ n.span.start ≤ n.span.stop ∧
      n.span.stop ≤ p.offset + byteLength cs := by
  obtain ⟨frame, _⟩ := frame_tokensFrom p cs
  have whole := Cursor.tokens_of_ofTokens p cs
  have ordered := (Cursor.fits_tokensFrom p cs).ordered
  have there := h.advances
  obtain ⟨t, _, start, stop, _, reach, next⟩ := h.bounds ordered
  generalize Cursor.ofTokens (tokensFrom p cs) = c at *
  have first := (frame c.peek (whole ▸ c.peek_mem)).1
  have last := (frame c.final (whole ▸ List.mem_append_right _ List.mem_cons_self)).2.2.1
  have forward := ordered.span_forward
  have ordered' := ordered.advances there
  have forward' := ordered'.span_forward
  have final := ordered'.span_le_final
  rw [there.reaches.final_eq] at final
  rw [Cursor.span] at *
  omega

/-- The expressions of a template follow each other as their sources do. -/
theorem PartsRead.row {segments : List Segment} {parts : List Part} {value before : List Char}
    {here : Place} (h : PartsRead (Node.Read Cursor.Reaches) segments parts)
    (sited : Sited value here before segments) (part : byteLength before ≤ byteLength value) :
    Row (here.offset + byteLength before) (here.offset + byteLength value)
      ((parts.flatMap Part.nodes).map Node.span) := by
  induction h generalizing before with
  | nil => exact Nat.add_le_add_left part _
  | text _ ih =>
      cases sited with
      | text rest => exact ih rest part
  | @source _ cs e _ _ _ first _ _ ih =>
      cases sited with
      | @source _ gap _ after _ whole rest =>
          have inside := first.inside_text
          have lengths := congrArg byteLength whole
          simp only [byteLength_append, Place.after] at lengths inside
          have others := ih rest (by simp only [byteLength_append]; omega)
          simp only [byteLength_append] at others
          obtain ⟨start, forward, stop⟩ := inside
          exact ⟨Nat.le_trans (by omega) start, forward,
            others.wider (Nat.le_trans stop (by omega)) (Nat.le_refl _)⟩

/-- Every node that was read nests. -/
theorem Node.Read.nests (h : n.Read Cursor.Reaches c c') (fits : c.Fits) : n.Nests := by
  have forward := fits.ordered.span_forward
  refine .of_row ?_
  cases h with
  | ident => exact forward
  | @template c parts begins inside =>
      have sited := sited_templateSegments ⟨c.peek.span.start + 1, c.peek.span.line⟩
        (Grammar.templateBody c.peek)
      have ahead : c.peek ∈ c.ahead := Cursor.peek_mem_ahead (by simp [begins])
      have room := fits.templates c.peek ahead begins
      exact (inside.row sited (Nat.zero_le _)).wider (Nat.le_succ _) room
  | node _ advances span children =>
      obtain ⟨t, last, reach, _⟩ := fits.ordered.last advances
      rw [span fits.ordered, Cursor.spanFrom_of_previous last (by omega)]
      refine children.row fits.ordered (Nat.le_refl _) (by show c.span.start ≤ t.span.stop; omega)
        fun u same => ?_
      rw [last] at same
      cases same
      exact Nat.le_refl _

end

/-! ## Programs -/

/-- The span of the node begins and ends with tokens of the source, and names the line that it
begins on. -/
structure Node.FramedIn (n : Node) (source : String) : Prop where
  starts : ∃ t ∈ tokenize source, t.kind ≠ .endOfFile ∧ t.span.start = n.span.start
  stops : ∃ t ∈ tokenize source, t.kind ≠ .endOfFile ∧ t.span.stop = n.span.stop
  line : ∃ before after : String, source = before ++ after ∧
    n.span.start = before.utf8ByteSize ∧ n.span.line = 1 + before.toList.count '\n'

/-- A statement of a program has a derivation, also if it failed. -/
theorem StatementRead.derivation {g : Grammar} (derives : g.Derives Cursor.Reaches) {c c' : Cursor}
    {s : Statement} {e : Option ParseError} (h : StatementRead g c s e c') :
    (Node.statement s).Read Cursor.Reaches c c' := by
  cases h with
  | parsed run _ => exact derives.statement run
  | failed further _ => exact .node rfl further (fun _ => rfl) (.nil further.reaches)

theorem exists_read_of_mem_parse {source : String} {s : Statement}
    (member : s ∈ (parse source).statements) :
    ∃ c c', (Cursor.ofTokens (tokenize source)).Reaches c ∧
      (Node.statement s).Read Cursor.Reaches c c' := by
  obtain ⟨ps, run, program⟩ := program_steps (tokenize source)
  rw [parse, program] at member
  obtain ⟨p, found, rfl⟩ := List.mem_map.mp member
  obtain ⟨c, c', there, read, _⟩ :=
    run.exists_step (Grammar.progresses_ofRoom maxNesting) found
  exact ⟨c, c', there, read.derivation (Grammar.derives_ofRoom passage_reaches maxNesting)⟩

theorem pairwise_parse (source : String) :
    (parse source).statements.Pairwise fun s t => s.span.stop ≤ t.span.start := by
  obtain ⟨ps, run, program⟩ := program_steps (tokenize source)
  rw [parse, program]
  exact run.pairwise_spans (Grammar.progresses_ofRoom maxNesting)
    (Cursor.begins_tokenize source).ordered

theorem Node.Read.framedIn {source : String} {n : Node} {c c' : Cursor}
    (h : n.Read Cursor.Reaches c c') (there : (Cursor.ofTokens (tokenize source)).Reaches c) :
    n.FramedIn source := by
  have begins := Cursor.begins_tokenize source
  obtain ⟨ts, last, ahead, previous⟩ := h.advances.exists_last
  have known : ∀ t ∈ c.ahead, t ∈ tokenize source ∧ t.kind ≠ .endOfFile := fun t member =>
    begins.mem_ahead.mp (Cursor.mem_ahead_of_reaches there member)
  have more : c.peek ∈ c.ahead := by
    refine Cursor.peek_mem_ahead fun ended => ?_
    rw [Cursor.peek_kind_eq_end.mp ended] at ahead
    simp at ahead
  obtain ⟨first, inner⟩ := known c.peek more
  obtain ⟨final, inner'⟩ := known last (by rw [ahead]; simp)
  obtain ⟨t, last', start, stop, line, _⟩ := h.bounds (begins.ordered.reaches there)
  obtain rfl := Option.some.inj (previous.symm.trans last')
  have tiles : Tiles source.toList [] (tokenize source) := tiles_tokensFrom rfl
  obtain ⟨before, after, whole, offset, _, feeds⟩ := tiles.standsIn c.peek first
  refine ⟨⟨c.peek, first, inner, start.symm⟩, ⟨last, final, inner', stop.symm⟩,
    before, c.peek.text ++ after, ?_, ?_, ?_⟩
  · rw [whole, String.append_assoc]
  · rw [start]
    exact offset
  · rw [line]
    exact feeds

/-- The statements of a program follow each other. Their spans nest at every node, also inside
templates, and lie in the source. Outside templates they begin and end with tokens and name
their lines. -/
theorem parse_spans_nest (source : String) :
    ((parse source).statements.Pairwise fun s t => s.span.stop ≤ t.span.start) ∧
    ∀ s ∈ (parse source).statements,
      (∀ n : Node, n = .statement s ∨ (Node.statement s).Below n →
        n.Nests ∧ n.span.stop ≤ source.utf8ByteSize) ∧
      ∀ n : Node, (Node.statement s).Outside n → n.FramedIn source := by
  refine ⟨pairwise_parse source, fun s member => ?_⟩
  obtain ⟨c, c', there, read⟩ := exists_read_of_mem_parse member
  have fits : c.Fits :=
    Cursor.fits_inherited.reaches (Cursor.fits_tokensFrom .first source.toList) there
  have nests : ∀ n : Node, n = .statement s ∨ (Node.statement s).Below n → n.Nests := by
    intro n inside
    obtain ⟨c₁, c₂, fits₁, read₁⟩ := read.inherited Cursor.fits_inherited fits inside
    exact read₁.nests fits₁
  have bounded : (Node.statement s).span.stop ≤ source.utf8ByteSize := by
    have begins := Cursor.begins_tokenize source
    obtain ⟨_, _, _, stop, _, _, next⟩ := read.bounds fits.ordered
    have ordered' := fits.ordered.advances read.advances
    have forward := ordered'.span_forward
    have final := ordered'.span_le_final
    rw [read.advances.reaches.final_eq, there.final_eq, begins.stop] at final
    omega
  refine ⟨fun n inside => ⟨nests n inside, ?_⟩, fun n outside => ?_⟩
  · rcases inside with rfl | below
    · exact bounded
    · have := (below.inside nests).2
      omega
  · obtain ⟨c₁, c₂, there₁, read₁, _⟩ := read.outside outside
    exact read₁.framedIn (there.trans there₁)

/-- An escape in front of a source makes its offsets fall short, but not leave the template. -/
theorem parse_spans_nest_escape :
    (parse "`\\n$\x7ba\x7d`;").statements =
      [.expression ⟨0, 9, 1⟩ (.template ⟨0, 8, 1⟩ [.text "\n", .expr (.ident ⟨4, 5, 2⟩ "a")])] ∧
    (Node.expr (.template ⟨0, 8, 1⟩ [.text "\n", .expr (.ident ⟨4, 5, 2⟩ "a")])).Nests ∧
    (Node.expr (.template ⟨0, 8, 1⟩ [.text "\n", .expr (.ident ⟨4, 5, 2⟩ "a")])).FramedIn
      "`\\n$\x7ba\x7d`;" := by
  have program : (parse "`\\n$\x7ba\x7d`;").statements =
      [.expression ⟨0, 9, 1⟩ (.template ⟨0, 8, 1⟩
        [.text "\n", .expr (.ident ⟨4, 5, 2⟩ "a")])] := by
    with_unfolding_all rfl
  have whole := (parse_spans_nest "`\\n$\x7ba\x7d`;").2 _ (program ▸ List.mem_singleton_self _)
  exact ⟨program, (whole.1 _ (.inr (.child (.head _)))).1,
    whole.2 _ (.step .refl rfl (.head _))⟩

/-! ## Templates without escapes -/

theorem Token.StandsIn.append {t : Token} {source : String} (h : t.StandsIn source)
    (more : String) : t.StandsIn (source ++ more) := by
  obtain ⟨before, after, whole, start, stop, line⟩ := h
  exact ⟨before, after ++ more, by rw [whole, String.append_assoc], start, stop, line⟩

/-- The token has its place in the source, and a template keeps its body as it was written. -/
structure Token.Exact (t : Token) (source : String) : Prop where
  stands : t.StandsIn source
  verbatim : t.kind = .template → ∃ body, t.text = String.ofList ('`' :: body ++ ['`']) ∧
    Grammar.templateBody t = body ∧ '\\' ∉ body

def Cursor.Exact (source : String) (c : Cursor) : Prop :=
  ∀ t ∈ c.ahead, t.Exact source

/-- The tokens of a stretch of the source are exact if no template among them has an escape. -/
theorem Cursor.exact_tokensFrom {source : String} {before cs after : List Char}
    (whole : source.toList = before ++ cs ++ after)
    (plain : ∀ t ∈ tokensFrom (Place.first.after before) cs, t.kind = .template →
      '\\' ∉ t.text.toList) :
    (ofTokens (tokensFrom (Place.first.after before) cs)).Exact source := by
  intro t member
  have lexed : t ∈ tokensFrom (Place.first.after before) cs :=
    tokens_of_ofTokens _ _ ▸ List.mem_append_left _ member
  have tiles : Tiles (String.ofList (before ++ cs)).toList before
      (tokensFrom (Place.first.after before) cs) := tiles_tokensFrom (by simp)
  have same : source = String.ofList (before ++ cs) ++ String.ofList after := by
    rw [← String.toList_inj, whole]
    simp
  refine ⟨same ▸ (tiles.standsIn t lexed).append _, fun template => ?_⟩
  obtain ⟨body, text, scans, value⟩ := body_of_template lexed template
  have none := plain t lexed template
  rw [text, String.toList_ofList] at none
  have bare : '\\' ∉ body := fun found => none (by simp [found])
  exact ⟨body, text, by rw [value, scans.templateValue_eq bare], bare⟩

/-- The sources of a template without escapes are stretches of the source. -/
theorem Cursor.exact_inherited (source : String) : Inherited (Exact source) where
  reaches exact there t member := exact t (mem_ahead_of_reaches there member)
  enters {c place cs} exact begins found := by
    have ahead : c.peek ∈ c.ahead := peek_mem_ahead (by simp [begins])
    obtain ⟨⟨before, after, whole, start, _, line⟩, verbatim⟩ := exact c.peek ahead
    obtain ⟨body, text, value, bare⟩ := verbatim begins
    obtain ⟨left, right, split, rfl⟩ := (sited_templateSegments _ _).mem found
    rw [value] at split
    have here : (⟨c.peek.span.start + 1, c.peek.span.line⟩ : Place) =
        Place.first.after (before.toList ++ ['`']) := by
      have mark : '`'.utf8Size = 1 := rfl
      rw [start, line, ← byteLength_toList]
      simp [Place.after, Place.first, lineFeeds, mark]
    rw [here, ← Place.after_append]
    have stretch : source.toList =
        (before.toList ++ ['`'] ++ left) ++ cs ++ (right ++ '`' :: after.toList) := by
      rw [whole, text, split]
      simp
    refine exact_tokensFrom stretch fun t lexed _ escape => ?_
    have inside := ((frame_tokensFrom _ cs).1 t lexed).2.2.2 _ escape
    exact bare (by rw [split]; simp [inside])

/-- If no template of a source has an escape, every name in its program stands in the source
where its span says, at any depth inside templates. -/
theorem parse_names_exact (source : String)
    (plain : ∀ t ∈ tokenize source, t.kind = .template → '\\' ∉ t.text.toList) :
    ∀ s ∈ (parse source).statements, ∀ span name,
      (Node.statement s).Below (.expr (.ident span name)) →
        ∃ before after : String, source = before ++ name ++ after ∧
          span.start = before.utf8ByteSize ∧ span.stop = (before ++ name).utf8ByteSize ∧
          span.line = 1 + before.toList.count '\n' := by
  intro s member span name below
  obtain ⟨c, c', there, read⟩ := exists_read_of_mem_parse member
  have inherits := Cursor.exact_inherited source
  have whole : source.toList = [] ++ source.toList ++ [] := by simp
  have start : (Cursor.ofTokens (tokenize source)).Exact source :=
    Cursor.exact_tokensFrom whole plain
  obtain ⟨c₁, c₂, exact₁, read₁⟩ :=
    read.inherited inherits (inherits.reaches start there) (.inr below)
  cases read₁ with
  | ident begins =>
      exact (exact₁ c₁.peek (Cursor.peek_mem_ahead (by simp [begins]))).stands
  | node token => cases token

/-- A name inside a template that is itself inside a template. -/
theorem parse_names_exact_nested :
    (∀ t ∈ tokenize "x;\n`$\x7b`$\x7ba\x7d`\x7d`;", t.kind = .template → '\\' ∉ t.text.toList) ∧
    ∃ s ∈ (parse "x;\n`$\x7b`$\x7ba\x7d`\x7d`;").statements,
      (Node.statement s).Below (.expr (.ident ⟨9, 10, 2⟩ "a")) ∧
      ∃ before after : String, "x;\n`$\x7b`$\x7ba\x7d`\x7d`;" = before ++ "a" ++ after ∧
        9 = before.utf8ByteSize ∧ 10 = (before ++ "a").utf8ByteSize ∧
        2 = 1 + before.toList.count '\n' := by
  have plain : ∀ t ∈ tokenize "x;\n`$\x7b`$\x7ba\x7d`\x7d`;", t.kind = .template →
      '\\' ∉ t.text.toList := by
    have all : (tokenize "x;\n`$\x7b`$\x7ba\x7d`\x7d`;").all
        (fun t => !t.text.toList.contains '\\') := by
      decide +kernel
    intro t member _
    simpa using List.all_eq_true.mp all t member
  have program : (parse "x;\n`$\x7b`$\x7ba\x7d`\x7d`;").statements =
      [.expression ⟨0, 2, 1⟩ (.ident ⟨0, 1, 1⟩ "x"),
        .expression ⟨3, 15, 2⟩ (.template ⟨3, 14, 2⟩
          [.expr (.template ⟨6, 12, 2⟩ [.expr (.ident ⟨9, 10, 2⟩ "a")])])] := by
    with_unfolding_all rfl
  have member := program ▸ List.mem_cons_of_mem _ (List.mem_singleton_self _)
  have below : (Node.statement (.expression ⟨3, 15, 2⟩ (.template ⟨3, 14, 2⟩
      [.expr (.template ⟨6, 12, 2⟩ [.expr (.ident ⟨9, 10, 2⟩ "a")])]))).Below
      (.expr (.ident ⟨9, 10, 2⟩ "a")) :=
    .deeper (.deeper (.child (.head _)) (.head _)) (.head _)
  exact ⟨plain, _, member, below, parse_names_exact _ plain _ member _ _ below⟩

end TwoScript
