import TwoScript.Compile
import TwoScript.Proofs.Code.Labels
import TwoScript.Proofs.Parse.Agreement
import TwoScript.Proofs.Parse.Alike

/-!
# Spelling and layout

Two sources whose tokens differ only in where they stand and in how keywords and
operators are spelled are read alike and compiled alike. The view `respelling` forgets
spans, the texts that errors quote and the word that was chosen for null; all that is
left to show is that tokens of the two sources look alike in it.
-/

namespace TwoScript

/-- Two lists of tokens with the same kinds and values. Only names, and words behind a
dot, have to be spelled alike. -/
structure Respelled (ts us : List Token) : Prop where
  length : ts.length = us.length
  kind : ∀ i (h : i < ts.length) (h' : i < us.length), ts[i].kind = us[i].kind
  literal : ∀ i (h : i < ts.length) (h' : i < us.length), ts[i].literal = us[i].literal
  name : ∀ i (h : i < ts.length) (h' : i < us.length),
    ts[i].kind = .identifier → ts[i].text = us[i].text
  property : ∀ i (h : i + 1 < ts.length) (h' : i + 1 < us.length),
    ts[i].kind = .dot → ts[i + 1].text = us[i + 1].text

namespace Respelled

variable {ts us : List Token}

theorem tail {t u : Token} (h : Respelled (t :: ts) (u :: us)) : Respelled ts us where
  length := Nat.succ.inj h.length
  kind i hi hi' := h.kind (i + 1) (Nat.succ_lt_succ hi) (Nat.succ_lt_succ hi')
  literal i hi hi' := h.literal (i + 1) (Nat.succ_lt_succ hi) (Nat.succ_lt_succ hi')
  name i hi hi' := h.name (i + 1) (Nat.succ_lt_succ hi) (Nat.succ_lt_succ hi')
  property i hi hi' := h.property (i + 1) (Nat.succ_lt_succ hi) (Nat.succ_lt_succ hi')

/-- The tokens in front of the last ones. -/
theorem init {t u : Token} (h : Respelled (ts ++ [t]) (us ++ [u])) : Respelled ts us := by
  have length : ts.length = us.length := by simpa using h.length
  refine ⟨length, ?_, ?_, ?_, ?_⟩
  · intro i hi hi'
    have same := h.kind i (by simp; omega) (by simp; omega)
    rwa [List.getElem_append_left hi, List.getElem_append_left hi'] at same
  · intro i hi hi'
    have same := h.literal i (by simp; omega) (by simp; omega)
    rwa [List.getElem_append_left hi, List.getElem_append_left hi'] at same
  · intro i hi hi'
    have same := h.name i (by simp; omega) (by simp; omega)
    rwa [List.getElem_append_left hi, List.getElem_append_left hi'] at same
  · intro i hi hi'
    have same := h.property i (by simp; omega) (by simp; omega)
    rwa [List.getElem_append_left (by omega), List.getElem_append_left hi,
      List.getElem_append_left hi'] at same

end Respelled

/-! ## Words for null -/

/-- Only a word from the tables is read as null. -/
theorem keyword_of_read_null {c : Char} {cs : List Char}
    (h : (Lexeme.read c cs).kind = .nullWord) :
    keyword? (String.ofList (Lexeme.read c cs).chars) = some .nullWord := by
  cases Lexeme.manner c with
  | number _ lexeme => simp [lexeme, number_kind] at h
  | word _ lexeme =>
      rw [lexeme, word_kind] at h
      rw [lexeme]
      cases meaning : keyword? (String.ofList ((c :: cs).takeWhile isWordPart)) with
      | none => simp [meaning] at h
      | some kind =>
          rw [meaning] at h
          exact meaning.trans (congrArg some h)
  | quoted _ lexeme =>
      simp only [lexeme, Lexeme.quoted] at h
      split at h <;> cases h
  | template _ lexeme =>
      simp only [lexeme, Lexeme.template] at h
      split at h <;> cases h
  | symbol lexeme => exact absurd (lexeme cs ▸ h) (symbol_kind_ne c cs (by decide))

theorem Shape.Lexed.keyword_of_null {t : Shape} (h : t.Lexed) (null : t.kind = .nullWord) :
    keyword? t.text = some .nullWord := by
  obtain ⟨c, cs, rfl⟩ := h
  exact keyword_of_read_null null

/-! ## The view -/

/-- Spans are forgotten, and a type that is a word for null has one spelling. -/
def Labels.respelled : Labels where
  span _ := default
  type name := if keyword? name = some .nullWord then "null" else name

/-- What is left of a source when its spelling and layout are forgotten. -/
def View.respelling : View where
  left := .respelled
  right := .respelled
  text _ := ""
  places _ _ := True
  types _ _ := rfl
  merge _ _ := rfl
  stretch _ _ := rfl
  inside _ := trivial
  after _ _ := trivial
  spans _ _ := rfl

namespace View

theorem respelling_tokens {t u : Token} (kind : t.kind = u.kind) (literal : t.literal = u.literal)
    (name : t.kind = .identifier → t.text = u.text)
    (null : t.kind = .nullWord →
      keyword? t.text = some .nullWord ∧ keyword? u.text = some .nullWord) :
    respelling.Tokens t u where
  kind := kind
  literal _ := literal
  span := rfl
  text _ := rfl
  name := name
  type := by
    rintro (identifier | word)
    · rw [name identifier]
      rfl
    · show (if _ then _ else _) = if _ then _ else _
      rw [if_pos (null word).1, if_pos (null word).2]

/-- Tokens of two texts that are spelled differently look alike. -/
theorem respelling_similar {ts us : List Token} (h : Respelled ts us)
    (lexed : ∀ t ∈ ts, t.shape.Lexed) (lexed' : ∀ u ∈ us, u.shape.Lexed) (afterDot : Bool)
    (first : afterDot = true → ∀ t u, ts.head? = some t → us.head? = some u → t.text = u.text) :
    respelling.Similar afterDot ts us := by
  induction ts generalizing us afterDot with
  | nil =>
      cases us with
      | nil => trivial
      | cons u us => cases h.length
  | cons t ts ih =>
      cases us with
      | nil => cases h.length
      | cons u us =>
          have kind : t.kind = u.kind := h.kind 0 (by simp) (by simp)
          have tokens : respelling.Tokens t u := by
            refine respelling_tokens kind (h.literal 0 (by simp) (by simp))
              (h.name 0 (by simp) (by simp)) fun null => ⟨?_, ?_⟩
            · exact (lexed t (by simp)).keyword_of_null null
            · exact (lexed' u (by simp)).keyword_of_null (kind.symm.trans null)
          refine ⟨tokens, fun dot => first dot t u rfl rfl, ?_⟩
          apply ih h.tail (fun s hs => lexed s (by simp [hs])) (fun s hs => lexed' s (by simp [hs]))
          intro dot s s' next next'
          cases ts with
          | nil => cases next
          | cons a ts =>
              cases us with
              | nil => cases next'
              | cons b us =>
                  cases next
                  cases next'
                  exact h.property 0 (by simp) (by simp) (of_decide_eq_true dot)

/-- The cursors at the beginning of two such texts belong together. -/
theorem respelling_ahead {s₁ s₂ : String} (h : Respelled (tokenize s₁) (tokenize s₂)) :
    respelling.Ahead (Cursor.ofTokens (tokenize s₁)) (Cursor.ofTokens (tokenize s₂)) := by
  obtain ⟨ts, left, _⟩ := exists_tokensFrom .first s₁.toList
  obtain ⟨us, right, _⟩ := exists_tokensFrom .first s₂.toList
  obtain ⟨ahead, final⟩ := Cursor.ofTokens_eq left
  obtain ⟨ahead', final'⟩ := Cursor.ofTokens_eq right
  have lexed := (Cursor.ofTokens_tokensFrom .first s₁.toList).2.2.ahead
  have lexed' := (Cursor.ofTokens_tokensFrom .first s₂.toList).2.2.ahead
  rw [tokenize, tokenize, left, right] at h
  rw [ahead] at lexed
  rw [ahead'] at lexed'
  refine ⟨⟨false, ?_⟩, ?_, ?_⟩
  · rw [tokenize, tokenize, ahead, ahead']
    exact respelling_similar h.init lexed lexed' false (fun none => nomatch none)
  · rw [tokenize, tokenize, final, final']
    exact respelling_tokens rfl rfl (fun _ => rfl) fun null => nomatch null
  · rw [tokenize, tokenize, final, final']
    exact .inl rfl

end View

/-! ## Code -/

section

variable {r : Labels}

theorem Visit.isSome_refusal_relabel (v : Visit) :
    (v.relabel r).refusal?.isSome = v.refusal?.isSome := by
  cases v with
  | selection s arms => cases arms <;> rfl
  | failed s => rfl

theorem isSome_refusal_relabel (visits : List Visit) :
    (refusal? (visits.map (Visit.relabel r))).isSome = (refusal? visits).isSome := by
  simp [refusal?, List.isSome_findSome?, List.any_map, Function.comp_def,
    Visit.isSome_refusal_relabel]

/-- Code for a relabelled program is refused as well, or it is the same. -/
theorem generate_relabel (options : Options) (statements : List Statement) :
    (generate options (bodyRelabel r statements)).toOption =
      (generate options statements).toOption := by
  have same := @isSome_refusal_relabel r (bodyVisits statements)
  unfold generate
  rw [bodyVisits_relabel, programCode_relabel]
  cases left : refusal? ((bodyVisits statements).map (Visit.relabel r)) <;>
    cases right : refusal? (bodyVisits statements) <;>
    simp_all [Except.toOption]

end

/-- The text that a program is compiled to, if it is. -/
theorem compile_toOption (options : Options) (source : String) :
    (compile options source).toOption =
      if (parse source).isOk then (generate options (parse source).statements).toOption
      else none := by
  by_cases ok : (parse source).isOk = true
  · simp only [compile, ok, if_true]
    cases generate options (parse source).statements <;> rfl
  · simp only [compile, ok]
    rfl

/-- Sources that differ in spelling and layout only are read as the same statements with
the same errors, and compiled to the same text or not at all. -/
theorem respelled_alike (s₁ s₂ : String) (h : Respelled (tokenize s₁) (tokenize s₂)) :
    bodyRelabel .respelled (parse s₁).statements = bodyRelabel .respelled (parse s₂).statements ∧
      (parse s₁).errors.map (ParseError.relabel (fun _ => default) fun _ => "") =
        (parse s₂).errors.map (ParseError.relabel (fun _ => default) fun _ => "") ∧
      ∀ options, (compile options s₁).toOption = (compile options s₂).toOption := by
  have alike := programFrom_alike (Grammar.agrees_ofRoom _ maxNesting) (View.respelling_ahead h)
  have statements := congrArg Program.statements alike
  have errors := congrArg Program.errors alike
  simp only [Program.relabel, ← bodyRelabel_eq_map] at statements errors
  refine ⟨statements, errors, fun options => ?_⟩
  have ok : (parse s₁).isOk = (parse s₂).isOk := by
    have empty := congrArg List.isEmpty errors
    rwa [List.isEmpty_map, List.isEmpty_map] at empty
  have code : (generate options (parse s₁).statements).toOption =
      (generate options (parse s₂).statements).toOption := by
    rw [← @generate_relabel .respelled options (parse s₁).statements,
      ← @generate_relabel .respelled options (parse s₂).statements]
    exact congrArg (fun body => (generate options body).toOption) statements
  rw [compile_toOption, compile_toOption, ok, code]

/-- A sum with null in two scripts, once with a mnemonic and once with a symbol. -/
theorem respelled_alike_scripts :
    Respelled (tokenize "f.if YOGA null;") (tokenize "f.if+ शून्य;") ∧
      bodyRelabel .respelled (parse "f.if YOGA null;").statements =
        bodyRelabel .respelled (parse "f.if+ शून्य;").statements ∧
      (compile ⟨2, true⟩ "f.if YOGA null;").toOption =
        (compile ⟨2, true⟩ "f.if+ शून्य;").toOption := by
  have romanized : tokenize "f.if YOGA null;" =
      [⟨.identifier, "f", ⟨0, 1, 1⟩, none⟩, ⟨.dot, ".", ⟨1, 2, 1⟩, none⟩,
        ⟨.ifWord, "if", ⟨2, 4, 1⟩, none⟩, ⟨.plus, "YOGA", ⟨5, 9, 1⟩, none⟩,
        ⟨.nullWord, "null", ⟨10, 14, 1⟩, some .null⟩, ⟨.semicolon, ";", ⟨14, 15, 1⟩, none⟩,
        ⟨.endOfFile, "", ⟨15, 15, 1⟩, none⟩] := by
    decide +kernel
  have native : tokenize "f.if+ शून्य;" =
      [⟨.identifier, "f", ⟨0, 1, 1⟩, none⟩, ⟨.dot, ".", ⟨1, 2, 1⟩, none⟩,
        ⟨.ifWord, "if", ⟨2, 4, 1⟩, none⟩, ⟨.plus, "+", ⟨4, 5, 1⟩, none⟩,
        ⟨.nullWord, "शून्य", ⟨6, 21, 1⟩, some .null⟩, ⟨.semicolon, ";", ⟨21, 22, 1⟩, none⟩,
        ⟨.endOfFile, "", ⟨22, 22, 1⟩, none⟩] := by
    decide +kernel
  have respelled : Respelled (tokenize "f.if YOGA null;") (tokenize "f.if+ शून्य;") := by
    rw [romanized, native]
    refine ⟨rfl, by decide, by decide, by decide, fun i h _ dot => ?_⟩
    -- Only the second token is a dot.
    rcases i with _ | _ | _ | _ | _ | _ | i
    · cases dot
    · rfl
    · cases dot
    · cases dot
    · cases dot
    · cases dot
    · simp only [List.length_cons, List.length_nil] at h
      omega
  have alike := respelled_alike _ _ respelled
  exact ⟨respelled, alike.1, alike.2.2 _⟩

end TwoScript
