import TwoScript.Proofs.Token.Lexed

/-!
# Nothing is lost between text and tokens

The tokens of a text and the gaps between them tile the text: every character lies
either in one token or in a gap of blanks and comments. `Tiles` says this token by
token along the text; what a span, a line or a gap is then follows by induction.
-/

namespace TwoScript

/-! ## Gaps -/

/-- A stretch between tokens: blanks, and comments that run up to a line feed or to the
end of the text. What follows the stretch is `after`. -/
inductive Gap (after : List Char) : List Char → Prop where
  | nil : Gap after []
  | blank {c : Char} {cs : List Char} (skipped : c ∈ [' ', '\t', '\r', '\n', '\x0c'])
      (rest : Gap after cs) : Gap after (c :: cs)
  | comment {body cs : List Char} (oneLine : '\n' ∉ body)
      (ends : cs.head? = some '\n' ∨ cs = [] ∧ after = [])
      (rest : Gap after cs) : Gap after ('/' :: '/' :: (body ++ cs))

def CommentGap (after cs : List Char) : Prop :=
  ∃ body rest, cs = body ++ rest ∧ '\n' ∉ body ∧
    (rest.head? = some '\n' ∨ rest = [] ∧ after = []) ∧ Gap after rest

theorem CommentGap.cons {after cs : List Char} {c : Char} (h : CommentGap after cs)
    (oneLine : c ≠ '\n') : CommentGap after (c :: cs) := by
  obtain ⟨body, rest, rfl, inside, ends, gap⟩ := h
  refine ⟨c :: body, rest, rfl, ?_, ends, gap⟩
  rw [List.mem_cons, not_or]
  exact ⟨oneLine.symm, inside⟩

/-- Two slashes begin a comment, and the second one is part of its rest. -/
theorem CommentGap.gap {after cs : List Char} (h : CommentGap after ('/' :: cs)) :
    Gap after ('/' :: '/' :: cs) := by
  obtain ⟨body, rest, whole, inside, ends, gap⟩ := h
  cases body with
  | nil =>
      rw [List.nil_append] at whole
      subst whole
      simp at ends
  | cons c body =>
      cases whole
      exact .comment (fun line => inside (List.mem_cons_of_mem _ line)) ends gap

theorem isBlank_iff_mem {c : Char} :
    isBlank c = true ↔ c ∈ [' ', '\t', '\r', '\n', '\x0c'] := by
  simp [isBlank, or_assoc]

/-- What the tokenizer skips is a gap, also when it begins inside a comment. -/
theorem splitBlank_gap (cs : List Char) :
    Gap (splitBlank false cs).2 (splitBlank false cs).1 ∧
      CommentGap (splitBlank true cs).2 (splitBlank true cs).1 := by
  induction cs with
  | nil => exact ⟨.nil, [], [], rfl, by simp, .inr ⟨rfl, rfl⟩, .nil⟩
  | cons c cs ih =>
      constructor
      · unfold splitBlank
        by_cases slash : c = '/'
        · subst slash
          by_cases next : cs.head? = some '/'
          · obtain ⟨ds, rfl⟩ := List.head?_eq_some_iff.mp next
            have inside := ih.2
            simp only [splitBlank, Bool.true_or, if_true] at inside
            simpa [splitBlank] using inside.gap
          · simpa [isBlank, next] using Gap.nil
        · by_cases blank : isBlank c = true
          · have other : (c == '/') = false := beq_false_of_ne slash
            simpa [blank, other] using Gap.blank (isBlank_iff_mem.mp blank) ih.1
          · simpa [blank, slash] using Gap.nil
      · unfold splitBlank
        by_cases line : c = '\n'
        · subst line
          have behind : Gap (splitBlank false cs).2 ('\n' :: (splitBlank false cs).1) :=
            .blank (by simp) ih.1
          simpa using ⟨[], _, rfl, by simp, .inl rfl, behind⟩
        · have inside : (c != '\n') = true := bne_iff_ne.mpr line
          simpa [inside] using ih.2.cons line

/-! ## Tiles -/

/-- The tokens tile the source behind the characters `before`: each one stands behind a
gap, with the place of its first character, and the last one is the end of the input. -/
inductive Tiles (source : List Char) : List Char → List Token → Prop where
  | finish {before gap : List Char} (whole : source = before ++ gap) (between : Gap [] gap) :
      Tiles source before [endToken (Place.first.after source)]
  | token {before gap chars after : List Char} {kind : Kind} {literal : Option Literal}
      {ts : List Token} (whole : source = before ++ gap ++ chars ++ after)
      (between : Gap (chars ++ after) gap) (inner : kind ≠ .endOfFile) (nonempty : chars ≠ [])
      (rest : Tiles source (before ++ gap ++ chars) ts) :
      Tiles source before
        (⟨kind, String.ofList chars, (Place.first.after (before ++ gap)).span chars, literal⟩ :: ts)

theorem tiles_tokensFrom {source before cs : List Char} (whole : source = before ++ cs) :
    Tiles source before (tokensFrom (Place.first.after before) cs) := by
  have skipped := (splitBlank_gap cs).1
  induction cs using lexemes_induction generalizing before with
  | blank cs split =>
      rw [split] at skipped
      rw [tokensFrom_of_split _ split, ← Place.after_append, ← whole]
      exact .finish whole skipped
  | lexeme cs gap c rest split taken ih =>
      rw [split, ← Lexeme.read_append c rest] at skipped
      have there : source = before ++ gap ++ (Lexeme.read c rest).chars
          ++ (Lexeme.read c rest).rest := by
        rw [whole, ← taken]
        simp only [List.append_assoc]
      rw [tokensFrom_of_split_cons _ split, ← Place.after_append, ← Place.after_append]
      exact .token there skipped (read_kind_ne_end c rest) (Lexeme.read_chars_ne_nil c rest)
        (ih there (splitBlank_gap _).1)

/-! ## Spans -/

theorem byteLength_toList (s : String) : byteLength s.toList = s.utf8ByteSize := by
  suffices size : ∀ cs, byteLength cs = (String.ofList cs).utf8ByteSize by
    rw [size, String.ofList_toList]
  intro cs
  induction cs with
  | nil => rfl
  | cons c cs ih =>
      have split : String.ofList (c :: cs) = String.singleton c ++ String.ofList cs := by
        rw [String.singleton_eq_ofList, ← String.ofList_append, List.singleton_append]
      rw [byteLength_cons, ih, split, String.utf8ByteSize_append, String.utf8ByteSize_singleton]

/-- The text of the token is what the source has at its span, whose ends lie between
characters, and the span names the line of its start. -/
def Token.StandsIn (t : Token) (source : String) : Prop :=
  ∃ before after : String, source = before ++ t.text ++ after ∧
    t.span.start = before.utf8ByteSize ∧ t.span.stop = (before ++ t.text).utf8ByteSize ∧
    t.span.line = 1 + before.toList.count '\n'

def GapBetween (source : String) (start stop : Nat) : Prop :=
  ∃ before gap after : String, source = before ++ gap ++ after ∧
    start = before.utf8ByteSize ∧ stop = (before ++ gap).utf8ByteSize ∧
    Gap after.toList gap.toList

theorem standsIn_of_span {source : String} {t : Token} {before after : List Char}
    (whole : source.toList = before ++ t.text.toList ++ after)
    (span : t.span = (Place.first.after before).span t.text.toList) : t.StandsIn source := by
  refine ⟨String.ofList before, String.ofList after, ?_, ?_, ?_, ?_⟩
  · rw [← String.toList_inj, whole]
    simp
  · rw [span, ← byteLength_toList]
    simp [Place.span, Place.after, Place.first]
  · rw [span, ← byteLength_toList]
    simp [Place.span, Place.after, Place.first]
  · rw [span, String.toList_ofList]
    rfl

theorem gapBetween_of_gap {source : String} {before gap after : List Char}
    (whole : source.toList = before ++ gap ++ after) (between : Gap after gap) :
    GapBetween source (byteLength before) (byteLength (before ++ gap)) := by
  refine ⟨String.ofList before, String.ofList gap, String.ofList after, ?_, ?_, ?_, ?_⟩
  · rw [← String.toList_inj, whole]
    simp
  · rw [← byteLength_toList, String.toList_ofList]
  · rw [← byteLength_toList, String.toList_append, String.toList_ofList, String.toList_ofList]
  · simpa using between

/-! ## What the tiles say -/

theorem byteLength_pos {cs : List Char} (h : cs ≠ []) : 0 < byteLength cs := by
  cases cs with
  | nil => exact absurd rfl h
  | cons c cs =>
      have := c.utf8Size_pos
      rw [byteLength_cons]
      omega

namespace Tiles

variable {source : String} {before : List Char} {ts : List Token}

/-- Only the last tile is the end of the input, and all others hold characters. -/
theorem exists_last (h : Tiles source.toList before ts) :
    ∃ us, ts = us ++ [endToken (Place.first.after source.toList)] ∧
      ∀ t ∈ us, t.kind ≠ .endOfFile ∧ t.span.start < t.span.stop := by
  induction h with
  | finish whole between => exact ⟨[], rfl, by simp⟩
  | @token before gap chars after kind literal ts whole between inner nonempty rest ih =>
      obtain ⟨us, rfl, later⟩ := ih
      refine ⟨_ :: us, rfl, ?_⟩
      intro t member
      rcases List.mem_cons.mp member with rfl | member
      · exact ⟨inner, Nat.lt_add_of_pos_right (byteLength_pos nonempty)⟩
      · exact later t member

theorem standsIn (h : Tiles source.toList before ts) : ∀ t ∈ ts, t.StandsIn source := by
  induction h with
  | finish whole between =>
      intro t member
      obtain rfl := List.mem_singleton.mp member
      have whole : source.toList = source.toList ++ "".toList ++ [] := by simp
      exact standsIn_of_span whole rfl
  | @token before gap chars after kind literal ts whole between inner nonempty rest ih =>
      intro t member
      rcases List.mem_cons.mp member with rfl | later
      · rw [← String.toList_ofList (l := chars)] at whole
        exact standsIn_of_span whole (by simp)
      · exact ih t later

/-- What was read lies in front of every tile. -/
theorem byteLength_le_start (h : Tiles source.toList before ts) :
    ∀ t ∈ ts, byteLength before ≤ t.span.start := by
  induction h with
  | @finish before gap whole between =>
      intro t member
      obtain rfl := List.mem_singleton.mp member
      simp [endToken, Place.after, Place.first, whole]
  | @token before gap chars after kind literal ts whole between inner nonempty rest ih =>
      intro t member
      rcases List.mem_cons.mp member with rfl | later
      · simp [Place.span, Place.after, Place.first]
      · have behind := ih t later
        rw [List.append_assoc, byteLength_append] at behind
        omega

theorem ordered (h : Tiles source.toList before ts) :
    ts.Pairwise fun t u => t.span.stop ≤ u.span.start := by
  induction h with
  | finish whole between => exact List.pairwise_singleton _ _
  | @token before gap chars after kind literal ts whole between inner nonempty rest ih =>
      refine List.pairwise_cons.mpr ⟨fun u later => ?_, ih⟩
      have behind := rest.byteLength_le_start u later
      rw [byteLength_append] at behind
      simpa [Place.span, Place.after, Place.first] using behind

/-- In front of each tile there is only a gap, up to the tile before it. -/
theorem gapBetween (h : Tiles source.toList before ts) :
    ∀ us t vs, ts = us ++ t :: vs → GapBetween source
      (us.getLast?.elim (byteLength before) fun u => u.span.stop) t.span.start := by
  induction h with
  | @finish before gap whole between =>
      intro us t vs split
      obtain ⟨rfl, rfl, rfl⟩ :
          us = [] ∧ endToken (Place.first.after source.toList) = t ∧ vs = [] := by
        cases us with
        | nil => simpa [eq_comm] using split
        | cons u us => simp at split
      have gap := gapBetween_of_gap (by simpa using whole) between
      rw [← whole] at gap
      simpa [endToken, Place.after, Place.first] using gap
  | @token before gap chars after kind literal ts whole between inner nonempty rest ih =>
      intro us t vs split
      cases us with
      | nil =>
          cases split
          rw [List.append_assoc] at whole
          have gap := gapBetween_of_gap whole between
          simpa [Place.span, Place.after, Place.first] using gap
      | cons u us =>
          obtain ⟨rfl, later⟩ := List.cons.inj split
          have gap := ih us t vs later
          rw [List.getLast?_cons]
          cases last : us.getLast? with
          | none => simpa [last, Place.span, Place.after, Place.first, Nat.add_assoc] using gap
          | some v => simpa [last] using gap

end Tiles

/-- The tokens of a source lose nothing of it. There is one token for the end, behind all
others, and these hold characters and follow each other; every token has the text and the
line of its span; and between the tokens there are only blanks and comments. -/
theorem tokenize_lossless (source : String) :
    ∃ ts last, tokenize source = ts ++ [last] ∧ last.kind = .endOfFile ∧
      last.span.start = source.utf8ByteSize ∧ last.span.stop = source.utf8ByteSize ∧
      (∀ t ∈ ts, t.kind ≠ .endOfFile ∧ t.span.start < t.span.stop) ∧
      ((ts ++ [last]).Pairwise fun t u => t.span.stop ≤ u.span.start) ∧
      (∀ t ∈ ts ++ [last], t.StandsIn source) ∧
      ∀ us t vs, ts ++ [last] = us ++ t :: vs →
        GapBetween source (us.getLast?.elim 0 fun u => u.span.stop) t.span.start := by
  have tiles : Tiles source.toList [] (tokenize source) := tiles_tokensFrom rfl
  obtain ⟨ts, whole, inner⟩ := tiles.exists_last
  have ends : (Place.first.after source.toList).offset = source.utf8ByteSize := by
    simp [Place.after, Place.first, byteLength_toList]
  rw [whole] at tiles
  exact ⟨ts, _, whole, rfl, ends, ends, inner, tiles.ordered, tiles.standsIn, tiles.gapBetween⟩

end TwoScript
