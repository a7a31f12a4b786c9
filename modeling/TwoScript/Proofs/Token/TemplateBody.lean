import TwoScript.Proofs.Token.Segment
import TwoScript.Proofs.Token.Spell

/-!
# Reading written templates

The body of a template is written as escaped text and as sources `${...}`. Both are
found again by the scanner that looks for the closing backtick, by the one that
resolves escapes and by the one that splits the value: text comes out as it was
before it was escaped, and a source whose braces and quotes are balanced comes out
unchanged.
-/

namespace TwoScript

def Cut.pushAll (cs : List Char) (k : Cut) : Cut :=
  { k with taken := cs ++ k.taken }

theorem Cut.pushAll_append (cs ds : List Char) (k : Cut) :
    k.pushAll (cs ++ ds) = (k.pushAll ds).pushAll cs := by
  simp [pushAll]

/-- A text that does not turn a dollar sign in front of it into the beginning of a
source. -/
def NoBrace (rest : List Char) : Prop :=
  rest.head? ≠ some '{'

/-! ## Text -/

/-- The value of an escaped text, in which the escapes of dollar signs and backslashes
are kept. -/
def keptEscapes : List Char → List Char
  | [] => []
  | c :: cs =>
    if c = '\\' ∨ c = '$' ∧ cs.head? = some '{' then '\\' :: c :: keptEscapes cs
    else c :: keptEscapes cs

theorem noBrace_escapeTemplate {cs rest : List Char} (first : NoBrace cs) (next : NoBrace rest) :
    NoBrace (escapeTemplate cs ++ rest) := by
  cases cs with
  | nil => exact next
  | cons c cs =>
      rw [escapeTemplate]
      split
      · simp [NoBrace]
      · simpa [NoBrace] using first

theorem noBrace_keptEscapes {cs rest : List Char} (first : NoBrace cs) (next : NoBrace rest) :
    NoBrace (keptEscapes cs ++ rest) := by
  cases cs with
  | nil => exact next
  | cons c cs =>
      rw [keptEscapes]
      split
      · simp [NoBrace]
      · simpa [NoBrace] using first

/-- A character that neither is escaped nor begins a source leaves the text as it is. -/
theorem TemplateMode.step_text {c : Char} {next : Option Char} (escape : c ≠ '\\')
    (source : ¬(c = '$' ∧ next = some '{')) : TemplateMode.text.step c next = .text := by
  rw [step, if_neg escape, if_neg source]

theorem splitTemplate_escapeTemplate (cs : List Char) {rest : List Char} (next : NoBrace rest) :
    splitTemplate .text (escapeTemplate cs ++ rest) =
      (splitTemplate .text rest).pushAll (escapeTemplate cs) := by
  induction cs with
  | nil => rfl
  | cons c cs ih =>
      rw [escapeTemplate]
      split
      · -- An escape takes its character with it, also a backtick.
        rw [List.cons_append, List.cons_append, splitTemplate, if_neg (by simp), splitTemplate,
          if_neg (by simp [TemplateMode.step])]
        simp only [TemplateMode.step, if_true]
        rw [ih]
        rfl
      · rename_i plain
        have tick : ¬(TemplateMode.text = .text ∧ c = '`') := fun h => plain (.inl h.2)
        have step : TemplateMode.text.step c (escapeTemplate cs ++ rest).head? = .text := by
          refine TemplateMode.step_text (fun h => plain (.inr (.inl h))) fun source => ?_
          have first : NoBrace cs := fun brace => plain (.inr (.inr ⟨source.1, brace⟩))
          exact noBrace_escapeTemplate first next source.2
        rw [List.cons_append, splitTemplate, if_neg tick, step, ih]
        rfl

theorem templateValue_escapeTemplate (cs : List Char) {rest : List Char} (next : NoBrace rest) :
    templateValue .text (escapeTemplate cs ++ rest) =
      keptEscapes cs ++ templateValue .text rest := by
  induction cs with
  | nil => rfl
  | cons c cs ih =>
      rw [escapeTemplate, keptEscapes]
      by_cases escape : c = '`' ∨ c = '\\' ∨ c = '$' ∧ cs.head? = some '{'
      · rw [if_pos escape, List.cons_append, List.cons_append, templateValue, templateValue]
        simp only [TemplateMode.step, TemplateMode.value, if_true, ih]
        rcases escape with rfl | rfl | ⟨rfl, brace⟩
        · simp [resolveEscape]
        · simp
        · simp [brace]
      · have plain : ¬(c = '\\' ∨ c = '$' ∧ cs.head? = some '{') := fun h => escape (.inr h)
        have step : TemplateMode.text.step c (escapeTemplate cs ++ rest).head? = .text := by
          refine TemplateMode.step_text (fun h => plain (.inl h)) fun source => ?_
          have first : NoBrace cs := fun brace => plain (.inr ⟨source.1, brace⟩)
          exact noBrace_escapeTemplate first next source.2
        have backslash : c ≠ '\\' := fun h => plain (.inl h)
        rw [if_neg escape, if_neg plain, List.cons_append, templateValue, step, ih]
        simp [TemplateMode.value, backslash]

theorem segments_keptEscapes (cs : List Char) {rest : List Char} (next : NoBrace rest)
    (begun here : Place) : ∃ there, segments .text begun here (keptEscapes cs ++ rest) =
      cs.foldr Segment.pushText (segments .text begun there rest) := by
  induction cs generalizing here with
  | nil => exact ⟨here, rfl⟩
  | cons c cs ih =>
      rw [keptEscapes]
      split
      · obtain ⟨there, same⟩ := ih ((here.after ['\\']).after [c])
        refine ⟨there, ?_⟩
        rw [List.cons_append, List.cons_append, segments, List.foldr_cons, ← same]
        simp only [TemplateMode.step, if_true]
        rw [if_pos (by simp), segments]
        rfl
      · rename_i plain
        obtain ⟨there, same⟩ := ih (here.after [c])
        have step : TemplateMode.text.step c (keptEscapes cs ++ rest).head? = .text := by
          refine TemplateMode.step_text (fun h => plain (.inl h)) fun source => ?_
          have first : NoBrace cs := fun brace => plain (.inr ⟨source.1, brace⟩)
          exact noBrace_keptEscapes first next source.2
        have backslash : ¬(TemplateMode.text = .brace ∨ c = '\\' ∧ keptEscapes cs ++ rest ≠ []) := by
          rintro (h | h)
          · cases h
          · exact plain (.inl h.1)
        refine ⟨there, ?_⟩
        rw [List.cons_append, segments, List.foldr_cons, ← same]
        simp only [step]
        rw [if_neg backslash]

/-- Characters of text become one segment in front of segments that begin with none. -/
theorem foldr_pushText {cs : List Char} {rest : List Segment} (some : cs ≠ [])
    (apart : Segment.beginsWithText rest = false) :
    cs.foldr Segment.pushText rest = .text cs :: rest := by
  induction cs with
  | nil => exact absurd rfl some
  | cons c cs ih =>
      cases cs with
      | nil =>
          cases rest with
          | nil => rfl
          | cons s rest =>
              cases s with
              | text ds => cases apart
              | source p ds => rfl
      | cons d ds =>
          rw [List.foldr_cons, ih (by simp)]
          rfl

/-! ## Sources -/

namespace Nesting

/-- The nesting behind some characters, or `none` when one of them closes the source. -/
def walk (n : Nesting) : List Char → Option Nesting
  | [] => some n
  | c :: cs => (n.after c).bind fun m => m.walk cs

theorem walk_append (n : Nesting) (cs ds : List Char) :
    n.walk (cs ++ ds) = (n.walk cs).bind fun m => m.walk ds := by
  induction cs generalizing n with
  | nil => rfl
  | cons c cs ih =>
      rw [List.cons_append, walk, walk]
      cases n.after c with
      | none => rfl
      | some m => exact ih m

end Nesting

/-- Characters that leave every string and every brace as open as they were. -/
def Neutral (cs : List Char) : Prop :=
  ∀ braces, (Nesting.mk braces none false).walk cs = some ⟨braces, none, false⟩

def isPlainChar (c : Char) : Bool :=
  !(c == '"' || c == '\'' || c == '{' || c == '}')

theorem isPlainChar_of_isWordPart {c : Char} (h : isWordPart c = true) : isPlainChar c = true := by
  simp only [isPlainChar, Bool.not_eq_true', Bool.or_eq_false_iff, beq_eq_false_iff_ne]
  refine ⟨⟨⟨?_, ?_⟩, ?_⟩, ?_⟩ <;> rintro rfl <;> exact absurd h (by decide)

namespace Neutral

theorem nil : Neutral [] := fun _ => rfl

theorem append {cs ds : List Char} (first : Neutral cs) (second : Neutral ds) :
    Neutral (cs ++ ds) := by
  intro braces
  rw [Nesting.walk_append, first, Option.bind_some, second]

theorem outermost {cs : List Char} (h : Neutral cs) :
    Nesting.outermost.walk cs = some .outermost :=
  h 0

/-- Characters outside strings that are neither quotes nor braces change nothing. -/
theorem of_all {cs : List Char} (h : cs.all isPlainChar = true) : Neutral cs := by
  intro braces
  induction cs with
  | nil => rfl
  | cons c cs ih =>
      simp only [List.all_cons, Bool.and_eq_true, isPlainChar, Bool.not_eq_true',
        Bool.or_eq_false_iff, beq_eq_false_iff_ne] at h
      obtain ⟨⟨⟨⟨double, single⟩, opening⟩, closing⟩, later⟩ := h
      simp only [Nesting.walk, Nesting.after, double, single, opening, closing, or_self, if_false,
        Option.bind_some]
      exact ih later

/-- Inside a string an escaped character leaves the string open. -/
theorem walk_escapeChar (braces : Nat) (c : Char) :
    (Nesting.mk braces (some '"') false).walk (escapeChar c) = some ⟨braces, some '"', false⟩ := by
  rcases escapeChar_cases c with ⟨d, _, chars⟩ | ⟨⟨notQuote, notEscape, _⟩, chars⟩
  · rw [chars]
    rfl
  · rw [chars]
    simp [Nesting.walk, Nesting.after, notQuote, notEscape]

theorem string (cs : List Char) : Neutral (escapeString cs) := by
  intro braces
  have inside : (Nesting.mk braces (some '"') false).walk (cs.flatMap escapeChar) =
      some ⟨braces, some '"', false⟩ := by
    induction cs with
    | nil => rfl
    | cons c cs ih =>
        rw [List.flatMap_cons, Nesting.walk_append, walk_escapeChar, Option.bind_some, ih]
  have opens : (Nesting.mk braces none false).after '"' = some ⟨braces, some '"', false⟩ := rfl
  rw [escapeString, List.cons_append, Nesting.walk, opens, Option.bind_some, Nesting.walk_append,
    inside]
  rfl

end Neutral

section

variable {n m : Nesting} {cs : List Char}

theorem splitTemplate_walk (h : n.walk cs = some m) (rest : List Char) :
    splitTemplate (.source n) (cs ++ rest) = (splitTemplate (.source m) rest).pushAll cs := by
  induction cs generalizing n with
  | nil =>
      cases h
      rfl
  | cons c cs ih =>
      obtain ⟨k, next, later⟩ := Option.bind_eq_some_iff.mp h
      rw [List.cons_append, splitTemplate, if_neg (by simp)]
      simp only [TemplateMode.step, next]
      rw [ih later]
      rfl

theorem templateValue_walk (h : n.walk cs = some m) (rest : List Char) :
    templateValue (.source n) (cs ++ rest) = cs ++ templateValue (.source m) rest := by
  induction cs generalizing n with
  | nil =>
      cases h
      rfl
  | cons c cs ih =>
      obtain ⟨k, next, later⟩ := Option.bind_eq_some_iff.mp h
      rw [List.cons_append, templateValue]
      simp only [TemplateMode.step, next, TemplateMode.value]
      rw [ih later]
      rfl

theorem segments_walk (h : n.walk cs = some m) (begun here : Place) (rest : List Char) :
    ∃ there, segments (.source n) begun here (cs ++ rest) =
      cs.foldr Segment.pushSource (segments (.source m) begun there rest) := by
  induction cs generalizing n here with
  | nil =>
      cases h
      exact ⟨here, rfl⟩
  | cons c cs ih =>
      obtain ⟨k, next, later⟩ := Option.bind_eq_some_iff.mp h
      obtain ⟨there, same⟩ := ih later (here.after [c])
      refine ⟨there, ?_⟩
      rw [List.cons_append, segments, List.foldr_cons, ← same]
      simp only [TemplateMode.step, next]
      rw [if_neg (by simp)]

theorem foldr_pushSource (p : Place) (rest : List Segment) (cs ds : List Char) :
    cs.foldr Segment.pushSource (.source p ds :: rest) = .source p (cs ++ ds) :: rest := by
  induction cs with
  | nil => rfl
  | cons c cs ih =>
      rw [List.foldr_cons, ih]
      rfl

end

def sourceChars (cs : List Char) : List Char :=
  '$' :: '{' :: (cs ++ ['}'])

theorem sourceChars_append (cs rest : List Char) :
    sourceChars cs ++ rest = '$' :: '{' :: (cs ++ '}' :: rest) := by
  simp [sourceChars]

namespace TemplateMode

theorem step_dollar : text.step '$' (some '{') = .brace := rfl

theorem step_opening (next : Option Char) : brace.step '{' next = .source .outermost := rfl

theorem step_closing (next : Option Char) : (source .outermost).step '}' next = .text := rfl

end TemplateMode

section

open TemplateMode

variable {cs : List Char} (neutral : Neutral cs) (rest : List Char)

include neutral

theorem splitTemplate_source :
    splitTemplate .text (sourceChars cs ++ rest) =
      (splitTemplate .text rest).pushAll (sourceChars cs) := by
  rw [sourceChars_append, splitTemplate, if_neg (by simp), List.head?_cons, step_dollar,
    splitTemplate, if_neg (by simp), step_opening, splitTemplate_walk neutral.outermost,
    splitTemplate, if_neg (by simp), step_closing]
  simp [Cut.push, Cut.pushAll, sourceChars]

theorem templateValue_source :
    templateValue .text (sourceChars cs ++ rest) =
      sourceChars cs ++ templateValue .text rest := by
  rw [sourceChars_append, templateValue, List.head?_cons, step_dollar, templateValue, step_opening,
    templateValue_walk neutral.outermost, templateValue, step_closing]
  simp [TemplateMode.value, sourceChars]

theorem segments_source (begun here : Place) : ∃ there,
    segments .text begun here (sourceChars cs ++ rest) =
      .source (here.after ['$', '{']) cs ::
        segments .text (here.after ['$', '{']) there rest := by
  have place : here.after ['$', '{'] = (here.after ['$']).after ['{'] :=
    Place.after_append here ['$'] ['{']
  obtain ⟨there, same⟩ := segments_walk neutral.outermost (here.after ['$', '{'])
    (here.after ['$', '{']) ('}' :: rest)
  rw [place] at same ⊢
  refine ⟨there.after ['}'], ?_⟩
  rw [sourceChars_append, segments]
  simp only [List.head?_cons, step_dollar]
  rw [if_pos (by simp), segments]
  simp only [step_opening]
  rw [same, segments]
  simp only [step_closing, if_true]
  rw [foldr_pushSource, List.append_nil]

end

/-- A template between backticks is one lexeme, if its body leaves the scanner in its
text. -/
theorem Lexeme.read_backtick {body value : List Char} (rest : List Char)
    (scanned : ∀ rest, NoBrace rest →
      splitTemplate .text (body ++ rest) = (splitTemplate .text rest).pushAll body)
    (resolved : templateValue .text body = value) :
    read '`' (body ++ '`' :: rest) =
      ⟨.template, some (.string (String.ofList value)), '`' :: (body ++ ['`']), rest⟩ := by
  have cut : splitTemplate .text (body ++ '`' :: rest) = ⟨true, body ++ ['`'], rest⟩ := by
    rw [scanned _ (by simp [NoBrace]), splitTemplate, if_pos ⟨rfl, rfl⟩]
    rfl
  rw [read, if_neg (by decide), if_neg (by decide), if_neg (by decide), if_pos rfl, template, cut]
  simp [resolved]

theorem Spells.template {body value : List Char}
    (scanned : ∀ rest, NoBrace rest →
      splitTemplate .text (body ++ rest) = (splitTemplate .text rest).pushAll body)
    (resolved : templateValue .text body = value) :
    Spells Anything ('`' :: (body ++ ['`']))
      [⟨.template, String.ofList ('`' :: (body ++ ['`'])),
        some (.string (String.ofList value))⟩] := by
  intro rest _
  have whole : '`' :: (body ++ ['`']) ++ rest = '`' :: (body ++ '`' :: rest) := by simp
  rw [whole, shapes_cons rfl, Lexeme.read_backtick rest scanned resolved]
  rfl

/-! ## Literals of generated code -/

theorem NoBrace.nil : NoBrace [] := by
  simp [NoBrace]

/-- The value of escaped text is split into that text. -/
theorem templateSegments_keptEscapes (cs : List Char) (here : Place) :
    templateSegments here (keptEscapes cs) = if cs = [] then [] else [.text cs] := by
  obtain ⟨there, same⟩ := segments_keptEscapes cs .nil here here
  rw [List.append_nil] at same
  rw [templateSegments, same]
  split
  · rename_i empty
    rw [empty]
    rfl
  · rename_i written
    exact foldr_pushText written rfl

/-- A text that is one lexeme is read as one token. -/
theorem tokenize_of_read {c : Char} {cs chars : List Char} {kind : Kind} {literal : Option Literal}
    (begins : beginsLexeme c cs = true)
    (read : Lexeme.read c cs = ⟨kind, literal, chars, []⟩) :
    tokenize (String.ofList (c :: cs)) =
      [⟨kind, String.ofList chars, Place.first.span chars, literal⟩,
        endToken (Place.first.after chars)] := by
  rw [tokenize, String.toList_ofList, tokensFrom_cons _ begins, read, tokensFrom_nil]
  rfl

/-- The escapes of generated literals are undone by reading them as source text. A string
literal is one token with the text it was written from as its value. Escaped text between
backticks is one token whose body is split into that text alone, or into nothing if it is
empty. -/
theorem escapes_undone (s t : String) :
    let quoted := escapeString s.toList
    let ticked := '`' :: (escapeTemplate t.toList ++ ['`'])
    tokenize (String.ofList quoted) =
        [⟨.string, String.ofList quoted, Place.first.span quoted, some (.string s)⟩,
          endToken (Place.first.after quoted)] ∧
      ∃ body, tokenize (String.ofList ticked) =
          [⟨.template, String.ofList ticked, Place.first.span ticked, some (.string body)⟩,
            endToken (Place.first.after ticked)] ∧
        ∀ here, templateSegments here body.toList = if t = "" then [] else [.text t.toList] := by
  intro quoted ticked
  have string : Lexeme.read '"' (s.toList.flatMap escapeChar ++ ['"']) =
      ⟨.string, some (.string s), quoted, []⟩ := by
    rw [Lexeme.read_escapeString, String.ofList_toList]
  have resolved : templateValue .text (escapeTemplate t.toList) = keptEscapes t.toList := by
    simpa [templateValue] using templateValue_escapeTemplate t.toList .nil
  have template := Lexeme.read_backtick [] (fun _ => splitTemplate_escapeTemplate t.toList) resolved
  refine ⟨tokenize_of_read rfl string, String.ofList (keptEscapes t.toList),
    tokenize_of_read rfl template, fun here => ?_⟩
  rw [String.toList_ofList, templateSegments_keptEscapes]
  simp only [String.toList_eq_nil_iff]

end TwoScript
