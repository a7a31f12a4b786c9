import Mathlib.Tactic.ByContra
import TwoScript.Parse.Expression
import TwoScript.Proofs.Token.Lexed
import TwoScript.Proofs.Token.TemplateBody

/-!
# Where the sources of a template are

The scanner that looks for the closing backtick decides which characters of a template
are text and which belong to a source. `stretches` cuts the body of a template along its
modes and keeps text as it was written. The segments that are split from the value of the
template are these stretches with the escapes of texts resolved, unless a dollar sign of a
text stands in front of an escaped brace: resolving that escape makes the two look like the
beginning of a source.
-/

namespace TwoScript

/-- A stretch of the body of a template: text as it was written, or a source. -/
inductive Stretch where
  | text (raw : List Char)
  | source (chars : List Char)
deriving DecidableEq, Repr

namespace Stretch

def written : Stretch → List Char
  | text raw => raw
  | source cs => sourceChars cs

/-- The segment that a stretch stands for. Escapes of a text are resolved, and a source is
kept as it is. -/
def segment : Stretch → Segment
  | text raw => .text (unescape raw)
  | source cs => .source .first cs

def pushText (c : Char) : List Stretch → List Stretch
  | text raw :: rest => text (c :: raw) :: rest
  | rest => text [c] :: rest

def pushSource (c : Char) : List Stretch → List Stretch
  | source cs :: rest => source (c :: cs) :: rest
  | rest => rest

end Stretch

/-- Cuts the body of a template where the scanner for its end sees sources begin and end.
The marks around a source belong to no stretch. -/
def stretches (m : TemplateMode) : List Char → List Stretch
  | [] =>
    match m with
    | .source _ => [.source []]
    | _ => []
  | c :: cs =>
    let next := m.step c cs.head?
    match m with
    | .text => if next = .brace then stretches next cs else Stretch.pushText c (stretches next cs)
    | .escape => Stretch.pushText c (stretches next cs)
    | .brace => stretches next cs
    | .source _ =>
      if next = .text then .source [] :: stretches next cs
      else Stretch.pushSource c (stretches next cs)

/-- Whether a dollar sign of a text stands right in front of an escaped brace. -/
def hidesBrace (m : TemplateMode) : List Char → Bool
  | [] => false
  | c :: cs =>
    (m == .text && c == '$' && ['\\', '{'].isPrefixOf cs) || hidesBrace (m.step c cs.head?) cs

/-! ## Bodies that the scanner accepts -/

/-- The rest of a body, read from a text or from inside a source up to its end. -/
inductive Scans : TemplateMode → List Char → Prop where
  | done : Scans .text []
  | plain {c : Char} {cs : List Char} (escape : c ≠ '\\')
      (source : ¬(c = '$' ∧ cs.head? = some '{')) (later : Scans .text cs) :
      Scans .text (c :: cs)
  | escaped (c : Char) {cs : List Char} (later : Scans .text cs) : Scans .text ('\\' :: c :: cs)
  | opens {cs : List Char} (later : Scans (.source .outermost) cs) :
      Scans .text ('$' :: '{' :: cs)
  | inside {n k : Nesting} {c : Char} {cs : List Char} (next : n.after c = some k)
      (later : Scans (.source k) cs) : Scans (.source n) (c :: cs)
  | closes {n : Nesting} {c : Char} {cs : List Char} (next : n.after c = none)
      (later : Scans .text cs) : Scans (.source n) (c :: cs)

/-- The rest of a body from any mode on. An escape and the beginning of a source still take
the character that they are followed by. -/
def ScansFrom : TemplateMode → List Char → Prop
  | .escape, body => ∃ c cs, body = c :: cs ∧ Scans .text cs
  | .brace, body => ∃ c cs, body = c :: cs ∧ Scans (.source .outermost) cs
  | m, body => Scans m body

namespace TemplateMode

/-- Only an opening brace matters behind a character. -/
theorem step_congr {a b : Option Char} (m : TemplateMode) (c : Char)
    (h : a = some '{' ↔ b = some '{') : m.step c a = m.step c b := by
  cases m <;> simp [step, h]

theorem step_inside {n k : Nesting} {c : Char} (h : n.after c = some k) (next : Option Char) :
    (source n).step c next = .source k := by
  simp [step, h]

theorem step_closes {n : Nesting} {c : Char} (h : n.after c = none) (next : Option Char) :
    (source n).step c next = .text := by
  simp [step, h]

end TemplateMode

theorem ScansFrom.cons {m : TemplateMode} {c : Char} {cs : List Char}
    (h : ScansFrom (m.step c cs.head?) cs) : ScansFrom m (c :: cs) := by
  cases m with
  | text =>
      by_cases escape : c = '\\'
      · subst escape
        obtain ⟨d, ds, rfl, later⟩ := h
        exact .escaped d later
      by_cases source : c = '$' ∧ cs.head? = some '{'
      · obtain ⟨rfl, brace⟩ := source
        rw [brace] at h
        obtain ⟨d, ds, rfl, later⟩ := h
        obtain rfl : d = '{' := by simpa using brace
        exact .opens later
      · rw [TemplateMode.step_text escape source] at h
        exact .plain escape source h
  | escape => exact ⟨c, cs, rfl, h⟩
  | brace => exact ⟨c, cs, rfl, h⟩
  | source n =>
      cases next : n.after c with
      | none =>
          rw [TemplateMode.step_closes next] at h
          exact .closes next h
      | some k =>
          rw [TemplateMode.step_inside next] at h
          exact .inside next h

/-- What the scanner takes in front of a backtick that closes the template. -/
theorem splitTemplate_closed {m : TemplateMode} {cs : List Char}
    (closed : (splitTemplate m cs).closed = true) :
    ∃ body, (splitTemplate m cs).taken = body ++ ['`'] ∧ ScansFrom m body := by
  induction cs generalizing m with
  | nil => cases closed
  | cons c cs ih =>
      rw [splitTemplate] at closed ⊢
      split at closed
      · rename_i ends
        rw [if_pos ends, ends.1, ends.2]
        exact ⟨[], rfl, .done⟩
      · rename_i inner
        obtain ⟨body, taken, scanned⟩ := ih closed
        rw [if_neg inner]
        refine ⟨c :: body, by simp [Cut.push, taken], .cons ?_⟩
        -- The body ends in front of the backtick, where no source begins.
        have whole := splitTemplate_append (m.step c cs.head?) cs
        rw [taken] at whole
        rwa [TemplateMode.step_congr (b := body.head?) m c (by rw [← whole]; cases body <;> simp)]
          at scanned

/-! ## Stretches -/

section

variable {c : Char} {cs : List Char} {n k : Nesting}

theorem stretches_plain (escape : c ≠ '\\') (source : ¬(c = '$' ∧ cs.head? = some '{')) :
    stretches .text (c :: cs) = Stretch.pushText c (stretches .text cs) := by
  rw [stretches]
  simp only [TemplateMode.step_text escape source]
  rfl

theorem stretches_escaped (c : Char) (cs : List Char) :
    stretches .text ('\\' :: c :: cs) =
      Stretch.pushText '\\' (Stretch.pushText c (stretches .text cs)) := rfl

theorem stretches_opens (cs : List Char) :
    stretches .text ('$' :: '{' :: cs) = stretches (.source .outermost) cs := rfl

theorem stretches_inside (next : n.after c = some k) :
    stretches (.source n) (c :: cs) = Stretch.pushSource c (stretches (.source k) cs) := by
  rw [stretches]
  simp [TemplateMode.step_inside next]

theorem stretches_closes (next : n.after c = none) :
    stretches (.source n) (c :: cs) = .source [] :: stretches .text cs := by
  rw [stretches]
  simp [TemplateMode.step_closes next]

/-- A source under way is the first stretch. -/
theorem stretches_source (n : Nesting) (cs : List Char) :
    ∃ ds rest, stretches (.source n) cs = .source ds :: rest := by
  induction cs generalizing n with
  | nil => exact ⟨[], [], rfl⟩
  | cons c cs ih =>
      cases next : n.after c with
      | none => exact ⟨[], _, stretches_closes next⟩
      | some k =>
          obtain ⟨ds, rest, same⟩ := ih k
          exact ⟨c :: ds, rest, by rw [stretches_inside next, same]; rfl⟩

end

theorem written_pushText (c : Char) (ss : List Stretch) :
    (Stretch.pushText c ss).flatMap Stretch.written = c :: ss.flatMap Stretch.written := by
  cases ss with
  | nil => rfl
  | cons s rest => cases s <;> rfl

def TemplateMode.lead : TemplateMode → List Char
  | source _ => ['$', '{']
  | _ => []

theorem Nesting.eq_of_after_none {n : Nesting} {c : Char} (h : n.after c = none) : c = '}' := by
  unfold after at h
  grind

/-- The stretches of a body that the scanner accepts make up the body. -/
theorem Scans.written_stretches {m : TemplateMode} {body : List Char} (h : Scans m body) :
    (stretches m body).flatMap Stretch.written = m.lead ++ body := by
  induction h with
  | done => rfl
  | plain escape source _ ih => rw [stretches_plain escape source, written_pushText, ih]; rfl
  | escaped c _ ih => rw [stretches_escaped, written_pushText, written_pushText, ih]; rfl
  | opens _ ih => rw [stretches_opens, ih]; rfl
  | @inside n k c cs next _ ih =>
      obtain ⟨ds, rest, same⟩ := stretches_source k cs
      rw [same] at ih
      rw [stretches_inside next, same]
      simpa [Stretch.pushSource, Stretch.written, sourceChars, TemplateMode.lead] using ih
  | closes next _ ih =>
      rw [stretches_closes next, Nesting.eq_of_after_none next, List.flatMap_cons, ih]
      rfl

/-! ## Segments of the value -/

def bareSegments (m : TemplateMode) (value : List Char) : List Segment :=
  (segments m .first .first value).map Segment.bare

theorem templateSegments_eq_bareSegments (place : Place) (value : List Char) :
    (templateSegments place value).map Segment.bare = bareSegments .text value :=
  segments_bare .text place place .first .first value

section

variable {c : Char} {cs : List Char} {n k : Nesting}

theorem bareSegments_plain (escape : c ≠ '\\') (source : ¬(c = '$' ∧ cs.head? = some '{')) :
    bareSegments .text (c :: cs) = Segment.pushText c (bareSegments .text cs) := by
  rw [bareSegments, segments]
  simp only [TemplateMode.step_text escape source]
  rw [if_neg (by simp [escape]), Segment.bare_pushText, segments_bare _ _ _ .first .first]
  rfl

theorem bareSegments_escaped (c : Char) (cs : List Char) :
    bareSegments .text ('\\' :: c :: cs) = Segment.pushText c (bareSegments .text cs) := by
  have skipped : segments .text .first .first ('\\' :: c :: cs) =
      Segment.pushText c (segments .text .first ((Place.first.after ['\\']).after [c]) cs) := rfl
  rw [bareSegments, skipped, Segment.bare_pushText, segments_bare _ _ _ .first .first]
  rfl

theorem bareSegments_opens (cs : List Char) :
    bareSegments .text ('$' :: '{' :: cs) = bareSegments (.source .outermost) cs := by
  have begun : segments .text .first .first ('$' :: '{' :: cs) =
      segments (.source .outermost) ((Place.first.after ['$']).after ['{'])
        ((Place.first.after ['$']).after ['{']) cs := rfl
  rw [bareSegments, begun, segments_bare _ _ _ .first .first]
  rfl

theorem bareSegments_inside (next : n.after c = some k) :
    bareSegments (.source n) (c :: cs) = Segment.pushSource c (bareSegments (.source k) cs) := by
  rw [bareSegments, segments]
  simp only [TemplateMode.step_inside next]
  rw [if_neg (by simp), Segment.bare_pushSource, segments_bare _ _ _ .first .first]
  rfl

theorem bareSegments_closes (next : n.after c = none) :
    bareSegments (.source n) (c :: cs) = .source .first [] :: bareSegments .text cs := by
  rw [bareSegments, segments]
  simp only [TemplateMode.step_closes next, if_true]
  rw [List.map_cons, segments_bare _ _ _ .first .first]
  rfl

theorem bareSegments_source (n : Nesting) (cs : List Char) :
    ∃ ds rest, bareSegments (.source n) cs = .source .first ds :: rest := by
  induction cs generalizing n with
  | nil => exact ⟨[], [], rfl⟩
  | cons c cs ih =>
      cases next : n.after c with
      | none => exact ⟨[], _, bareSegments_closes next⟩
      | some k =>
          obtain ⟨ds, rest, same⟩ := ih k
          exact ⟨c :: ds, rest, by rw [bareSegments_inside next, same]; rfl⟩

end

theorem templateValue_plain {c : Char} {cs : List Char} (escape : c ≠ '\\')
    (source : ¬(c = '$' ∧ cs.head? = some '{')) :
    templateValue .text (c :: cs) = c :: templateValue .text cs := by
  rw [templateValue, TemplateMode.step_text escape source]
  simp [TemplateMode.value, escape]

theorem templateValue_escaped (c : Char) (cs : List Char) :
    templateValue .text ('\\' :: c :: cs) =
      (if c = '$' ∨ c = '\\' then ['\\', c] else [resolveEscape c]) ++ templateValue .text cs := rfl

theorem templateValue_opens (cs : List Char) :
    templateValue .text ('$' :: '{' :: cs) =
      '$' :: '{' :: templateValue (.source .outermost) cs := rfl

theorem resolveEscape_ne {c d : Char} (h : c ≠ d) (plain : d = '\\' ∨ d = '$' ∨ d = '{') :
    resolveEscape c ≠ d := by
  unfold resolveEscape
  rcases plain with rfl | rfl | rfl <;> grind

/-- An escaped character is one character of the segments' text. -/
theorem bareSegments_templateValue_escaped (c : Char) (cs : List Char) :
    bareSegments .text (templateValue .text ('\\' :: c :: cs)) =
      Segment.pushText (resolveEscape c) (bareSegments .text (templateValue .text cs)) := by
  rw [templateValue_escaped]
  split
  · rename_i kept
    have same : resolveEscape c = c := by rcases kept with rfl | rfl <;> rfl
    rw [same]
    exact bareSegments_escaped c _
  · rename_i resolved
    rw [not_or] at resolved
    exact bareSegments_plain (resolveEscape_ne resolved.2 (.inl rfl))
      fun source => resolveEscape_ne resolved.1 (.inr (.inl rfl)) source.1

/-- A value begins with a brace if its body does, or if an escaped brace stands there. -/
theorem Scans.head_templateValue {cs : List Char} (h : Scans .text cs)
    (brace : (templateValue .text cs).head? = some '{') :
    cs.head? = some '{' ∨ ['\\', '{'].isPrefixOf cs = true := by
  cases h with
  | done => cases brace
  | plain escape source _ =>
      rw [templateValue_plain escape source] at brace
      exact .inl brace
  | escaped c _ =>
      rw [templateValue_escaped] at brace
      split at brace
      · cases brace
      · by_cases same : c = '{'
        · exact .inr (by simp [same])
        · exact absurd (Option.some.inj brace) (resolveEscape_ne same (.inr (.inr rfl)))
  | opens _ => cases brace

/-! ## Agreement -/

theorem segment_pushText {c : Char} (escape : c ≠ '\\') (ss : List Stretch) :
    (Stretch.pushText c ss).map Stretch.segment =
      Segment.pushText c (ss.map Stretch.segment) := by
  have resolved : ∀ raw, unescape (c :: raw) = c :: unescape raw := by
    intro raw
    rw [unescape]
    exact fun _ _ same _ => escape same
  cases ss with
  | nil => simp [Stretch.pushText, Segment.pushText, Stretch.segment, resolved, unescape]
  | cons s rest =>
      cases s with
      | text raw => simp [Stretch.pushText, Segment.pushText, Stretch.segment, resolved]
      | source ds =>
          simp [Stretch.pushText, Segment.pushText, Stretch.segment, resolved, unescape]

theorem segment_pushEscaped (c : Char) (ss : List Stretch) :
    (Stretch.pushText '\\' (Stretch.pushText c ss)).map Stretch.segment =
      Segment.pushText (resolveEscape c) (ss.map Stretch.segment) := by
  cases ss with
  | nil => rfl
  | cons s rest => cases s <;> rfl

theorem Segment.pushText_inj (c : Char) {a b : List Segment} (left : Apart a) (right : Apart b) :
    pushText c a = pushText c b ↔ a = b := by
  refine ⟨fun same => ?_, fun same => by rw [same]⟩
  unfold pushText at same
  split at same <;> split at same <;> simp_all [Apart]

theorem Segment.apart_bare {ss : List Segment} (h : Apart ss) : Apart (ss.map bare) := by
  induction ss with
  | nil => trivial
  | cons s rest ih =>
      cases s with
      | text cs =>
          refine ⟨h.1, ?_, ih h.2.2⟩
          have next := h.2.1
          cases rest with
          | nil => rfl
          | cons s rest => cases s <;> simp_all [beginsWithText, bare]
      | source p cs => exact ih h

theorem bareSegments_apart (m : TemplateMode) (value : List Char) :
    Segment.Apart (bareSegments m value) :=
  Segment.apart_bare (segments_apart m .first .first value)

theorem Scans.apart_stretches {m : TemplateMode} {body : List Char} (h : Scans m body) :
    Segment.Apart ((stretches m body).map Stretch.segment) := by
  induction h with
  | done => trivial
  | plain escape source _ ih =>
      rw [stretches_plain escape source, segment_pushText escape]
      exact Segment.apart_pushText _ ih
  | escaped c _ ih =>
      rw [stretches_escaped, segment_pushEscaped]
      exact Segment.apart_pushText _ ih
  | opens _ ih => exact ih
  | @inside n k c cs next _ ih =>
      obtain ⟨ds, rest, same⟩ := stretches_source k cs
      rw [same] at ih
      rw [stretches_inside next, same]
      exact ih
  | closes next _ ih =>
      rw [stretches_closes next]
      exact ih

/-- A source never begins where the value has text. -/
theorem bareSegments_source_ne_pushText (n : Nesting) (cs : List Char) (c : Char)
    (ss : List Segment) : bareSegments (.source n) cs ≠ Segment.pushText c ss := by
  obtain ⟨ds, rest, same⟩ := bareSegments_source n cs
  rw [same]
  unfold Segment.pushText
  split <;> simp

/-- Both cut a body alike if and only if no brace is hidden in it. Up to the first such brace
they take the same steps. -/
theorem Scans.agree_iff {m : TemplateMode} {body : List Char} (h : Scans m body) :
    bareSegments m (templateValue m body) = (stretches m body).map Stretch.segment ↔
      hidesBrace m body = false := by
  induction h with
  | done => simp [bareSegments, segments, templateValue, stretches, hidesBrace]
  | @plain c cs escape source later ih =>
      have step := TemplateMode.step_text escape source
      rw [stretches_plain escape source, segment_pushText escape,
        templateValue_plain escape source, hidesBrace, step]
      by_cases hidden : c = '$' ∧ ['\\', '{'].isPrefixOf cs = true
      · -- The value has the two marks of a source here, the body has text.
        obtain ⟨rfl, escaped⟩ := hidden
        obtain ⟨rest, rfl⟩ := List.isPrefixOf_iff_prefix.mp escaped
        have value : templateValue .text (['\\', '{'] ++ rest) =
            '{' :: templateValue .text rest := rfl
        rw [value, bareSegments_opens]
        simp [bareSegments_source_ne_pushText]
      · have next : ¬(c = '$' ∧ (templateValue .text cs).head? = some '{') := by
          rintro ⟨rfl, brace⟩
          rcases later.head_templateValue brace with opening | escaped
          · exact source ⟨rfl, opening⟩
          · exact hidden ⟨rfl, escaped⟩
        rw [bareSegments_plain escape next, Segment.pushText_inj c (bareSegments_apart _ _)
          later.apart_stretches, ih]
        have shown : (c == '$' && ['\\', '{'].isPrefixOf cs) = false := by
          simpa [Bool.eq_false_iff] using hidden
        simp [shown]
  | escaped c later ih =>
      rw [stretches_escaped, segment_pushEscaped, bareSegments_templateValue_escaped,
        Segment.pushText_inj _ (bareSegments_apart _ _) later.apart_stretches, ih]
      rfl
  | opens later ih =>
      rw [stretches_opens, templateValue_opens, bareSegments_opens, ih]
      rfl
  | @inside n k c cs next later ih =>
      obtain ⟨ds, rest, same⟩ := stretches_source k cs
      obtain ⟨es, more, alike⟩ := bareSegments_source k (templateValue (.source k) cs)
      have value : templateValue (.source n) (c :: cs) = c :: templateValue (.source k) cs := by
        rw [templateValue, TemplateMode.step_inside next]
        rfl
      rw [same, alike] at ih
      rw [stretches_inside next, same, value, bareSegments_inside next, alike, hidesBrace,
        TemplateMode.step_inside next]
      simpa [Segment.pushSource, Stretch.pushSource, Stretch.segment] using ih
  | @closes n c cs next later ih =>
      have value : templateValue (.source n) (c :: cs) = c :: templateValue .text cs := by
        rw [templateValue, TemplateMode.step_closes next]
        rfl
      rw [stretches_closes next, value, bareSegments_closes next, hidesBrace,
        TemplateMode.step_closes next]
      simpa [Stretch.segment] using ih

/-! ## Templates of a text -/

theorem spellings_ne_template (script : Script) :
    ∀ entry ∈ script.spellings, entry.2 ≠ .template := by
  cases script <;> decide

theorem word_ne_template (cs : List Char) : (Lexeme.word cs).kind ≠ .template := by
  rw [word_kind]
  cases meaning : keyword? (String.ofList (cs.takeWhile isWordPart)) with
  | none => simp
  | some kind =>
      obtain ⟨⟨script, k⟩, found, rfl⟩ := Option.map_eq_some_iff.mp meaning
      exact spellings_ne_template script _ (mem_spellings_of_lookup found)

/-- A template begins with a backtick and is closed. -/
theorem read_template {c : Char} {cs : List Char} (h : (Lexeme.read c cs).kind = .template) :
    Lexeme.read c cs = Lexeme.template cs ∧ (splitTemplate .text cs).closed = true := by
  cases Lexeme.manner c with
  | number _ lexeme => simp [lexeme, number_kind] at h
  | word _ lexeme => exact (word_ne_template _ (lexeme cs ▸ h)).elim
  | quoted _ lexeme =>
      simp only [lexeme, Lexeme.quoted] at h
      split at h <;> cases h
  | template _ lexeme =>
      refine ⟨lexeme cs, ?_⟩
      by_contra open_
      simp [lexeme, Lexeme.template, open_] at h
  | symbol lexeme => exact (symbol_kind_ne c cs (by decide) (lexeme cs ▸ h)).elim

/-- The text of a template token is its body between backticks, and its value is that of the
body. -/
theorem body_of_template {p : Place} {cs : List Char} {t : Token} (lexed : t ∈ tokensFrom p cs)
    (template : t.kind = .template) :
    ∃ body, t.text = String.ofList ('`' :: body ++ ['`']) ∧ Scans .text body ∧
      Grammar.templateBody t = templateValue .text body := by
  obtain ⟨ts, whole, same⟩ := exists_tokensFrom p cs
  rw [whole, List.mem_append, List.mem_singleton] at lexed
  rcases lexed with inner | rfl
  · have shaped : t.shape ∈ shapes cs := by
      rw [← same]
      exact List.mem_map_of_mem inner
    obtain ⟨c, ds, shape⟩ := lexed_of_mem_shapes shaped
    have kind : (Lexeme.read c ds).kind = .template := by
      rw [← template, ← Token.shape_kind, shape]
      rfl
    obtain ⟨read, closed⟩ := read_template kind
    obtain ⟨body, taken, scanned⟩ := splitTemplate_closed closed
    rw [read] at shape
    have text : t.text = String.ofList ('`' :: (splitTemplate .text ds).taken) :=
      congrArg Shape.text shape
    have literal : t.literal = some (.string (String.ofList
        (templateValue .text (splitTemplate .text ds).taken.dropLast))) := by
      rw [← Token.shape_literal, shape]
      simp [Lexeme.shape, Lexeme.template, closed]
    refine ⟨body, by rw [text, taken, List.cons_append], scanned, ?_⟩
    rw [Grammar.templateBody, literal, taken, List.dropLast_concat]
    exact String.toList_ofList
  · cases template

/-- The body of every template that is lexed is cut into texts and sources by the scanner for
its end. The segments of its value are these, with the escapes of texts resolved once and
sources verbatim, if and only if no dollar sign of a text stands in front of an escaped
brace. -/
theorem template_segments_iff {p : Place} {cs : List Char} {t : Token}
    (lexed : t ∈ tokensFrom p cs) (template : t.kind = .template) :
    ∃ body, t.text = String.ofList ('`' :: body ++ ['`']) ∧
      (stretches .text body).flatMap Stretch.written = body ∧
      ∀ place, (templateSegments place (Grammar.templateBody t)).map Segment.bare =
        (stretches .text body).map Stretch.segment ↔ hidesBrace .text body = false := by
  obtain ⟨body, text, scanned, value⟩ := body_of_template lexed template
  refine ⟨body, text, scanned.written_stretches, fun place => ?_⟩
  rw [templateSegments_eq_bareSegments, value]
  exact scanned.agree_iff

/-- A dollar sign and an escaped brace in front of a name and a closing brace are a template
of text only, but its value is split into the source that the name makes. -/
theorem template_segments_iff_hidden :
    ∃ t ∈ tokenize "`$\\\x7bx\x7d`", t.kind = .template ∧
      (∃ place, templateSegments .first (Grammar.templateBody t) = [.source place ['x']]) ∧
      ∃ body, t.text = String.ofList ('`' :: body ++ ['`']) ∧
        (stretches .text body).map Stretch.segment = [.text "$\x7bx\x7d".toList] ∧
        ∀ place, (templateSegments place (Grammar.templateBody t)).map Segment.bare ≠
          (stretches .text body).map Stretch.segment := by
  have tokens : tokenize "`$\\\x7bx\x7d`" =
      [⟨.template, "`$\\\x7bx\x7d`", ⟨0, 7, 1⟩, some (.string "$\x7bx\x7d")⟩, endToken ⟨7, 1⟩] := by
    decide +kernel
  have lexed := tokens ▸ List.mem_cons_self
  refine ⟨_, lexed, rfl, ⟨⟨2, 1⟩, by decide⟩, ?_⟩
  obtain ⟨body, text, _, agree⟩ := template_segments_iff lexed rfl
  obtain rfl : body = "$\\\x7bx\x7d".toList := by
    have chars : '`' :: (body ++ ['`']) = "`$\\\x7bx\x7d`".toList := by
      rw [← List.cons_append, ← String.toList_ofList (l := '`' :: body ++ ['`']), ← text]
    exact List.append_cancel_right (List.cons.inj chars).2
  refine ⟨_, text, by decide, fun place same => ?_⟩
  exact absurd ((agree place).mp same) (by decide)

end TwoScript
