import TwoScript.Proofs.Token.Lossless
import TwoScript.Proofs.Token.Stretch

/-!
# Where the sources of a template stand

The places of sources count the characters of the value of a template, in which escapes are
resolved. A value is never longer than what it was written with, so that sources stay inside
their template and in order; without escapes it is what was written, and places are exact.
-/

namespace TwoScript

/-! ## Tokens of a text at any place -/

/-- Tokens lie inside their text and follow each other, each as long as what it is written
with. -/
theorem frame_tokensFrom (p : Place) (cs : List Char) :
    (∀ t ∈ tokensFrom p cs, p.offset ≤ t.span.start ∧
      t.span.stop = t.span.start + byteLength t.text.toList ∧
      t.span.stop ≤ p.offset + byteLength cs ∧ ∀ x ∈ t.text.toList, x ∈ cs) ∧
    (tokensFrom p cs).Pairwise fun t u => t.span.stop ≤ u.span.start := by
  induction cs using lexemes_induction generalizing p with
  | blank cs split =>
      rw [tokensFrom_of_split p split]
      refine ⟨fun t ht => ?_, List.pairwise_singleton _ _⟩
      obtain rfl := List.mem_singleton.mp ht
      simp [endToken, Place.after]
  | lexeme cs gap c rest split whole ih =>
      rw [tokensFrom_of_split_cons p split]
      generalize Lexeme.read c rest = l at whole ih ⊢
      obtain ⟨later, apart⟩ := ih ((p.after gap).after l.chars)
      simp only [Place.after] at later
      refine ⟨fun t ht => ?_, List.pairwise_cons.mpr ⟨fun u hu => ?_, apart⟩⟩
      · rcases List.mem_cons.mp ht with rfl | ht
        · rw [← whole]
          simp only [Lexeme.token, Place.span, Place.after, String.toList_ofList,
            byteLength_append]
          exact ⟨by omega, trivial, by omega, fun x hx => by simp [hx]⟩
        · obtain ⟨start, size, stop, inside⟩ := later t ht
          rw [← whole, byteLength_append, byteLength_append]
          exact ⟨by omega, size, by omega, fun x hx => by simp [inside x hx]⟩
      · obtain ⟨start, _⟩ := later u hu
        simpa [Lexeme.token, Place.span, Place.after] using start

/-! ## Values -/

theorem utf8Size_resolveEscape (c : Char) : (resolveEscape c).utf8Size ≤ c.utf8Size := by
  have long := c.utf8Size_pos
  unfold resolveEscape
  split
  · exact long
  · split
    · exact long
    · split
      · exact long
      · exact Nat.le_refl _

theorem templateValue_inside {n k : Nesting} {c : Char} (next : n.after c = some k)
    (cs : List Char) :
    templateValue (.source n) (c :: cs) = c :: templateValue (.source k) cs := by
  rw [templateValue, TemplateMode.step_inside next]
  rfl

theorem templateValue_closes {n : Nesting} {c : Char} (next : n.after c = none)
    (cs : List Char) : templateValue (.source n) (c :: cs) = c :: templateValue .text cs := by
  rw [templateValue, TemplateMode.step_closes next]
  rfl

namespace Scans

variable {m : TemplateMode} {body : List Char}

theorem byteLength_templateValue (h : Scans m body) :
    byteLength (templateValue m body) ≤ byteLength body := by
  induction h with
  | done => exact Nat.le_refl _
  | plain escape source _ ih =>
      rw [templateValue_plain escape source, byteLength_cons, byteLength_cons]
      omega
  | escaped c _ ih =>
      have slash : '\\'.utf8Size = 1 := rfl
      have resolved := utf8Size_resolveEscape c
      rw [templateValue_escaped, byteLength_append, byteLength_cons, byteLength_cons]
      split <;> simp only [byteLength_cons, byteLength_nil] <;> omega
  | opens _ ih =>
      rw [templateValue_opens]
      simp only [byteLength_cons]
      omega
  | inside next _ ih =>
      rw [templateValue_inside next, byteLength_cons, byteLength_cons]
      omega
  | closes next _ ih =>
      rw [templateValue_closes next, byteLength_cons, byteLength_cons]
      omega

/-- Without escapes a value is what was written. -/
theorem templateValue_eq (h : Scans m body) (plain : '\\' ∉ body) :
    templateValue m body = body := by
  induction h with
  | done => rfl
  | plain escape source _ ih =>
      rw [templateValue_plain escape source, ih fun later => plain (List.mem_cons_of_mem _ later)]
  | escaped c _ _ => exact absurd List.mem_cons_self plain
  | opens _ ih => rw [templateValue_opens, ih fun later => plain (by simp [later])]
  | inside next _ ih =>
      rw [templateValue_inside next, ih fun later => plain (List.mem_cons_of_mem _ later)]
  | closes next _ ih =>
      rw [templateValue_closes next, ih fun later => plain (List.mem_cons_of_mem _ later)]

end Scans

/-! ## Places of sources -/

/-- The sources among segments stand in a value behind the characters `before`, in order, each
with the place of its first character when the value begins at `here`. -/
inductive Sited (value : List Char) (here : Place) : List Char → List Segment → Prop where
  | nil {before : List Char} : Sited value here before []
  | text {before cs : List Char} {ss : List Segment} (rest : Sited value here before ss) :
      Sited value here before (.text cs :: ss)
  | source {before gap cs after : List Char} {ss : List Segment}
      (whole : value = before ++ gap ++ cs ++ after)
      (rest : Sited value here (before ++ gap ++ cs) ss) :
      Sited value here before (.source (here.after (before ++ gap)) cs :: ss)

namespace Sited

variable {value before : List Char} {here : Place} {ss : List Segment}

theorem earlier {gap : List Char} (h : Sited value here (before ++ gap) ss) :
    Sited value here before ss := by
  generalize behind : before ++ gap = start at h
  induction h generalizing before with
  | nil => exact .nil
  | text _ ih => exact .text (ih behind)
  | @source _ gap' cs after ss whole rest _ =>
      subst behind
      rw [List.append_assoc before] at whole rest ⊢
      exact .source whole rest

theorem pushText (c : Char) (h : Sited value here before ss) :
    Sited value here before (Segment.pushText c ss) := by
  cases h with
  | nil => exact .text .nil
  | text rest => exact .text rest
  | source whole rest => exact .text (.source whole rest)

/-- Every source is a stretch of the value. -/
theorem mem (h : Sited value here before ss) {place : Place} {cs : List Char}
    (member : .source place cs ∈ ss) :
    ∃ left right, value = left ++ cs ++ right ∧ place = here.after left := by
  induction h with
  | nil => cases member
  | text _ ih => exact ih (by simpa using member)
  | @source before gap ds after ss whole _ ih =>
      rcases List.mem_cons.mp member with same | later
      · cases same
        exact ⟨before ++ gap, after, whole, rfl⟩
      · exact ih later

end Sited

/-- Splitting a value keeps the places of its sources. A source under way began behind `start`
and goes on with what is left. -/
theorem sited_segments (here : Place) {value cs before : List Char} (whole : value = before ++ cs) :
    (∀ m begun, (∀ n, m ≠ .source n) →
      Sited value here before (segments m begun (here.after before) cs)) ∧
    ∀ n start taken, before = start ++ taken → ∃ ds after rest,
      segments (.source n) (here.after start) (here.after before) cs
        = .source (here.after start) ds :: rest ∧
      value = before ++ ds ++ after ∧ Sited value here (before ++ ds) rest := by
  induction cs generalizing before with
  | nil =>
      refine ⟨fun m begun plain => ?_, fun n start taken split => ?_⟩
      · cases m with
        | source n => exact absurd rfl (plain n)
        | _ => exact .nil
      · exact ⟨[], [], [], rfl, by simpa using whole, .nil⟩
  | cons c cs ih =>
      have further : value = before ++ [c] ++ cs := by simp [whole]
      obtain ⟨outer, inner⟩ := ih further
      have there : (here.after before).after [c] = here.after (before ++ [c]) :=
        (Place.after_append here before [c]).symm
      refine ⟨fun m begun plain => ?_, fun n start taken split => ?_⟩
      · cases m with
        | source n => exact absurd rfl (plain n)
        | text =>
            have next : ∀ n, TemplateMode.text.step c cs.head? ≠ .source n := by
              grind [TemplateMode.step]
            have rest := (outer _ begun next).earlier
            simp only [segments, there]
            split
            · exact rest
            · exact rest.pushText c
        | escape =>
            simp only [segments, there]
            exact ((outer .text begun (by simp)).earlier).pushText c
        | brace =>
            obtain ⟨ds, after, rest, same, stands, sited⟩ :=
              inner .outermost (before ++ [c]) [] (by simp)
            simp only [segments, there, TemplateMode.step, same]
            exact .source stands sited
      · simp only [segments, there]
        cases next : n.after c with
        | none =>
            rw [TemplateMode.step_closes next]
            refine ⟨[], c :: cs, _, rfl, by simpa using whole, ?_⟩
            rw [List.append_nil]
            exact (outer .text _ (by simp)).earlier
        | some k =>
            obtain ⟨ds, after, rest, same, stands, sited⟩ :=
              inner k start (taken ++ [c]) (by simp [split])
            rw [TemplateMode.step_inside next, if_neg (by simp), same]
            exact ⟨c :: ds, after, rest, rfl, by simpa using stands, by simpa using sited⟩

theorem sited_templateSegments (here : Place) (value : List Char) :
    Sited value here [] (templateSegments here value) := by
  have whole : value = [] ++ value := rfl
  have sited := (sited_segments here whole).1 .text here (by simp)
  rwa [Place.after_nil] at sited

end TwoScript
