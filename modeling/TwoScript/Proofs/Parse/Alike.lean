import TwoScript.Proofs.Parse.Resume

/-!
# Programs that look alike

Reading resumes at the same token in two runs over tokens that look alike, so whole
programs look alike, their errors included: `programFrom_alike`.
-/

namespace TwoScript

namespace Cursor

@[simp] theorem ahead_skip (n : Nat) (c : Cursor) : (c.skip n).ahead = c.ahead.drop n := by
  induction n generalizing c with
  | zero => rfl
  | succ n ih =>
      rw [skip, ih, ahead_next]
      cases c.ahead <;> simp

end Cursor

/-! ## Cursors -/

namespace View

variable {v : View}

theorem Similar.map_kind {b : Bool} {ts ts' : List Token} (h : v.Similar b ts ts') :
    ts.map Token.kind = ts'.map Token.kind := by
  induction ts generalizing b ts' with
  | nil => cases ts' with
    | nil => rfl
    | cons => cases h
  | cons t ts ih => cases ts' with
    | nil => cases h
    | cons t' ts' => rw [List.map_cons, List.map_cons, h.1.kind, ih h.2.2]

theorem Ahead.map_kind {c d : Cursor} (h : v.Ahead c d) :
    c.ahead.map Token.kind = d.ahead.map Token.kind := by
  obtain ⟨⟨b, similar⟩, _, _⟩ := h
  exact similar.map_kind

theorem Ahead.length_eq {c d : Cursor} (h : v.Ahead c d) : d.ahead.length = c.ahead.length := by
  obtain ⟨⟨b, similar⟩, _, _⟩ := h
  exact similar.length_eq

theorem Ahead.skip {c d : Cursor} (h : v.Ahead c d) (n : Nat) : v.Ahead (c.skip n) (d.skip n) := by
  induction n generalizing c d with
  | zero => exact h
  | succ n ih => exact ih h.next

theorem Ahead.skip_previous {c d : Cursor} (h : v.Ahead c d) (previous : v.Previous c d)
    (n : Nat) : v.Previous (c.skip n) (d.skip n) := by
  induction n generalizing c d with
  | zero => exact previous
  | succ n ih => exact ih h.next (h.keeps_previous previous)

theorem Previous.map_kind {c d : Cursor} (h : v.Previous c d) :
    c.previous.map (·.kind) = d.previous.map (·.kind) := by
  unfold Previous at h
  split at h
  · rename_i left right
    rw [left, right, Option.map_some, Option.map_some, h.kind]
  · rename_i left right
    rw [left, right]
  · cases h

end View

/-- The cursor of a failed statement, behind at least one token. -/
def passed (start c : Cursor) : Cursor :=
  if c.ahead.length = start.ahead.length then c.next else c

def resume (start c : Cursor) : Cursor :=
  let depth := openBraces (start.ahead.take (start.ahead.length - c.ahead.length))
  if depth = 0 ∧ c.previous.map (·.kind) = some .semicolon then c
  else c.skip (boundary depth c.ahead)

theorem recover_eq (start c : Cursor) : recover start c = resume start (passed start c) := rfl

namespace View

variable {v : View}

theorem Ahead.resume {start start' c d : Cursor} (begins : v.Ahead start start')
    (h : v.Ahead c d) (previous : v.Previous c d) :
    v.Ahead (resume start c) (resume start' d) ∧
      v.Previous (resume start c) (resume start' d) := by
  have depth : openBraces (start.ahead.take (start.ahead.length - c.ahead.length)) =
      openBraces (start'.ahead.take (start'.ahead.length - d.ahead.length)) := by
    apply openBraces_congr
    rw [List.map_take, List.map_take, begins.map_kind, begins.length_eq, h.length_eq]
  simp only [TwoScript.resume, ← depth, previous.map_kind, boundary_congr _ h.map_kind]
  split
  · exact ⟨h, previous⟩
  · exact ⟨h.skip _, h.skip_previous previous _⟩

/-- Reading resumes at cursors that belong together. -/
theorem Ahead.recover {start start' c d : Cursor} (begins : v.Ahead start start')
    (inner : start.peek.kind ≠ .endOfFile) (h : v.Ahead c d)
    (previous : v.Previous c d ∨ c.ahead.length = start.ahead.length) :
    v.Ahead (recover start c) (recover start' d) ∧
      v.Previous (recover start c) (recover start' d) := by
  have inside : c.ahead.length = start.ahead.length → c.peek.kind ≠ .endOfFile := by
    intro same ended
    rw [Cursor.peek_kind_eq_end.mp ended] at same
    exact inner (Cursor.peek_kind_eq_end.mpr (List.length_eq_zero_iff.mp same.symm))
  rw [recover_eq, recover_eq]
  unfold passed
  rw [begins.length_eq, h.length_eq]
  split
  · rename_i same
    exact begins.resume h.next (h.previous_next (inside same))
  · rename_i passed
    exact begins.resume h (previous.resolve_right passed)

end View

/-! ## Programs -/

namespace Program

def relabel (r : Labels) (text : String → String) (p : Program) : Program :=
  ⟨p.statements.map (Statement.relabel r), p.errors.map (ParseError.relabel r.span text)⟩

theorem relabel_push (r : Labels) (text : String → String) (s : Statement)
    (e : Option ParseError) (p : Program) :
    (p.push s e).relabel r text =
      (p.relabel r text).push (s.relabel r) (e.map (ParseError.relabel r.span text)) := by
  cases e <;> rfl

end Program

/-- One statement of two programs that look alike. -/
theorem statementOrFailure_alike {v : View} {g : Grammar} (agrees : g.Agrees v) {c d : Cursor}
    (h : v.Ahead c d) (inner : c.peek.kind ≠ .endOfFile) :
    ∃ s s' e e' c' d', statementOrFailure g c = (s, e, c') ∧
      statementOrFailure g d = (s', e', d') ∧ s.relabel v.left = s'.relabel v.right ∧
      e.map (ParseError.relabel v.left.span v.text) =
        e'.map (ParseError.relabel v.right.span v.text) ∧ v.Ahead c' d' := by
  have start : (Pairing.alike v c.ahead.length).rel ⟨true, 0, false⟩ c d := ⟨h, .inr ⟨rfl, rfl⟩⟩
  unfold statementOrFailure
  rcases (agrees.statement start).ends with ⟨s, s', c', d', left, right, same, there, _⟩ |
    ⟨e, e', c', d', k, left, right, same, there, previous⟩
  · rw [left, right]
    exact ⟨s, s', none, none, c', d', rfl, rfl, same, rfl, there⟩
  · rw [left, right]
    obtain ⟨ahead, before⟩ := h.recover inner there (previous.imp_right And.right)
    refine ⟨_, _, some e, some e', _, _, rfl, rfl, ?_, congrArg some same, ahead⟩
    exact congrArg Statement.failed (before.spanFrom h.peek.span)

/-- Programs over tokens that look alike look alike, and end at cursors that belong
together. -/
theorem programFrom_agree {v : View} {g : Grammar} (agrees : g.Agrees v) {c d : Cursor}
    (h : v.Ahead c d) :
    (programFrom g c).1.relabel v.left v.text = (programFrom g d).1.relabel v.right v.text ∧
      v.Ahead (programFrom g c).2 (programFrom g d).2 := by
  induction length : c.ahead.length using Nat.strongRecOn generalizing c d with
  | ind n ih =>
      rw [programFrom, programFrom.eq_def g d]
      have ended : d.atEnd = c.atEnd := by
        rw [Cursor.atEnd, Cursor.atEnd, Bool.eq_iff_iff, List.isEmpty_iff_length_eq_zero,
          List.isEmpty_iff_length_eq_zero, h.length_eq]
      rw [ended]
      split
      · exact ⟨rfl, h⟩
      · rename_i more
        have inner : c.peek.kind ≠ .endOfFile := by
          intro ended
          simp [Cursor.atEnd, Cursor.peek_kind_eq_end.mp ended] at more
        obtain ⟨s, s', e, e', c', d', left, right, statement, error, there⟩ :=
          statementOrFailure_alike agrees h inner
        rw [left, right]
        simp only [h.length_eq, there.length_eq]
        split
        · rename_i shorter
          obtain ⟨programs, behind⟩ := ih _ (by omega) there rfl
          refine ⟨?_, behind⟩
          rw [Program.relabel_push, Program.relabel_push, programs, statement, error]
        · refine ⟨?_, there⟩
          rw [Program.relabel_push, Program.relabel_push, statement, error]
          rfl

/-- Programs over tokens that look alike look alike. -/
theorem programFrom_alike {v : View} {g : Grammar} (agrees : g.Agrees v) {c d : Cursor}
    (h : v.Ahead c d) :
    (programFrom g c).1.relabel v.left v.text = (programFrom g d).1.relabel v.right v.text :=
  (programFrom_agree agrees h).1

end TwoScript
