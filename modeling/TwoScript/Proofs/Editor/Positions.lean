import Mathlib.Algebra.Ring.Nat
import Mathlib.Data.List.DropRight
import Mathlib.Tactic.ByContra
import TwoScript.Editor.Position
import TwoScript.Proofs.Token.Lossless

/-!
# Offsets and positions

The position of an offset counts the line feeds in front of it, and the UTF-16 units since the
last of them. Seeking a position stops at the first place between characters that lies on its
line and not in front of its column, or at the end of the line. Both walk over the same
places, so one undoes the other: `offsets_and_positions`.
-/

namespace TwoScript

def unitLength (cs : List Char) : Nat :=
  cs.foldr (fun c n => unitSize c + n) 0

@[simp] theorem unitLength_append (cs ds : List Char) :
    unitLength (cs ++ ds) = unitLength cs + unitLength ds := by
  induction cs with
  | nil => simp [unitLength]
  | cons c cs ih => simpa [unitLength, Nat.add_assoc] using ih

theorem unitLength_singleton (c : Char) : unitLength [c] = unitSize c := rfl

/-- An offset between two characters of a source, or at one of its ends. -/
def IsBoundary (source : String) (offset : Nat) : Prop :=
  ∃ before after, source.toList = before ++ after ∧ byteLength before = offset

namespace Position

/-! ## Order -/

/-- Lines come first, then columns. -/
instance : LE Position where
  le p q := p.line < q.line ∨ p.line = q.line ∧ p.column ≤ q.column

variable {p q r : Position} {c : Char} {cs before after : List Char}

theorem le_def : p ≤ q ↔ p.line < q.line ∨ p.line = q.line ∧ p.column ≤ q.column := Iff.rfl

theorem le_refl (p : Position) : p ≤ p := .inr ⟨rfl, Nat.le_refl _⟩

theorem le_trans (first : p ≤ q) (second : q ≤ r) : p ≤ r := by
  rw [le_def] at *
  omega

theorem column_le (h : p ≤ q) (same : p.line = q.line) : p.column ≤ q.column := by
  rw [le_def] at h
  omega

theorem le_after (p : Position) (c : Char) : p ≤ p.after c := by
  unfold after
  split
  · exact .inl (Nat.lt_succ_self _)
  · exact .inr ⟨rfl, Nat.le_add_right _ _⟩

/-! ## Along a text -/

def along (p : Position) (cs : List Char) : Position :=
  cs.foldl Position.after p

@[simp] theorem along_nil (p : Position) : p.along [] = p := rfl

@[simp] theorem along_cons (p : Position) (c : Char) (cs : List Char) :
    p.along (c :: cs) = (p.after c).along cs := rfl

theorem along_append (p : Position) (cs ds : List Char) :
    p.along (cs ++ ds) = (p.along cs).along ds := List.foldl_append

theorem le_along (p : Position) (cs : List Char) : p ≤ p.along cs := by
  induction cs generalizing p with
  | nil => exact le_refl p
  | cons c cs ih => exact le_trans (le_after p c) (ih _)

theorem line_after (p : Position) (c : Char) : (p.after c).line = p.line + lineFeeds [c] := by
  unfold after
  split
  · rename_i line
    simp [lineFeeds, line]
  · rename_i line
    simp [lineFeeds, line]

/-- Every line feed begins a line. -/
theorem line_along (p : Position) (cs : List Char) :
    (p.along cs).line = p.line + lineFeeds cs := by
  induction cs generalizing p with
  | nil => rfl
  | cons c cs ih =>
      rw [along_cons, ih, line_after, Nat.add_assoc, ← lineFeeds_append, List.singleton_append]

/-- The beginning of a text moves to its last line. -/
theorem column_along_first (cs : List Char) :
    (first.along cs).column = unitLength (cs.rtakeWhile (· != '\n')) := by
  induction cs using List.reverseRecOn with
  | nil => rfl
  | append_singleton cs c ih =>
      rw [along_append, along_cons, along_nil, after, List.rtakeWhile_concat]
      split
      · rename_i line
        simp [line, unitLength]
      · rename_i line
        simp [line, ih, unitLength_append, unitLength_singleton]

/-- A character takes at least as many bytes as UTF-16 units. -/
theorem unitSize_le (c : Char) : unitSize c ≤ c.utf8Size := by
  have long := c.utf8Size_pos
  unfold unitSize
  split
  · exact long
  · rename_i high
    have wide : ∀ n : UInt32, n.toNat < 0x10000 → ¬c.val ≤ n := by
      intro n small below
      have := UInt32.le_iff_toNat_le.mp below
      exact high (by show c.val.toNat < 0x10000; omega)
    rw [Char.utf8Size, if_neg (wide _ (by decide)), if_neg (wide _ (by decide)),
      if_neg (wide _ (by decide))]
    decide

/-- Neither lines nor columns run ahead of the bytes. -/
theorem along_le_byteLength (p : Position) (cs : List Char) :
    (p.along cs).line + (p.along cs).column ≤ p.line + p.column + byteLength cs := by
  induction cs generalizing p with
  | nil => exact Nat.le_refl _
  | cons c cs ih =>
      have rest := ih (p.after c)
      have step : (p.after c).line + (p.after c).column ≤ p.line + p.column + c.utf8Size := by
        have long := c.utf8Size_pos
        have units := unitSize_le c
        unfold after
        split <;> simp only <;> omega
      rw [along_cons, byteLength_cons]
      omega

/-! ## From offsets to positions -/

theorem advance_zero (p : Position) (cs : List Char) : p.advance 0 cs = p := by
  cases cs <;> rfl

theorem advance_append (p : Position) (before after : List Char) :
    p.advance (byteLength before) (before ++ after) = p.along before := by
  induction before generalizing p with
  | nil => exact advance_zero p after
  | cons c before ih =>
      have long := c.utf8Size_pos
      rw [List.cons_append, advance, byteLength_cons, if_neg (by omega), Nat.add_sub_cancel_left,
        ih, along_cons]

theorem exists_advance (p : Position) (bytes : Nat) (cs : List Char) :
    ∃ before after, cs = before ++ after ∧ p.advance bytes cs = p.along before := by
  induction cs generalizing p bytes with
  | nil => exact ⟨[], [], rfl, rfl⟩
  | cons c cs ih =>
      rw [advance]
      split
      · exact ⟨[], c :: cs, rfl, rfl⟩
      · obtain ⟨before, after, rfl, there⟩ := ih (p.after c) (bytes - c.utf8Size)
        exact ⟨c :: before, after, rfl, there⟩

theorem advance_mono (p : Position) (cs : List Char) {m n : Nat} (h : m ≤ n) :
    p.advance m cs ≤ p.advance n cs := by
  induction cs generalizing p m n with
  | nil => exact le_refl p
  | cons c cs ih =>
      by_cases start : m = 0
      · obtain ⟨before, _, _, there⟩ := exists_advance p n (c :: cs)
        rw [start, advance_zero, there]
        exact le_along p before
      · rw [advance, if_neg start, advance, if_neg (by omega)]
        exact ih _ (by omega)

/-! ## From positions to offsets -/

/-- Behind a character the position is another one. -/
theorem not_stops_of_after_le (behind : p.after c ≤ q) :
    ¬(p.line = q.line ∧ (q.column ≤ p.column ∨ c = '\n')) := by
  have units : 0 < unitSize c := by
    unfold unitSize
    split <;> decide
  rw [le_def, Position.after] at behind
  by_cases line : c = '\n'
  · rw [if_pos line] at behind
    simp only at behind
    omega
  · rw [if_neg line] at behind
    simp only [line, or_false] at behind ⊢
    omega

theorem seek_along (p : Position) (offset : Nat) (before after : List Char) :
    (p.along before).seek p offset (before ++ after) = some (offset + byteLength before) := by
  induction before generalizing p offset with
  | nil => cases after <;> simp [seek]
  | cons c before ih =>
      have further := not_stops_of_after_le (le_along (p.after c) before)
      rw [List.cons_append, along_cons, seek, if_neg further, ih, byteLength_cons, Nat.add_assoc]

/-- The seeking of a position ends at `q`, in front of the characters `after`. -/
def StopsAt (target q : Position) (after : List Char) : Prop :=
  q.line = target.line ∧
    (target.column ≤ q.column ∨ after = [] ∨ after.head? = some '\n')

/-- Seeking finds the first place at which it may stop. -/
theorem seek_first {target : Position} {offset o : Nat} (found : target.seek p offset cs = some o) :
    ∃ before after, cs = before ++ after ∧ o = offset + byteLength before ∧
      target.StopsAt (p.along before) after ∧
      ∀ start c rest, before = start ++ c :: rest →
        ¬target.StopsAt (p.along start) (c :: (rest ++ after)) := by
  induction cs generalizing p offset with
  | nil =>
      rw [seek] at found
      split at found
      · rename_i line
        cases found
        exact ⟨[], [], rfl, rfl, ⟨line, .inr (.inl rfl)⟩, by simp⟩
      · cases found
  | cons c cs ih =>
      rw [seek] at found
      split at found
      · rename_i stop
        cases found
        exact ⟨[], c :: cs, rfl, rfl, ⟨stop.1, by simpa using stop.2⟩, by simp⟩
      · rename_i go
        obtain ⟨before, after, rfl, rfl, stops, earlier⟩ := ih found
        refine ⟨c :: before, after, rfl, by simp [Nat.add_assoc], stops, ?_⟩
        intro start d rest split
        cases start with
        | nil =>
            obtain ⟨rfl, rfl⟩ := List.cons.inj split
            simpa [StopsAt] using go
        | cons e start =>
            obtain ⟨rfl, later⟩ := List.cons.inj split
            exact earlier start d rest later

/-- Seeking finds something if it may stop somewhere. -/
theorem seek_isSome {target : Position} (offset : Nat)
    (stops : target.StopsAt (p.along before) after) :
    (target.seek p offset (before ++ after)).isSome = true := by
  induction before generalizing p offset with
  | nil =>
      cases after with
      | nil => simp [seek, show p.line = target.line from stops.1]
      | cons c after =>
          have here : p.line = target.line ∧ (target.column ≤ p.column ∨ c = '\n') := by
            simpa [StopsAt] using stops
          simp [seek, here]
  | cons c before ih =>
      rw [List.cons_append, seek]
      split
      · rfl
      · exact ih _ stops

end Position

/-- Every line has an end. -/
theorem exists_lineEnd {cs : List Char} {n : Nat} (h : n ≤ lineFeeds cs) :
    ∃ before after, cs = before ++ after ∧ lineFeeds before = n ∧
      (after = [] ∨ after.head? = some '\n') := by
  induction cs generalizing n with
  | nil => exact ⟨[], [], rfl, (Nat.le_zero.mp h).symm, .inl rfl⟩
  | cons c cs ih =>
      by_cases line : c = '\n'
      · subst line
        cases n with
        | zero => exact ⟨[], '\n' :: cs, rfl, rfl, .inr rfl⟩
        | succ n =>
            obtain ⟨before, after, rfl, count, ends⟩ := ih (n := n) (by simpa [lineFeeds] using h)
            exact ⟨'\n' :: before, after, rfl, by simpa [lineFeeds] using count, ends⟩
      · obtain ⟨before, after, rfl, count, ends⟩ := ih (n := n) (by simpa [lineFeeds, line] using h)
        exact ⟨c :: before, after, rfl, by simpa [lineFeeds, line] using count, ends⟩

/-! ## Texts -/

section

variable {source : String} {before after : List Char} {o : Nat}

theorem positionAt_byteLength (whole : source.toList = before ++ after) :
    positionAt source (byteLength before) = Position.first.along before := by
  rw [positionAt, whole, Position.advance_append]

/-- The boundaries of a text are the places that positions are computed at. -/
theorem IsBoundary.exists_along (h : IsBoundary source o) :
    ∃ before after, source.toList = before ++ after ∧ byteLength before = o ∧
      positionAt source o = Position.first.along before := by
  obtain ⟨before, after, whole, rfl⟩ := h
  exact ⟨before, after, whole, rfl, positionAt_byteLength whole⟩

theorem offsetAt?_positionAt (h : IsBoundary source o) :
    offsetAt? source (positionAt source o) = some o := by
  obtain ⟨before, after, whole, rfl, place⟩ := h.exists_along
  rw [place, offsetAt?, whole, Position.seek_along, Nat.zero_add]

/-- No count of a position exceeds the number of bytes. -/
theorem positionAt_le_utf8ByteSize (source : String) (o : Nat) :
    (positionAt source o).line + (positionAt source o).column ≤ source.utf8ByteSize := by
  obtain ⟨before, after, whole, place⟩ := Position.exists_advance .first o source.toList
  have bound := Position.along_le_byteLength .first before
  have size : byteLength before ≤ source.utf8ByteSize := by
    rw [← byteLength_toList, whole, byteLength_append]
    exact Nat.le_add_right _ _
  rw [positionAt, place]
  simp only [Position.first] at bound ⊢
  omega

/-- A boundary on the line of a position, at the least column of such a boundary that is not in
front of the column asked for, or at the end of the line if all are. -/
def Nearest (source : String) (p : Position) (o : Nat) : Prop :=
  ∃ before after, source.toList = before ++ after ∧ byteLength before = o ∧
    (positionAt source o).line = p.line ∧
    (p.column ≤ (positionAt source o).column ∧
        (∀ o', IsBoundary source o' → (positionAt source o').line = p.line →
          p.column ≤ (positionAt source o').column →
            (positionAt source o).column ≤ (positionAt source o').column) ∨
      (after = [] ∨ after.head? = some '\n') ∧
        ∀ o', IsBoundary source o' → (positionAt source o').line = p.line →
          (positionAt source o').column < p.column)

/-- Of two boundaries one lies in front of the other. -/
theorem IsBoundary.compare (whole : source.toList = before ++ after) (h : IsBoundary source o) :
    (∃ more rest, after = more ++ rest ∧
      positionAt source o = (Position.first.along before).along more) ∨
    ∃ start c rest, before = start ++ c :: rest ∧
      positionAt source o = Position.first.along start := by
  obtain ⟨before', after', whole', rfl, place⟩ := h.exists_along
  rw [whole] at whole'
  rcases List.append_eq_append_iff.mp whole' with ⟨more, rfl, rfl⟩ | ⟨more, rfl, rfl⟩
  · exact .inl ⟨more, after', rfl, by rw [place, Position.along_append]⟩
  · cases more with
    | nil => exact .inl ⟨[], after, rfl, by simpa using place⟩
    | cons c more => exact .inr ⟨before', c, more, rfl, place⟩

theorem nearest_offsetAt? {p : Position} (found : offsetAt? source p = some o) :
    Nearest source p o := by
  obtain ⟨before, after, whole, rfl, ⟨line, stops⟩, earlier⟩ := Position.seek_first found
  rw [Nat.zero_add]
  have place := positionAt_byteLength whole
  rw [← place] at line stops
  refine ⟨before, after, whole, rfl, line, ?_⟩
  by_cases reached : p.column ≤ (positionAt source (byteLength before)).column
  · refine .inl ⟨reached, fun o' boundary same column => ?_⟩
    rcases boundary.compare whole with ⟨more, _, _, there⟩ | ⟨start, c, rest, split, there⟩
    · rw [← place] at there
      rw [there] at same ⊢
      exact Position.column_le (Position.le_along _ more) (line.trans same.symm)
    · rw [there] at same column
      exact (earlier start c rest split ⟨same, .inl column⟩).elim
  · have ends := stops.resolve_left reached
    refine .inr ⟨ends, fun o' boundary same => ?_⟩
    rcases boundary.compare whole with ⟨more, rest, split, there⟩ | ⟨start, c, rest, split, there⟩
    · rw [← place] at there
      cases more with
      | nil =>
          rw [there]
          exact Nat.lt_of_not_le reached
      | cons d more =>
          -- The line ends here, so the other boundary lies on a later one.
          obtain rfl : d = '\n' := by simpa [split] using ends
          rw [there, Position.line_along, line] at same
          simp [lineFeeds] at same
    · rw [there] at same ⊢
      exact Nat.lt_of_not_le fun column => earlier start c rest split ⟨same, .inl column⟩

/-- A position has no offset if and only if the text ends before its line. -/
theorem offsetAt?_eq_none_iff {p : Position} :
    offsetAt? source p = none ↔ source.toList.count '\n' < p.line := by
  constructor
  · intro missing
    by_contra short
    obtain ⟨before, after, whole, line, ends⟩ := exists_lineEnd (Nat.le_of_not_lt short)
    have stops : p.StopsAt (Position.first.along before) after := by
      refine ⟨?_, .inr ends⟩
      rw [Position.line_along, line]
      exact Nat.zero_add _
    have found := Position.seek_isSome 0 stops
    rw [← whole, ← offsetAt?, missing] at found
    cases found
  · intro short
    refine Option.eq_none_iff_forall_ne_some.mpr fun o found => ?_
    obtain ⟨before, after, whole, _, stops, _⟩ := Position.seek_first found
    have line := stops.1
    rw [Position.line_along] at line
    have total : source.toList.count '\n' = lineFeeds before + lineFeeds after := by
      rw [← lineFeeds_append, ← whole]
      rfl
    simp only [Position.first] at line
    omega

end

/-- Offsets and positions are converted back and forth. The position of a boundary counts the
line feeds in front of it and the UTF-16 units behind the last of them, and leads back to the
boundary; a later offset has no earlier position. A position has an offset unless its line is
missing, and then the nearest one. In a text of less than 2³² bytes all counts fit into 32
bits. -/
theorem offsets_and_positions (source : String) :
    (∀ before after, source.toList = before ++ after →
      positionAt source (byteLength before) =
        ⟨before.count '\n', unitLength (before.rtakeWhile (· != '\n'))⟩) ∧
    (∀ o, IsBoundary source o → offsetAt? source (positionAt source o) = some o) ∧
    (∀ o o', o ≤ o' → positionAt source o ≤ positionAt source o') ∧
    (∀ p, (offsetAt? source p = none ↔ source.toList.count '\n' < p.line) ∧
      ∀ o, offsetAt? source p = some o → Nearest source p o) ∧
    (source.utf8ByteSize < 2 ^ 32 → ∀ o, (positionAt source o).line < 2 ^ 32 ∧
      (positionAt source o).column < 2 ^ 32) := by
  refine ⟨fun before after whole => ?_, fun o => offsetAt?_positionAt,
    fun o o' later => Position.advance_mono _ _ later,
    fun p => ⟨offsetAt?_eq_none_iff, fun o => nearest_offsetAt?⟩, fun small o => ?_⟩
  · rw [positionAt_byteLength whole, ← Position.column_along_first]
    have line := Position.line_along .first before
    rw [Position.first, Nat.zero_add] at line
    rw [← show lineFeeds before = before.count '\n' from rfl, ← line]
    rfl
  · have bound := positionAt_le_utf8ByteSize source o
    omega

/-- A column between the two units of a character leads behind the character, and the position
of that place leads there as well. -/
theorem offsets_and_positions_pair :
    IsBoundary "अ😀\nb" 7 ∧ positionAt "अ😀\nb" 7 = ⟨0, 3⟩ ∧
      offsetAt? "अ😀\nb" (positionAt "अ😀\nb" 7) = some 7 ∧
      offsetAt? "अ😀\nb" ⟨0, 2⟩ = some 7 ∧ Nearest "अ😀\nb" ⟨0, 2⟩ 7 := by
  have boundary : IsBoundary "अ😀\nb" 7 := ⟨['अ', '😀'], ['\n', 'b'], rfl, rfl⟩
  have found : offsetAt? "अ😀\nb" ⟨0, 2⟩ = some 7 := by decide
  obtain ⟨_, back, _, nearest, _⟩ := offsets_and_positions "अ😀\nb"
  exact ⟨boundary, by decide, back 7 boundary, found, (nearest ⟨0, 2⟩).2 7 found⟩

end TwoScript
