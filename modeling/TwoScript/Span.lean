/-!
# Spans of source text

Offsets count the bytes of the UTF-8 text, and lines count from one. A `Span` is a
stretch of text together with the line on which it starts; a `Place` is a single
point that moves forward over characters as they are read.
-/

namespace TwoScript

/-- A stretch of source text, from the byte `start` up to but excluding the byte
`stop`, that starts on `line`. -/
structure Span where
  start : Nat
  stop : Nat
  line : Nat
deriving DecidableEq, Repr, Inhabited

namespace Span

/-- The least stretch around two spans. It starts on the line of the one that
starts first, and on the line of `a` when both start together. -/
def merge (a b : Span) : Span where
  start := min a.start b.start
  stop := max a.stop b.stop
  line := if a.start ≤ b.start then a.line else b.line

/-- The same stretch after `bytes` bytes and `lines` lines were put in front. -/
def shift (bytes lines : Nat) (s : Span) : Span where
  start := s.start + bytes
  stop := s.stop + bytes
  line := s.line + lines

@[simp] theorem merge_self (s : Span) : s.merge s = s := by
  simp [merge]

@[simp] theorem shift_zero (s : Span) : s.shift 0 0 = s := rfl

theorem shift_shift (s : Span) (b₁ l₁ b₂ l₂ : Nat) :
    (s.shift b₁ l₁).shift b₂ l₂ = s.shift (b₁ + b₂) (l₁ + l₂) := by
  simp [shift, Nat.add_assoc]

theorem merge_shift (a b : Span) (bytes lines : Nat) :
    (a.shift bytes lines).merge (b.shift bytes lines) = (a.merge b).shift bytes lines := by
  simp only [merge, shift, Nat.add_le_add_iff_right, Span.mk.injEq]
  refine ⟨by omega, by omega, ?_⟩
  split <;> rfl

end Span

/-- The number of bytes that characters take in UTF-8. -/
def byteLength (cs : List Char) : Nat :=
  cs.foldr (fun c n => c.utf8Size + n) 0

def lineFeeds (cs : List Char) : Nat :=
  cs.count '\n'

@[simp] theorem byteLength_nil : byteLength [] = 0 := rfl

@[simp] theorem byteLength_cons (c : Char) (cs : List Char) :
    byteLength (c :: cs) = c.utf8Size + byteLength cs := rfl

@[simp] theorem byteLength_append (cs ds : List Char) :
    byteLength (cs ++ ds) = byteLength cs + byteLength ds := by
  induction cs with
  | nil => simp
  | cons c cs ih => rw [List.cons_append, byteLength_cons, byteLength_cons, ih, Nat.add_assoc]

@[simp] theorem lineFeeds_nil : lineFeeds [] = 0 := rfl

@[simp] theorem lineFeeds_append (cs ds : List Char) :
    lineFeeds (cs ++ ds) = lineFeeds cs + lineFeeds ds := by
  simp [lineFeeds]

/-- A point of the source text: a byte offset and the line it lies on. -/
structure Place where
  offset : Nat
  line : Nat
deriving DecidableEq, Repr, Inhabited

namespace Place

def first : Place := ⟨0, 1⟩

/-- The point behind `cs`, when `cs` begins at `p`. -/
def after (p : Place) (cs : List Char) : Place :=
  ⟨p.offset + byteLength cs, p.line + lineFeeds cs⟩

def span (p : Place) (cs : List Char) : Span :=
  ⟨p.offset, p.offset + byteLength cs, p.line⟩

@[simp] theorem after_nil (p : Place) : p.after [] = p := rfl

theorem after_append (p : Place) (cs ds : List Char) :
    p.after (cs ++ ds) = (p.after cs).after ds := by
  simp [after, Nat.add_assoc]

end Place

end TwoScript
