import TwoScript.Token.Template

/-!
# Segments of a template

Splitting a template keeps texts apart: none is empty, and no two stand next to each
other. Where the template begins matters only for the places of its sources.
-/

namespace TwoScript

namespace Segment

def bare : Segment → Segment
  | text cs => text cs
  | source _ cs => source .first cs

def beginsWithText : List Segment → Bool
  | text _ :: _ => true
  | _ => false

/-- No text is empty or follows another one. -/
def Apart : List Segment → Prop
  | [] => True
  | text cs :: rest => cs ≠ [] ∧ beginsWithText rest = false ∧ Apart rest
  | source _ _ :: rest => Apart rest

theorem apart_pushText (c : Char) {ss : List Segment} (h : Apart ss) :
    Apart (pushText c ss) := by
  cases ss with
  | nil => simp [pushText, Apart, beginsWithText]
  | cons s rest =>
      cases s with
      | text cs => simpa [pushText, Apart] using h.2
      | source p cs => simpa [pushText, Apart, beginsWithText] using h

theorem apart_pushSource (c : Char) {ss : List Segment} (h : Apart ss) :
    Apart (pushSource c ss) := by
  unfold pushSource
  split
  · exact h
  · exact h

theorem bare_pushText (c : Char) (ss : List Segment) :
    (pushText c ss).map bare = pushText c (ss.map bare) := by
  cases ss with
  | nil => rfl
  | cons s rest => cases s <;> rfl

theorem bare_pushSource (c : Char) (ss : List Segment) :
    (pushSource c ss).map bare = pushSource c (ss.map bare) := by
  cases ss with
  | nil => rfl
  | cons s rest => cases s <;> rfl

end Segment

open Segment

theorem segments_apart (m : TemplateMode) (begun here : Place) (cs : List Char) :
    Apart (segments m begun here cs) := by
  induction cs generalizing m begun here with
  | nil => cases m <;> simp [segments, Apart]
  | cons c cs ih =>
      cases m with
      | text =>
          simp only [segments]
          split
          · exact ih _ _ _
          · exact apart_pushText c (ih _ _ _)
      | escape => exact apart_pushText c (ih _ _ _)
      | brace => exact ih _ _ _
      | source n =>
          simp only [segments]
          split
          · exact ih _ _ _
          · exact apart_pushSource c (ih _ _ _)

theorem segments_bare (m : TemplateMode) (begun here begun' here' : Place) (cs : List Char) :
    (segments m begun here cs).map bare = (segments m begun' here' cs).map bare := by
  induction cs generalizing m begun here begun' here' with
  | nil => cases m <;> simp [segments, bare]
  | cons c cs ih =>
      cases m with
      | text =>
          simp only [segments]
          split
          · exact ih _ _ _ _ _
          · rw [bare_pushText, bare_pushText, ih]
      | escape =>
          simp only [segments]
          rw [bare_pushText, bare_pushText, ih]
      | brace => exact ih _ _ _ _ _
      | source n =>
          simp only [segments]
          split
          · simp only [List.map_cons, bare]
            rw [ih]
          · rw [bare_pushSource, bare_pushSource, ih]

/-- The segments of a template are the same up to places wherever it begins. -/
theorem templateSegments_bare (here there : Place) (value : List Char) :
    (templateSegments here value).map bare = (templateSegments there value).map bare :=
  segments_bare .text here here there there value

end TwoScript
