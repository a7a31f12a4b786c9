import TwoScript.Editor.Store

/-!
# What the editor was last told

A session keeps every notice that the service has sent. An event either changes nothing and
is not answered, or it is answered with exactly what the store then says about its
document. So the last notice about a document always agrees with the store:
`session_agrees`.
-/

namespace TwoScript

def Notice.uri? : Notice → Option String
  | diagnostics uri _ _ => some uri
  | log _ => none

/-- What is to be said about a document that is stored, or not stored. -/
def Notice.ofDocument? (uri : String) : Option Document → Notice
  | some d => diagnostics uri (some d.version) (TwoScript.diagnostics d.content)
  | none => diagnostics uri none []

namespace DocumentEvent

def uri : DocumentEvent → String
  | opened uri _ _ | changed uri _ _ | closed uri => uri

def isChange : DocumentEvent → Bool
  | changed _ _ _ => true
  | _ => false

end DocumentEvent

/-! ## Single events -/

namespace Store

variable {s : Store} {uri other : String} {d stored : Document}

theorem publication?_insert (s : Store) (uri : String) (d : Document) :
    (s.insert uri d).publication? uri d = some (Notice.ofDocument? uri (some d)) := by
  simp [publication?, Notice.ofDocument?]

theorem record?_eq_some {t : Store} (h : s.record? uri d = some t) : t = s.insert uri d := by
  unfold record? at h
  split at h
  · split at h
    · cases h
    · exact (Option.some.inj h).symm
  · exact (Option.some.inj h).symm

theorem record?_eq_none_iff : s.record? uri d = none ↔
    ∃ stored, s.get? uri = some stored ∧ d.version < stored.version := by
  unfold record?
  cases s.get? uri with
  | none => simp
  | some stored => simp

/-- A change that holds no text, or that comes behind a later version, is ignored. -/
theorem handle_changed_ignored {version : Int} {contents : List String}
    (h : contents = [] ∨ ∃ stored, s.get? uri = some stored ∧ version < stored.version) :
    s.handle (.changed uri version contents) = (s, []) := by
  cases last : contents.getLast? with
  | none => simp [handle, last]
  | some content =>
      rcases h with rfl | later
      · cases last
      · have ignored : s.record? uri ⟨content, version⟩ = none := record?_eq_none_iff.mpr later
        simp [handle, last, ignored]

/-- Any other change stores its last text and is answered with what that says. -/
theorem handle_changed_recorded {version : Int} {contents : List String}
    (h : ¬(contents = [] ∨ ∃ stored, s.get? uri = some stored ∧ version < stored.version)) :
    ∃ content, contents.getLast? = some content ∧
      s.handle (.changed uri version contents) =
        (s.insert uri ⟨content, version⟩, [Notice.ofDocument? uri (some ⟨content, version⟩)]) := by
  rw [not_or] at h
  cases last : contents.getLast? with
  | none => exact absurd (List.getLast?_eq_none_iff.mp last) h.1
  | some content =>
      refine ⟨content, rfl, ?_⟩
      cases recorded : s.record? uri ⟨content, version⟩ with
      | none => exact absurd (record?_eq_none_iff.mp recorded) h.2
      | some t =>
          obtain rfl := record?_eq_some recorded
          simp [handle, last, recorded, publication?_insert]

/-- An event changes nothing and is not answered, or it only concerns its own document and
the answer says what is then stored. -/
theorem handle_cases (s : Store) (e : DocumentEvent) :
    s.handle e = (s, []) ∨
      (s.handle e).2 = [Notice.ofDocument? e.uri ((s.handle e).1.get? e.uri)] ∧
        ∀ other, other ≠ e.uri → (s.handle e).1.get? other = s.get? other := by
  cases e with
  | opened uri version content =>
      refine .inr ⟨?_, fun other ne => get?_insert_of_ne s _ ne⟩
      simp [handle, DocumentEvent.uri, publication?_insert]
  | changed uri version contents =>
      by_cases ignored : contents = [] ∨ ∃ stored, s.get? uri = some stored ∧
          version < stored.version
      · exact .inl (handle_changed_ignored ignored)
      · obtain ⟨content, _, handled⟩ := handle_changed_recorded ignored
        rw [handled]
        exact .inr ⟨by simp [DocumentEvent.uri], fun other ne => get?_insert_of_ne s _ ne⟩
  | closed uri =>
      refine .inr ⟨?_, fun other ne => get?_erase_of_ne s ne⟩
      simp [handle, DocumentEvent.uri, get?_erase_self, Notice.ofDocument?]

theorem get?_handle_of_ne (e : DocumentEvent) (h : e.uri ≠ uri) :
    (s.handle e).1.get? uri = s.get? uri := by
  rcases s.handle_cases e with same | ⟨_, others⟩
  · rw [same]
  · exact others uri h.symm

/-- A change never takes the stored version back. -/
theorem version_le_handle {e : DocumentEvent} (change : e.isChange = true ∨ e.uri ≠ uri)
    (h : s.get? uri = some d) :
    ∃ d', (s.handle e).1.get? uri = some d' ∧ d.version ≤ d'.version := by
  by_cases own : e.uri = uri
  · cases e with
    | changed u version contents =>
        obtain rfl : u = uri := own
        by_cases ignored : contents = [] ∨ ∃ stored, s.get? u = some stored ∧
            version < stored.version
        · exact ⟨d, by rw [handle_changed_ignored ignored, h], Int.le_refl _⟩
        · obtain ⟨content, _, handled⟩ := handle_changed_recorded ignored
          refine ⟨⟨content, version⟩, by simp [handled], Int.not_lt.mp fun later => ?_⟩
          exact ignored (.inr ⟨d, h, later⟩)
    | opened => exact absurd (change.resolve_right (not_not_intro own)) nofun
    | closed => exact absurd (change.resolve_right (not_not_intro own)) nofun
  · exact ⟨d, by rw [get?_handle_of_ne e own, h], Int.le_refl _⟩

end Store

/-! ## Sessions -/

/-- The store of the service, and all notices that it has sent, the oldest first. -/
structure Session where
  store : Store
  sent : List Notice
deriving DecidableEq, Repr

namespace Session

def fresh : Session := ⟨.empty, []⟩

def after (s : Session) (e : DocumentEvent) : Session :=
  ⟨(s.store.handle e).1, s.sent ++ (s.store.handle e).2⟩

def run (s : Session) (events : List DocumentEvent) : Session :=
  events.foldl after s

def last? (s : Session) (uri : String) : Option Notice :=
  (s.sent.filter (·.uri? == some uri)).getLast?

theorem after_eq_self {s : Session} {e : DocumentEvent} (h : s.store.handle e = (s.store, [])) :
    s.after e = s := by
  simp [after, h]

/-- What was last said about a document is what the store says. A document about which
nothing was said is not stored. -/
def Consistent (s : Session) : Prop :=
  ∀ uri, s.last? uri = some (Notice.ofDocument? uri (s.store.get? uri)) ∨
    s.last? uri = none ∧ s.store.get? uri = none

theorem uri?_ofDocument? (uri : String) (d : Option Document) :
    (Notice.ofDocument? uri d).uri? = some uri := by
  cases d <;> rfl

theorem Consistent.after {s : Session} (h : s.Consistent) (e : DocumentEvent) :
    (s.after e).Consistent := by
  intro uri
  rcases s.store.handle_cases e with same | ⟨answer, others⟩
  · rw [after_eq_self same]
    exact h uri
  · by_cases own : e.uri = uri
    · -- The answer is now the last notice about the document.
      subst own
      exact .inl (by simp [last?, Session.after, answer, uri?_ofDocument?])
    · have before : (s.after e).last? uri = s.last? uri := by
        simp [last?, Session.after, answer, uri?_ofDocument?, own]
      have stored : (s.after e).store.get? uri = s.store.get? uri := others uri (Ne.symm own)
      rw [before, stored]
      exact h uri

theorem Consistent.run {s : Session} (h : s.Consistent) (events : List DocumentEvent) :
    (s.run events).Consistent := by
  induction events generalizing s with
  | nil => exact h
  | cons e events ih => exact ih (h.after e)

theorem consistent_fresh : fresh.Consistent := fun _ => .inr ⟨rfl, rfl⟩

/-- Between two openings or closings of a document its version never goes back. -/
theorem version_le_run {s : Session} {uri : String} {d : Document} {events : List DocumentEvent}
    (changes : ∀ e ∈ events, e.isChange = true ∨ e.uri ≠ uri) (h : s.store.get? uri = some d) :
    ∃ d', (s.run events).store.get? uri = some d' ∧ d.version ≤ d'.version := by
  induction events generalizing s d with
  | nil => exact ⟨d, h, Int.le_refl _⟩
  | cons e events ih =>
      obtain ⟨d₁, stored, first⟩ := Store.version_le_handle (changes e List.mem_cons_self) h
      obtain ⟨d₂, final, later⟩ := ih (s := s.after e)
        (fun f hf => changes f (List.mem_cons_of_mem e hf)) stored
      exact ⟨d₂, final, Int.le_trans first later⟩

end Session

/-- After every run of events on a fresh service, the last notice about each document is what
the store says about it, and a document about which nothing was sent is not stored. From
there on, changes do not take the version of a document back, an event leaves every other
document as it is, a change that is empty or late changes and sends nothing, and what is
shown under the cursor is read from the stored text. -/
theorem session_agrees (events : List DocumentEvent) :
    let s := Session.fresh.run events
    (∀ uri, s.last? uri = some (Notice.ofDocument? uri (s.store.get? uri)) ∨
      s.last? uri = none ∧ s.store.get? uri = none) ∧
    (∀ more uri d, (∀ e ∈ more, e.isChange = true ∨ e.uri ≠ uri) → s.store.get? uri = some d →
      ∃ d', (s.run more).store.get? uri = some d' ∧ d.version ≤ d'.version) ∧
    (∀ e uri, e.uri ≠ uri → (s.after e).store.get? uri = s.store.get? uri) ∧
    (∀ uri version contents, (contents = [] ∨ ∃ stored,
        s.store.get? uri = some stored ∧ version < stored.version) →
      s.after (.changed uri version contents) = s) ∧
    ∀ uri p, s.store.hover? uri p =
      (s.store.get? uri).bind fun d => hover? d.content p := by
  intro s
  exact ⟨Session.consistent_fresh.run events,
    fun _ _ _ changes h => Session.version_le_run changes h,
    fun e _ ne => Store.get?_handle_of_ne e ne,
    fun _ _ _ h => Session.after_eq_self (Store.handle_changed_ignored h), fun _ _ => rfl⟩

/-- Two documents are opened. The late change of the first one is dropped, the next change of
it is stored with its last text, and closing the second one takes back what was said about it. -/
example :
    Session.fresh.run
      [.opened "a" 2 "x", .opened "b" 1 "y;", .changed "a" 1 ["z;"], .changed "a" 3 ["v", "w;"],
        .closed "b"] =
      ⟨⟨[("a", ⟨"w;", 3⟩)]⟩,
        [.diagnostics "a" (some 2) (diagnostics "x"), .diagnostics "b" (some 1) (diagnostics "y;"),
          .diagnostics "a" (some 3) (diagnostics "w;"), .diagnostics "b" none []]⟩ := by
  rfl

end TwoScript
