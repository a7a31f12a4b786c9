import Mathlib.Algebra.Ring.Nat
import Mathlib.Data.List.Nodup
import TwoScript.Proofs.Editor.Session

/-!
# Changes that overlap

The service may work on several changes of a document at once. Each is handled in two
steps, first recorded and later published, and between them others may take theirs. A
schedule says whose turn it is. Whatever the schedule, versions are published in
increasing order, each while it is the stored one, and when all changes are finished the
greatest version is stored and was published last: `overlapping_last_wins`.
-/

namespace TwoScript

def Notice.version? : Notice → Option Int
  | diagnostics _ version _ => version
  | log _ => none

inductive Phase where
  | waiting
  | recorded
  | finished
deriving DecidableEq, Repr

def Phase.left : Phase → Nat
  | waiting => 2
  | recorded => 1
  | finished => 0

structure Change where
  version : Int
  contents : List String
  phase : Phase := .waiting
deriving DecidableEq, Repr

namespace Change

def document? (c : Change) : Option Document :=
  c.contents.getLast?.map (⟨·, c.version⟩)

def enter (c : Change) (phase : Phase) : Change := { c with phase }

@[simp] theorem document?_enter (c : Change) (phase : Phase) :
    (c.enter phase).document? = c.document? := rfl

@[simp] theorem phase_enter (c : Change) (phase : Phase) : (c.enter phase).phase = phase := rfl

theorem version_of_document? {c : Change} {d : Document} (h : c.document? = some d) :
    d.version = c.version := by
  obtain ⟨content, _, rfl⟩ := Option.map_eq_some_iff.mp h
  rfl

end Change

/-- A service with the changes of one document that it is handling. -/
structure Service where
  session : Session
  changes : List Change
deriving DecidableEq, Repr

namespace Service

/-- The next step of a change. A waiting change is recorded, and finished at once if it is
ignored; a recorded one is published if its version is still the stored one. -/
def step (uri : String) (s : Session) (c : Change) : Session × Change :=
  match c.phase, c.document? with
  | .waiting, some d =>
    match s.store.record? uri d with
    | some store => ({ s with store }, c.enter .recorded)
    | none => (s, c.enter .finished)
  | .recorded, some d =>
    ({ s with sent := s.sent ++ (s.store.publication? uri d).toList }, c.enter .finished)
  | _, _ => (s, c.enter .finished)

def turn (uri : String) (s : Service) (i : Nat) : Service :=
  match s.changes[i]? with
  | none => s
  | some c => ⟨(step uri s.session c).1, s.changes.set i (step uri s.session c).2⟩

def run (uri : String) (s : Service) (schedule : List Nat) : Service :=
  schedule.foldl (turn uri) s

def opened (store : Store) (uri : String) (d : Document) (changes : List Change) : Service :=
  ⟨Session.after ⟨store, []⟩ (.opened uri d.version d.content), changes⟩

def versions (s : Service) : List Int :=
  s.session.sent.filterMap Notice.version?

end Service

/-! ## One step -/

namespace Service

section

variable {uri : String} {s : Session} {c : Change} {d current : Document}

/-- A step ends the change without a trace, or it stores the document of a waiting change,
or it publishes that of a recorded one, whose version is the stored one. -/
theorem step_cases (stored : s.store.get? uri = some current)
    (made : c.document? = some d) :
    step uri s c = (s, c.enter .finished) ∧
        (c.phase ≠ .waiting ∨ c.version ≤ current.version) ∧
        (c.phase = .recorded → current.version ≠ c.version) ∨
      step uri s c = ({ s with store := s.store.insert uri d }, c.enter .recorded) ∧
        c.phase = .waiting ∧ current.version ≤ c.version ∨
      step uri s c =
          ({ s with sent := s.sent ++ [Notice.ofDocument? uri (some d)] }, c.enter .finished) ∧
        c.phase = .recorded ∧ current.version = c.version := by
  have version := Change.version_of_document? made
  cases phase : c.phase with
  | waiting =>
      by_cases late : c.version < current.version
      · have ignored : s.store.record? uri d = none :=
          Store.record?_eq_none_iff.mpr ⟨current, stored, by omega⟩
        exact .inl ⟨by simp [step, phase, made, ignored], .inr (by omega), by simp⟩
      · have recorded : s.store.record? uri d = some (s.store.insert uri d) := by
          simp [Store.record?, stored, version, late]
        exact .inr (.inl ⟨by simp [step, phase, made, recorded], rfl, by omega⟩)
  | recorded =>
      by_cases same : current.version = c.version
      · refine .inr (.inr ⟨?_, rfl, same⟩)
        simp [step, phase, made, Store.publication?, stored, version, same, Notice.ofDocument?]
      · refine .inl ⟨?_, .inl (by simp), fun _ => same⟩
        simp [step, phase, made, Store.publication?, stored, version, same]
  | finished => exact .inl ⟨by simp [step, phase, made], .inl (by simp), by simp⟩

/-- A change that takes both steps without interruption is handled as a single event. -/
theorem step_step (uri : String) (s : Session) (waiting : c.phase = .waiting) :
    (step uri (step uri s c).1 (step uri s c).2).1 =
      s.after (.changed uri c.version c.contents) := by
  cases last : c.contents.getLast? with
  | none =>
      have unmade : c.document? = none := by simp [Change.document?, last]
      simp [step, unmade, Session.after, Store.handle, last]
  | some content =>
      have made : c.document? = some ⟨content, c.version⟩ := by simp [Change.document?, last]
      cases recorded : s.store.record? uri ⟨content, c.version⟩ with
      | none => simp [step, waiting, made, Session.after, Store.handle, last, recorded]
      | some store => simp [step, waiting, made, Session.after, Store.handle, last, recorded]

end

/-- A turn changes nothing, or it is the step of one change among others. -/
theorem turn_cases (uri : String) (s : Service) (i : Nat) :
    turn uri s i = s ∨ ∃ before c after, s.changes = before ++ c :: after ∧
      turn uri s i = ⟨(step uri s.session c).1, before ++ (step uri s.session c).2 :: after⟩ := by
  cases found : s.changes[i]? with
  | none => exact .inl (by simp [turn, found])
  | some c =>
      obtain ⟨inside, rfl⟩ := List.getElem?_eq_some_iff.mp found
      refine .inr ⟨s.changes.take i, s.changes[i], s.changes.drop (i + 1), ?_, ?_⟩
      · rw [← List.drop_eq_getElem_cons inside, List.take_append_drop]
      · simp [turn, List.set_eq_take_append_cons_drop, inside]

/-! ## What every run keeps -/

/-- The state of a service that handles changes of a document, of which `current` is stored
and `first` was opened. -/
structure Orderly (uri : String) (first current : Document) (s : Service) : Prop where
  stored : s.session.store.get? uri = some current
  nonempty : ∀ c ∈ s.changes, c.contents ≠ []
  later : ∀ c ∈ s.changes, first.version < c.version
  distinct : (s.changes.map Change.version).Nodup
  /-- Nothing that was recorded, or ignored, is later than what is stored. -/
  reached : ∀ c ∈ s.changes, c.phase ≠ .waiting → c.version ≤ current.version
  origin : current = first ∨ ∃ c ∈ s.changes, c.phase ≠ .waiting ∧ c.document? = some current
  /-- A version that was published is not that of a change that may still be. -/
  past : ∀ v ∈ s.versions, v ≤ current.version ∧
    ∀ c ∈ s.changes, c.phase ≠ .finished → v ≠ c.version
  increasing : s.versions.Pairwise (· < ·)
  /-- What is stored was published last, or is going to be published. -/
  announced : (∃ c ∈ s.changes, c.phase = .recorded ∧ c.document? = some current) ∨
    s.session.sent.getLast? = some (Notice.ofDocument? uri (some current))

/-- The versions of the other changes differ from that of one change. -/
theorem ne_of_distinct {before after : List Change} {c : Change}
    (h : ((before ++ c :: after).map Change.version).Nodup) :
    ∀ x ∈ before ++ after, x.version ≠ c.version := by
  rw [List.map_append, List.map_cons, List.nodup_middle, List.nodup_cons] at h
  intro x hx same
  exact h.1 (by rw [← same, ← List.map_append]; exact List.mem_map_of_mem hx)

section

variable {uri : String} {first current d : Document} {before after : List Change} {c : Change}
  {s : Session}

/-- What does not depend on phases stays when a change goes on to another one. -/
theorem Orderly.static (h : Orderly uri first current ⟨s, before ++ c :: after⟩) (phase : Phase) :
    (∀ x ∈ before ++ c.enter phase :: after, x.contents ≠ []) ∧
      (∀ x ∈ before ++ c.enter phase :: after, first.version < x.version) ∧
      ((before ++ c.enter phase :: after).map Change.version).Nodup := by
  obtain ⟨_, nonempty, later, distinct, _⟩ := h
  simp only [List.forall_mem_append, List.forall_mem_cons, List.map_append, List.map_cons]
    at nonempty later distinct ⊢
  exact ⟨nonempty, later, distinct⟩

theorem exists_enter {P : Change → Prop} {phase : Phase} (h : ∃ x ∈ before ++ c :: after, P x)
    (same : P c → P (c.enter phase)) : ∃ x ∈ before ++ c.enter phase :: after, P x := by
  obtain ⟨x, hx, holds⟩ := h
  rcases List.mem_append.mp hx with left | hx
  · exact ⟨x, List.mem_append_left _ left, holds⟩
  · rcases List.mem_cons.mp hx with rfl | right
    · exact ⟨x.enter phase, by simp, same holds⟩
    · exact ⟨x, by simp [right], holds⟩

theorem Orderly.silent (h : Orderly uri first current ⟨s, before ++ c :: after⟩)
    (late : c.phase ≠ .waiting ∨ c.version ≤ current.version)
    (stale : c.phase = .recorded → current.version ≠ c.version) :
    Orderly uri first current ⟨s, before ++ c.enter .finished :: after⟩ := by
  obtain ⟨nonempty, later, distinct⟩ := h.static .finished
  obtain ⟨stored, _, _, _, reached, origin, past, increasing, announced⟩ := h
  refine ⟨stored, nonempty, later, distinct, ?_, ?_, fun v hv => ?_, increasing, ?_⟩
  · simp only [List.forall_mem_append, List.forall_mem_cons] at reached ⊢
    exact ⟨reached.1, fun _ => late.elim reached.2.1 id, reached.2.2⟩
  · exact origin.imp_right fun made => exists_enter made fun own => ⟨by simp, own.2⟩
  · obtain ⟨le, ne⟩ := past v hv
    simp only [List.forall_mem_append, List.forall_mem_cons] at ne ⊢
    exact ⟨le, ne.1, by simp, ne.2.2⟩
  · refine announced.imp_left fun pending => exists_enter pending fun own => ?_
    exact absurd (Change.version_of_document? own.2) (stale own.1)

theorem Orderly.record (h : Orderly uri first current ⟨s, before ++ c :: after⟩)
    (made : c.document? = some d) (waiting : c.phase = .waiting)
    (newer : current.version ≤ c.version) :
    Orderly uri first d
      ⟨{ s with store := s.store.insert uri d }, before ++ c.enter .recorded :: after⟩ := by
  obtain ⟨nonempty, later, distinct⟩ := h.static .recorded
  obtain ⟨_, _, _, _, reached, _, past, increasing, _⟩ := h
  rw [← Change.version_of_document? made] at newer
  have own : c.enter .recorded ∈ before ++ c.enter .recorded :: after := by simp
  refine ⟨Store.get?_insert_self .., nonempty, later, distinct, ?_, ?_, fun v hv => ?_, increasing,
    .inl ⟨_, own, rfl, made⟩⟩
  · simp only [List.forall_mem_append, List.forall_mem_cons] at reached ⊢
    refine ⟨fun x hx started => ?_, fun _ => ?_, fun x hx started => ?_⟩
    · exact Int.le_trans (reached.1 x hx started) newer
    · exact Int.le_of_eq (Change.version_of_document? made).symm
    · exact Int.le_trans (reached.2.2 x hx started) newer
  · exact .inr ⟨_, own, by simp, made⟩
  · obtain ⟨le, ne⟩ := past v hv
    simp only [List.forall_mem_append, List.forall_mem_cons] at ne ⊢
    exact ⟨Int.le_trans le newer, ne.1, fun _ => ne.2.1 (by simp [waiting]), ne.2.2⟩

/-- The stored document is that of the change with its version. -/
theorem Orderly.eq_current (h : Orderly uri first current ⟨s, before ++ c :: after⟩)
    (made : c.document? = some d) (same : current.version = c.version) : d = current := by
  rcases h.origin with rfl | ⟨x, hx, _, origin⟩
  · have later := h.later c (by simp)
    omega
  · have version := Change.version_of_document? origin
    rcases List.mem_append.mp hx with left | hx
    · exact absurd (by omega) (ne_of_distinct h.distinct x (by simp [left]))
    · rcases List.mem_cons.mp hx with rfl | right
      · rw [made] at origin
        exact Option.some.inj origin
      · exact absurd (by omega) (ne_of_distinct h.distinct x (by simp [right]))

theorem Orderly.publish (h : Orderly uri first current ⟨s, before ++ c :: after⟩)
    (recorded : c.phase = .recorded) (same : current.version = c.version) :
    Orderly uri first current
      ⟨{ s with sent := s.sent ++ [Notice.ofDocument? uri (some current)] },
        before ++ c.enter .finished :: after⟩ := by
  obtain ⟨nonempty, later, distinct⟩ := h.static .finished
  have others := ne_of_distinct h.distinct
  obtain ⟨stored, _, _, _, reached, origin, past, increasing, _⟩ := h
  have versions : Service.versions
      ⟨{ s with sent := s.sent ++ [Notice.ofDocument? uri (some current)] },
        before ++ c.enter .finished :: after⟩ =
      Service.versions ⟨s, before ++ c :: after⟩ ++ [current.version] := by
    simp [Service.versions, Notice.version?, Notice.ofDocument?]
  refine ⟨stored, nonempty, later, distinct, ?_, ?_, fun v hv => ?_, ?_, .inr (by simp)⟩
  · simp only [List.forall_mem_append, List.forall_mem_cons] at reached ⊢
    exact ⟨reached.1, fun _ => Int.le_of_eq same.symm, reached.2.2⟩
  · exact origin.imp_right fun made => exists_enter made fun own => ⟨by simp, own.2⟩
  · simp only [List.forall_mem_append, List.forall_mem_cons] at others ⊢
    rw [versions, List.mem_append, List.mem_singleton] at hv
    rcases hv with old | rfl
    · obtain ⟨le, ne⟩ := past v old
      simp only [List.forall_mem_append, List.forall_mem_cons] at ne
      exact ⟨le, ne.1, by simp, ne.2.2⟩
    · refine ⟨Int.le_refl _, fun x hx _ => ?_, by simp, fun x hx _ => ?_⟩
      · rw [same]
        exact (others.1 x hx).symm
      · rw [same]
        exact (others.2 x hx).symm
  · rw [versions, List.pairwise_append]
    refine ⟨increasing, List.pairwise_singleton .., fun v old w hw => ?_⟩
    obtain ⟨le, ne⟩ := past v old
    have apart := ne c (by simp) (by simp [recorded])
    rw [List.mem_singleton.mp hw]
    omega

/-- One more turn keeps the order, and sends at most what is stored at that moment. -/
theorem Orderly.turn {s : Service} (h : Orderly uri first current s) (i : Nat) :
    (∃ next, Orderly uri first next (s.turn uri i)) ∧
      ((s.turn uri i).session.sent = s.session.sent ∨ (s.turn uri i).session.sent =
        s.session.sent ++ [Notice.ofDocument? uri (some current)]) := by
  rcases s.turn_cases uri i with same | ⟨before, c, after, split, stepped⟩
  · rw [same]
    exact ⟨⟨current, h⟩, .inl rfl⟩
  · obtain ⟨session, changes⟩ := s
    obtain rfl : changes = before ++ c :: after := split
    cases made : c.document? with
    | none =>
        refine absurd ?_ (h.nonempty c (by simp))
        simpa [Change.document?] using made
    | some d =>
        rw [stepped]
        rcases step_cases h.stored made with ⟨step, late, stale⟩ | ⟨step, waiting, newer⟩ |
          ⟨step, recorded, version⟩
        · rw [step]
          exact ⟨⟨current, h.silent late stale⟩, .inl rfl⟩
        · rw [step]
          exact ⟨⟨d, h.record made waiting newer⟩, .inl rfl⟩
        · rw [step, h.eq_current made version]
          exact ⟨⟨current, h.publish recorded version⟩, .inr rfl⟩

theorem Orderly.run {s : Service} (h : Orderly uri first current s) (schedule : List Nat) :
    ∃ last, Orderly uri first last (s.run uri schedule) := by
  induction schedule generalizing s current with
  | nil => exact ⟨current, h⟩
  | cons i schedule ih =>
      obtain ⟨next, orderly⟩ := (h.turn i).1
      exact ih orderly

theorem orderly_opened (store : Store) {changes : List Change}
    (fresh : ∀ c ∈ changes, c.phase = .waiting ∧ c.contents ≠ [] ∧ first.version < c.version)
    (distinct : (changes.map Change.version).Nodup) :
    Orderly uri first first (opened store uri first changes) := by
  have answer : (opened store uri first changes).session.sent =
      [Notice.ofDocument? uri (some first)] := by
    simp [opened, Session.after, Store.handle, Store.publication?_insert]
  have versions : (opened store uri first changes).versions = [first.version] := by
    rw [Service.versions, answer]
    rfl
  refine ⟨Store.get?_insert_self .., fun c hc => (fresh c hc).2.1, fun c hc => (fresh c hc).2.2,
    distinct, fun c hc started => absurd (fresh c hc).1 started, .inl rfl, ?_, ?_, .inr ?_⟩
  · intro v hv
    obtain rfl : v = first.version := by simpa [versions] using hv
    exact ⟨Int.le_refl _, fun c hc _ => Int.ne_of_lt (fresh c hc).2.2⟩
  · rw [versions]
    exact List.pairwise_singleton ..
  · rw [answer]
    rfl

/-! ## The end -/

/-- The step of a change leaves its document as it is. -/
theorem step_document? (s : Session) (c : Change) :
    (step uri s c).2.document? = c.document? := by
  unfold step
  split
  · split <;> rfl
  · rfl
  · rfl

theorem documents_turn (uri : String) (s : Service) (i : Nat) :
    (s.turn uri i).changes.filterMap Change.document? =
      s.changes.filterMap Change.document? := by
  rcases s.turn_cases uri i with same | ⟨before, c, after, split, stepped⟩
  · rw [same]
  · rw [stepped, split]
    simp [List.filterMap_append, List.filterMap_cons, step_document?]

theorem documents_run (uri : String) (s : Service) (schedule : List Nat) :
    (s.run uri schedule).changes.filterMap Change.document? =
      s.changes.filterMap Change.document? := by
  induction schedule generalizing s with
  | nil => rfl
  | cons i schedule ih =>
      rw [← documents_turn uri s i]
      exact ih (s.turn uri i)

/-- When all changes are finished, the greatest version is stored and was published last. -/
theorem Orderly.final {s : Service} (h : Orderly uri first current s)
    (finished : ∀ c ∈ s.changes, c.phase = .finished) :
    current ∈ first :: s.changes.filterMap Change.document? ∧
      (∀ d ∈ first :: s.changes.filterMap Change.document?, d.version ≤ current.version) ∧
      s.session.sent.getLast? = some (Notice.ofDocument? uri (some current)) := by
  have origin : current ∈ first :: s.changes.filterMap Change.document? := by
    rcases h.origin with rfl | ⟨c, hc, _, made⟩
    · exact List.mem_cons_self
    · exact List.mem_cons_of_mem _ (List.mem_filterMap.mpr ⟨c, hc, made⟩)
  refine ⟨origin, fun d hd => ?_, h.announced.resolve_left ?_⟩
  · rcases List.mem_cons.mp hd with rfl | later
    · rcases h.origin with rfl | ⟨c, hc, _, made⟩
      · exact Int.le_refl _
      · rw [Change.version_of_document? made]
        exact Int.le_of_lt (h.later c hc)
    · obtain ⟨c, hc, made⟩ := List.mem_filterMap.mp later
      rw [Change.version_of_document? made]
      exact h.reached c hc (by simp [finished c hc])
  · rintro ⟨c, hc, recorded, _⟩
    rw [finished c hc] at recorded
    cases recorded

end

/-! ## Every change can be finished -/

def left (s : Service) : Nat :=
  (s.changes.map (·.phase.left)).sum

theorem step_left_lt (uri : String) (s : Session) {c : Change} (h : c.phase ≠ .finished) :
    (step uri s c).2.phase.left < c.phase.left := by
  unfold step
  split
  · rename_i waiting _
    split <;> simp [waiting, Phase.left]
  · rename_i recorded _
    simp [recorded, Phase.left]
  · cases phase : c.phase with
    | finished => exact absurd phase h
    | _ => simp [Phase.left]

/-- A turn of a change that is not finished leaves fewer steps. -/
theorem turn_left_lt (uri : String) (s : Service) {c : Change} (hc : c ∈ s.changes)
    (h : c.phase ≠ .finished) : ∃ i, (s.turn uri i).left < s.left := by
  obtain ⟨session, changes⟩ := s
  obtain ⟨before, after, rfl⟩ := List.append_of_mem hc
  have stepped : turn uri ⟨session, before ++ c :: after⟩ before.length =
      ⟨(step uri session c).1, before ++ (step uri session c).2 :: after⟩ := by
    simp [turn]
  refine ⟨before.length, ?_⟩
  have shorter := step_left_lt uri session h
  rw [stepped]
  simp only [left, List.map_append, List.map_cons, List.sum_append, List.sum_cons]
  omega

theorem exists_finished (uri : String) (s : Service) :
    ∃ rest, ∀ c ∈ (s.run uri rest).changes, c.phase = .finished := by
  induction steps : s.left using Nat.strongRecOn generalizing s with
  | ind n ih =>
      by_cases done : ∀ c ∈ s.changes, c.phase = .finished
      · exact ⟨[], done⟩
      · simp only [not_forall] at done
        obtain ⟨c, hc, unfinished⟩ := done
        obtain ⟨i, shorter⟩ := s.turn_left_lt uri hc unfinished
        obtain ⟨rest, finished⟩ := ih _ (by omega) (s.turn uri i) rfl
        exact ⟨i :: rest, finished⟩

end Service

/-- A document is opened, and changes of it with different and later versions are handled at
once; each alone would be handled as a single event. Whatever the schedule, versions are
published in increasing order, a turn publishes nothing or what is stored at that moment, and
the changes can all be finished. When they are, the document of the greatest version is
stored, and its diagnostics were sent last. -/
theorem overlapping_last_wins (store : Store) (uri : String) (first : Document)
    (changes : List Change)
    (fresh : ∀ c ∈ changes, c.phase = .waiting ∧ c.contents ≠ [] ∧ first.version < c.version)
    (distinct : (changes.map Change.version).Nodup) (schedule : List Nat) :
    let service := (Service.opened store uri first changes).run uri schedule
    (∀ session, ∀ c ∈ changes,
      let begun := Service.step uri session c
      (Service.step uri begun.1 begun.2).1 =
        session.after (.changed uri c.version c.contents)) ∧
    service.versions.Pairwise (· < ·) ∧
    (∃ current, service.session.store.get? uri = some current ∧
      ∀ i, (service.turn uri i).session.sent = service.session.sent ∨
        (service.turn uri i).session.sent =
          service.session.sent ++ [Notice.ofDocument? uri (some current)]) ∧
    (∃ rest, ∀ c ∈ (service.run uri rest).changes, c.phase = .finished) ∧
    ((∀ c ∈ service.changes, c.phase = .finished) →
      ∃ last ∈ first :: changes.filterMap Change.document?,
        (∀ d ∈ first :: changes.filterMap Change.document?, d.version ≤ last.version) ∧
        service.session.store.get? uri = some last ∧
        service.session.sent.getLast? = some (Notice.ofDocument? uri (some last))) := by
  intro service
  obtain ⟨current, orderly⟩ := (Service.orderly_opened store fresh distinct).run schedule
  have documents := Service.documents_run uri (Service.opened store uri first changes) schedule
  refine ⟨fun session c hc => Service.step_step uri session (fresh c hc).1, orderly.increasing,
    ⟨current, orderly.stored, fun i => (orderly.turn i).2⟩, Service.exists_finished uri service,
    fun finished => ?_⟩
  obtain ⟨origin, greatest, sent⟩ := orderly.final finished
  rw [documents] at origin greatest
  exact ⟨current, origin, greatest, orderly.stored, sent⟩

/-- The third version is overtaken by the fourth between its two steps, and the second comes
too late. -/
theorem overlapping_last_wins_crossing :
    ∃ last : Document, last.version = 4 ∧ last.content = "d" ∧
      ((Service.opened .empty "a" ⟨"", 1⟩ [⟨3, ["c"], .waiting⟩, ⟨4, ["", "d"], .waiting⟩,
        ⟨2, ["b"], .waiting⟩]).run "a" [0, 1, 2, 0, 1]).session.sent.getLast? =
          some (Notice.ofDocument? "a" (some last)) := by
  obtain ⟨_, _, _, _, settled⟩ := overlapping_last_wins .empty "a" ⟨"", 1⟩
    [⟨3, ["c"], .waiting⟩, ⟨4, ["", "d"], .waiting⟩, ⟨2, ["b"], .waiting⟩]
    (by decide) (by decide) [0, 1, 2, 0, 1]
  obtain ⟨last, made, greatest, _, sent⟩ := settled (by decide)
  have latest := greatest ⟨"d", 4⟩ (by decide)
  have cases : last = ⟨"", 1⟩ ∨ last = ⟨"c", 3⟩ ∨ last = ⟨"d", 4⟩ ∨ last = ⟨"b", 2⟩ := by
    simpa [Change.document?] using made
  rcases cases with rfl | rfl | rfl | rfl
  · exact absurd latest (by decide)
  · exact absurd latest (by decide)
  · exact ⟨_, rfl, rfl, sent⟩
  · exact absurd latest (by decide)

end TwoScript
