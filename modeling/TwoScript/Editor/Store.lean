import TwoScript.Editor.Diagnostic

/-!
# Open documents

The editor service keeps the latest text and version of every open document and
answers each event with notices. A change is handled in two steps: it is recorded,
unless a later version is already stored, and then its diagnostics are published,
provided that its version is still the stored one.
-/

namespace TwoScript

structure Document where
  content : String
  version : Int
deriving DecidableEq, Repr

structure Store where
  documents : List (String × Document)
deriving DecidableEq, Repr

/-- A message to the editor. Diagnostics that belong to no open document carry no
version. -/
inductive Notice where
  | diagnostics (uri : String) (version : Option Int) (items : List Diagnostic)
  | log (message : String)
deriving DecidableEq, Repr

/-- Something that happens to a document. A change holds the whole text once per edit,
the last one being the latest. -/
inductive DocumentEvent where
  | opened (uri : String) (version : Int) (content : String)
  | changed (uri : String) (version : Int) (contents : List String)
  | closed (uri : String)
deriving DecidableEq, Repr

/-- Entries without one of the keys hold the same for every other key. -/
theorem lookup_filter_of_ne {β : Type} {key other : String} (h : other ≠ key)
    (entries : List (String × β)) :
    (entries.filter (·.1 != key)).lookup other = entries.lookup other := by
  induction entries with
  | nil => rfl
  | cons entry rest ih =>
    obtain ⟨first, b⟩ := entry
    rw [List.filter_cons]
    by_cases same : first = key
    · subst same
      simp [List.lookup_cons, beq_false_of_ne h, ih]
    · by_cases found : other = first <;> simp_all [List.lookup_cons]

namespace Store

def empty : Store := ⟨[]⟩

def get? (s : Store) (uri : String) : Option Document :=
  s.documents.lookup uri

def erase (s : Store) (uri : String) : Store :=
  ⟨s.documents.filter (·.1 != uri)⟩

def insert (s : Store) (uri : String) (d : Document) : Store :=
  ⟨(uri, d) :: (s.erase uri).documents⟩

/-- Records a change, unless a later version is stored. -/
def record? (s : Store) (uri : String) (d : Document) : Option Store :=
  match s.get? uri with
  | some stored => if d.version < stored.version then none else some (s.insert uri d)
  | none => some (s.insert uri d)

/-- The diagnostics of a document, provided that its version is the stored one. -/
def publication? (s : Store) (uri : String) (d : Document) : Option Notice :=
  match s.get? uri with
  | some stored =>
    if stored.version = d.version then
      some (.diagnostics uri (some d.version) (diagnostics d.content))
    else none
  | none => none

def handle (s : Store) : DocumentEvent → Store × List Notice
  | .opened uri version content =>
    let d : Document := ⟨content, version⟩
    let s := s.insert uri d
    (s, (s.publication? uri d).toList)
  | .changed uri version contents =>
    match contents.getLast? with
    | none => (s, [])
    | some content =>
      let d : Document := ⟨content, version⟩
      match s.record? uri d with
      | none => (s, [])
      | some s => (s, (s.publication? uri d).toList)
  | .closed uri => (s.erase uri, [.diagnostics uri none []])

def hover? (s : Store) (uri : String) (p : Position) : Option String :=
  (s.get? uri).bind fun d => TwoScript.hover? d.content p

/-! ## Look-up laws -/

@[simp] theorem get?_empty (uri : String) : empty.get? uri = none := rfl

theorem get?_erase_self (s : Store) (uri : String) : (s.erase uri).get? uri = none := by
  simp only [get?, erase]
  induction s.documents with
  | nil => rfl
  | cons entry rest ih =>
    rw [List.filter_cons]
    split
    · rename_i other
      rw [List.lookup_cons]
      split
      · simp_all
      · exact ih
    · exact ih

theorem get?_erase_of_ne (s : Store) {uri other : String} (h : other ≠ uri) :
    (s.erase uri).get? other = s.get? other :=
  lookup_filter_of_ne h s.documents

@[simp] theorem get?_insert_self (s : Store) (uri : String) (d : Document) :
    (s.insert uri d).get? uri = some d := by
  simp [get?, insert]

theorem get?_insert_of_ne (s : Store) {uri other : String} (d : Document)
    (h : other ≠ uri) : (s.insert uri d).get? other = s.get? other := by
  rw [← get?_erase_of_ne s h]
  simp [get?, insert, List.lookup_cons, beq_false_of_ne h]

end Store

/-! ## The service -/

structure ServiceInfo where
  name : String
  version : String
deriving DecidableEq, Repr

def serviceInfo : ServiceInfo := ⟨"dvibhasha-lsp", "0.1.0"⟩

def readyNotice : Notice := .log "dvibhasha LSP server initialized"

end TwoScript
