import TwoScript.Proofs.Js.Token

/-!
# Temporaries in JavaScript

JavaScript is read for the functions that hold a value in a temporary. A temporary is
declared as the first thing in the body of such a function, and it may be used in the tests
and in the message of an error there; in any other place it is not understood. A use belongs
to the innermost function around it. `Tracks` says what a text adds to the functions that
were found before it, and texts compose.
-/

namespace TwoScript

namespace Js

/-- What was read of code: a word, a sign, or all that stands between quotes. -/
inductive Atom where
  | word (text : List Char)
  | sign (c : Char)
  | quoted
deriving DecidableEq, Repr

namespace Atom

/-- What stands in front of a temporary that is declared, the last first. -/
def declaration : List Atom :=
  [word "const".toList, sign '{', sign '>', sign '=']

def test : List Atom :=
  [sign '(', word "if".toList]

def error : List Atom :=
  [sign '+', quoted, sign '"', sign '(', word "Error".toList, word "new".toList,
    word "throw".toList]

end Atom

inductive Use where
  | tested
  | thrown
deriving DecidableEq, Repr

def Use.of? (recent : List Atom) : Option Use :=
  if Atom.test.isPrefixOf recent then some tested
  else if Atom.error.isPrefixOf recent then some thrown
  else none

/-- A function that holds a value in a temporary, and the names that it uses, in order. -/
structure Lowering where
  temporary : String
  uses : List (Use × String)
deriving DecidableEq, Repr

def isTemporary (word : List Char) : Bool :=
  "$match_".toList.isPrefixOf word

/-- The position in a text: the word that is under way, what was read before it, the functions
found so far and the bodies of those that are open, the innermost first. A body is known by
the number of its function and the number of regions that are open in it. -/
structure Tracker where
  scanner : Scanner
  word : List Char
  recent : List Atom
  bodies : List (Nat × Nat)
  found : List Lowering
deriving DecidableEq, Repr

def Scanner.inCode (s : Scanner) : Bool :=
  match s.regions with
  | .bracket _ :: _ => true
  | _ => false

def note (uses : List (Use × String)) (bodies : List (Nat × Nat)) (found : List Lowering) :
    List Lowering :=
  match bodies with
  | [] => found
  | (i, _) :: _ => found.modify i fun l => { l with uses := l.uses ++ uses }

namespace Tracker

def start : Tracker := ⟨⟨[Scanner.floor], none⟩, [], [], [], []⟩

def endWord (r : Tracker) : Option Tracker :=
  let name := String.ofList r.word
  let ended : Tracker := { r with word := [], recent := .word r.word :: r.recent }
  if r.word = [] then some r
  else if !isTemporary r.word then some ended
  else if Atom.declaration.isPrefixOf r.recent then
    some { ended with
      bodies := (r.found.length, r.scanner.regions.length) :: r.bodies
      found := r.found ++ [⟨name, []⟩] }
  else if r.bodies.isEmpty then none
  else (Use.of? r.recent).map fun use => { ended with found := note [(use, name)] r.bodies r.found }

/-- One character further. A bracket that closes ends the bodies inside of it. -/
def step (r : Tracker) (c : Char) : Option Tracker :=
  (r.scanner.step c).bind fun next =>
    if !r.scanner.inCode then
      some { r with
        scanner := next
        recent := if next.inCode then .quoted :: r.recent else r.recent }
    else if continuesWord c then some { r with scanner := next, word := r.word ++ [c] }
    else
      r.endWord.map fun r => { r with
        scanner := next
        recent := if isBlank c then r.recent else .sign c :: r.recent
        bodies :=
          if isClosing c then r.bodies.filter (·.2 ≤ next.regions.length) else r.bodies }

def run (r : Tracker) : List Char → Option Tracker
  | [] => some r
  | c :: cs => (r.step c).bind (·.run cs)

theorem run_append (r : Tracker) (cs ds : List Char) :
    r.run (cs ++ ds) = (r.run cs).bind (·.run ds) := by
  induction cs generalizing r with
  | nil => rfl
  | cons c cs ih =>
      simp only [List.cons_append, run, Option.bind_assoc]
      congr
      funext t
      exact ih t

end Tracker

/-- The functions of a text that hold a value in a temporary, in the order in which they
begin, if every temporary in the text is understood. -/
def lowerings (text : String) : Option (List Lowering) :=
  ((Tracker.start.run text.toList).bind Tracker.endWord).map (·.found)

/-- A test that names another temporary than that of its function is noticed. -/
example : lowerings "() => \x7b const $match_0 = a; if ($match_1 === b) \x7b\x7d \x7d" =
    some [⟨"$match_0", [(.tested, "$match_1")]⟩] := by
  decide +kernel

/-! ## Words that are no temporaries -/

/-- A word that cannot become a temporary, however it goes on after its first character. -/
def Calm (word : List Char) : Prop :=
  word ≠ ['$'] ∧ ¬['$', 'm'] <+: word

def Fresh (word : List Char) : Prop :=
  word = []

theorem Calm.nil : Calm [] := by
  simp [Calm]

theorem Fresh.calm {word : List Char} (h : Fresh word) : Calm word := by
  rw [h]
  exact Calm.nil

theorem Calm.append {word : List Char} (h : Calm word) {cs : List Char}
    (first : word = [] → cs.head? ≠ some '$') : Calm (word ++ cs) := by
  obtain ⟨dollar, temporary⟩ := h
  rcases word with _ | ⟨x, _ | ⟨y, word⟩⟩
  · rcases cs with _ | ⟨c, cs⟩
    · exact Calm.nil
    · have other : c ≠ '$' := by simpa using first rfl
      simp [Calm, other, eq_comm]
  · have other : x ≠ '$' := by simpa using dollar
    simp [Calm, other, eq_comm]
  · simpa [Calm] using temporary

theorem Calm.isTemporary {word : List Char} (h : Calm word) : isTemporary word = false := by
  rw [Bool.eq_false_iff]
  intro found
  have whole : "$match_".toList <+: word := List.isPrefixOf_iff_prefix.mp found
  exact h.2 (List.IsPrefix.trans (by decide) whole)

namespace Tracker

theorem endWord_of_calm {word : List Char} (h : Calm word) (scanner : Scanner) (recent : List Atom)
    (bodies : List (Nat × Nat)) (found : List Lowering) :
    ∃ recent', endWord ⟨scanner, word, recent, bodies, found⟩ =
      some ⟨scanner, [], recent', bodies, found⟩ := by
  by_cases none : word = []
  · refine ⟨recent, ?_⟩
    rw [endWord, if_pos none, ← none]
  · refine ⟨.word word :: recent, ?_⟩
    rw [endWord, if_neg none, if_pos (by simp [h.isTemporary])]

/-- A character that begins no temporary changes nothing but the word and what was read. -/
theorem step_of_calm {scanner next : Scanner} {c : Char} {word : List Char}
    {bodies : List (Nat × Nat)} (stepped : scanner.step c = some next) (calm : Calm word)
    (plain : scanner.inCode = true → c ≠ '$') (kept : ∀ b ∈ bodies, b.2 ≤ next.regions.length)
    (recent : List Atom) (found : List Lowering) :
    ∃ word' recent', Calm word' ∧
      step ⟨scanner, word, recent, bodies, found⟩ c =
        some ⟨next, word', recent', bodies, found⟩ := by
  rw [step, stepped, Option.bind_some]
  cases code : scanner.inCode with
  | false => exact ⟨word, _, calm, rfl⟩
  | true =>
      by_cases part : continuesWord c = true
      · refine ⟨word ++ [c], recent, calm.append fun _ => by simpa using plain code, ?_⟩
        simp [part]
      · obtain ⟨recent', ended⟩ := endWord_of_calm calm scanner recent bodies found
        refine ⟨[], if isBlank c then recent' else .sign c :: recent', Calm.nil, ?_⟩
        have same : bodies.filter (·.2 ≤ next.regions.length) = bodies :=
          List.filter_eq_self.mpr fun b hb => by simpa using kept b hb
        simp [part, ended, same]

/-- No dollar sign of the text stands in code. -/
def Quiet (s : Scanner) : List Char → Prop
  | [] => True
  | c :: cs => (s.inCode = true → c ≠ '$') ∧ ∀ t, s.step c = some t → Quiet t cs

theorem Quiet.of_not_mem {s : Scanner} {cs : List Char} (h : '$' ∉ cs) : Quiet s cs := by
  induction cs generalizing s with
  | nil => trivial
  | cons c cs ih =>
      rw [List.mem_cons, not_or] at h
      exact ⟨fun _ same => h.1 same.symm, fun t _ => ih h.2⟩

theorem Quiet.append {s : Scanner} {cs ds : List Char} (first : Quiet s cs)
    (second : ∀ t, s.walk cs = some t → Quiet t ds) : Quiet s (cs ++ ds) := by
  induction cs generalizing s with
  | nil => exact second s rfl
  | cons c cs ih =>
      refine ⟨first.1, fun t stepped => ih (first.2 t stepped) fun u walked => second u ?_⟩
      rw [Scanner.walk, stepped, Option.bind_some, walked]

/-- A text without a dollar sign in code is only scanned. -/
theorem run_of_walk {cs : List Char} {rs : List Region} {pending : Option Char} {t : Scanner}
    {outer : List Region} {word : List Char} {bodies : List (Nat × Nat)}
    (walked : Scanner.walk ⟨rs ++ [Scanner.floor], pending⟩ cs = some t)
    (quiet : Quiet ⟨rs ++ [Scanner.floor], pending⟩ cs) (calm : Calm word)
    (kept : ∀ b ∈ bodies, b.2 ≤ outer.length + 1) (close : Char) (recent : List Atom)
    (found : List Lowering) :
    ∃ us word' recent', t.regions = us ++ [Scanner.floor] ∧ Calm word' ∧
      run ⟨⟨rs ++ .bracket close :: outer, pending⟩, word, recent, bodies, found⟩ cs =
        some ⟨⟨us ++ .bracket close :: outer, t.pending⟩, word', recent', bodies, found⟩ := by
  induction cs generalizing rs pending word recent with
  | nil =>
      cases walked
      exact ⟨rs, word, recent, rfl, calm, rfl⟩
  | cons c cs ih =>
      obtain ⟨u, first, later⟩ := Option.bind_eq_some_iff.mp walked
      obtain ⟨us, regions, same⟩ := Scanner.step_floor close outer first
      have whole : u = ⟨us ++ [Scanner.floor], u.pending⟩ := by rw [← regions]
      have code : Scanner.inCode ⟨rs ++ .bracket close :: outer, pending⟩ =
          Scanner.inCode ⟨rs ++ [Scanner.floor], pending⟩ := by
        rcases rs with _ | ⟨_ | _ | _, _⟩ <;> rfl
      obtain ⟨word', recent', calm', stepped⟩ := step_of_calm same calm
        (by rw [code]; exact quiet.1) (fun b hb => Nat.le_trans (kept b hb) (by simp)) recent found
      have quiet' := quiet.2 u first
      rw [whole] at later quiet'
      obtain ⟨vs, word'', recent'', left, calm'', all⟩ := ih later quiet' calm' recent'
      refine ⟨vs, word'', recent'', left, calm'', ?_⟩
      rw [run, stepped, Option.bind_some]
      exact all

end Tracker

/-! ## What a text adds -/

theorem modify_append_of_lt {found ms : List Lowering} {i : Nat} (h : i < found.length)
    (f : Lowering → Lowering) : (found ++ ms).modify i f = found.modify i f ++ ms := by
  induction found generalizing i with
  | nil => cases h
  | cons l found ih =>
      cases i with
      | zero => rfl
      | succ i => simp [ih (Nat.lt_of_succ_lt_succ h)]

@[simp] theorem length_note (uses : List (Use × String)) (bodies : List (Nat × Nat))
    (found : List Lowering) : (note uses bodies found).length = found.length := by
  unfold note
  split <;> simp

@[simp] theorem note_nil (bodies : List (Nat × Nat)) (found : List Lowering) :
    note [] bodies found = found := by
  unfold note
  split
  · rfl
  · simp only [List.append_nil]
    exact List.modify_id _ found

/-- The bodies that are open belong to functions that were found, and no more than the given
number of regions is open in them. -/
def Opened (bodies : List (Nat × Nat)) (found : List Lowering) (depth : Nat) : Prop :=
  ∀ b ∈ bodies, b.1 < found.length ∧ b.2 ≤ depth

theorem Opened.mono {bodies : List (Nat × Nat)} {found found' : List Lowering} {depth depth' : Nat}
    (h : Opened bodies found depth) (longer : found.length ≤ found'.length)
    (deeper : depth ≤ depth') : Opened bodies found' depth' :=
  fun b hb => ⟨Nat.lt_of_lt_of_le (h b hb).1 longer, Nat.le_trans (h b hb).2 deeper⟩

/-- The body of a function that was just found is open. -/
theorem Opened.push {bodies : List (Nat × Nat)} {found : List Lowering} {depth depth' : Nat}
    (h : Opened bodies found depth) (deeper : depth ≤ depth') (l : Lowering) :
    Opened ((found.length, depth') :: bodies) (found ++ [l]) depth' := by
  intro b hb
  rcases List.mem_cons.mp hb with rfl | other
  · simp
  · exact h.mono (by simp) deeper b other

theorem note_append {bodies : List (Nat × Nat)} {found : List Lowering} {depth : Nat}
    (h : Opened bodies found depth) (us vs : List (Use × String)) (ms : List Lowering) :
    note vs bodies (note us bodies found ++ ms) = note (us ++ vs) bodies found ++ ms := by
  cases bodies with
  | nil => rfl
  | cons b bodies =>
      have inside : b.1 < found.length := (h b List.mem_cons_self).1
      simp only [note]
      rw [modify_append_of_lt (by simpa using inside), List.modify_modify_eq]
      simp [Function.comp_def]

/-- The text closes the brackets `before` and leaves the brackets `after` open. It adds the
uses to the innermost function around it, and it adds functions, none of which is open behind
it. The word that is under way in front of it satisfies `p`, and the one behind it `q`. -/
def Tracks (p q : List Char → Prop) (before after : List Char) (uses : List (Use × String))
    (added : List Lowering) (cs : List Char) : Prop :=
  ∀ close outer word recent bodies found, p word → Opened bodies found (outer.length + 1) →
    (uses = [] ∨ bodies ≠ []) →
    ∃ word' recent', q word' ∧
      Tracker.run ⟨⟨before.map .bracket ++ .bracket close :: outer, none⟩, word, recent, bodies,
        found⟩ cs =
      some ⟨⟨after.map .bracket ++ .bracket close :: outer, none⟩, word', recent', bodies,
        note uses bodies found ++ added⟩

abbrev Lowers (before after : List Char) (added : List Lowering) (cs : List Char) : Prop :=
  Tracks Calm Calm before after [] added cs

namespace Tracks

variable {p q s : List Char → Prop} {a b d cs ds : List Char} {us vs : List (Use × String)}
  {ms ns : List Lowering}

theorem append (first : Tracks p q a b us ms cs) (second : Tracks q s b d vs ns ds) :
    Tracks p s a d (us ++ vs) (ms ++ ns) (cs ++ ds) := by
  intro close outer word recent bodies found before opened used
  rw [List.append_eq_nil_iff] at used
  obtain ⟨word', recent', between, front⟩ :=
    first close outer word recent bodies found before opened (used.imp_left And.left)
  obtain ⟨word'', recent'', behind, rest⟩ :=
    second close outer word' recent' bodies (note us bodies found ++ ms) between
      (opened.mono (by simp) (Nat.le_refl _)) (used.imp_left And.right)
  refine ⟨word'', recent'', behind, ?_⟩
  rw [Tracker.run_append, front, Option.bind_some, rest, note_append opened, List.append_assoc]

theorem imp {p' q' : List Char → Prop} (h : Tracks p q a b us ms cs) (left : ∀ w, p' w → p w)
    (right : ∀ w, q w → q' w) : Tracks p' q' a b us ms cs := by
  intro close outer word recent bodies found before opened used
  obtain ⟨word', recent', behind, all⟩ :=
    h close outer word recent bodies found (left word before) opened used
  exact ⟨word', recent', right word' behind, all⟩

theorem within (h : Tracks p q [] [] us ms cs) (around : List Char) :
    Tracks p q around around us ms cs := by
  cases around with
  | nil => exact h
  | cons c around =>
      intro close outer word recent bodies found before opened used
      refine h c (around.map Region.bracket ++ .bracket close :: outer) word recent bodies found
        before (opened.mono (Nat.le_refl _) ?_) used
      simp
      omega

theorem nil : Tracks p p a a [] [] [] :=
  fun _ _ word recent _ _ before _ _ => ⟨word, recent, before, by simp [Tracker.run]⟩

/-- A text without a dollar sign in code adds nothing. -/
theorem of_quiet (moves : Moves a b cs)
    (quiet : Tracker.Quiet ⟨a.map .bracket ++ [Scanner.floor], none⟩ cs) : Lowers a b [] cs := by
  intro close outer word recent bodies found calm opened _
  obtain ⟨us, word', recent', regions, calm', ran⟩ := Tracker.run_of_walk
    (moves ' ' []) quiet calm (fun b hb => (opened b hb).2) close recent found
  refine ⟨word', recent', calm', ?_⟩
  rw [ran, ← List.append_cancel_right regions, note_nil, List.append_nil]

theorem of_moves (moves : Moves a b cs) (plain : '$' ∉ cs) : Lowers a b [] cs :=
  of_quiet moves (.of_not_mem plain)

/-- What a fixed text does is found by scanning it once. -/
theorem of_walk (h : Scanner.walk ⟨a.map .bracket ++ [Scanner.floor], none⟩ cs =
    some ⟨b.map .bracket ++ [Scanner.floor], none⟩) (plain : '$' ∉ cs) : Lowers a b [] cs :=
  of_moves (.of_walk h) plain

theorem followedBy (first : Tracks p q a b us ms cs) (second : Tracks q s b d [] [] ds) :
    Tracks p s a d us ms (cs ++ ds) := by
  simpa using first.append second

end Tracks

/-! ## Words -/

theorem isPlain_of_isWordPart {c : Char} (h : isWordPart c = true) : isPlain c = true := by
  have opening : Region.ofOpening? c = none := by
    unfold Region.ofOpening?
    split <;> first | rfl | exact absurd h (by decide)
  have closing : isClosing c = false := by
    simp only [isClosing, Bool.or_eq_false_iff, beq_eq_false_iff_ne]
    refine ⟨⟨?_, ?_⟩, ?_⟩ <;> rintro rfl <;> exact absurd h (by decide)
  have slash : c ≠ '/' := by
    rintro rfl
    exact absurd h (by decide)
  simp [isPlain, opening, closing, slash]

theorem isPlain_of_continuesWord {c : Char} (h : continuesWord c = true) : isPlain c = true := by
  simp only [continuesWord, Bool.or_eq_true, beq_iff_eq] at h
  rcases h with part | rfl
  · exact isPlain_of_isWordPart part
  · decide

theorem WordStops.append {cs : List Char} (h : WordStops cs) (some : cs ≠ []) (rest : List Char) :
    WordStops (cs ++ rest) := by
  obtain ⟨c, cs, rfl⟩ := List.exists_cons_of_ne_nil some
  exact WordStops.cons (h c rfl) _

namespace Tracker

theorem run_word {cs : List Char} (h : ∀ c ∈ cs, continuesWord c = true) (close : Char)
    (outer : List Region) (word : List Char) (recent : List Atom) (bodies : List (Nat × Nat))
    (found : List Lowering) :
    run ⟨⟨.bracket close :: outer, none⟩, word, recent, bodies, found⟩ cs =
      some ⟨⟨.bracket close :: outer, none⟩, word ++ cs, recent, bodies, found⟩ := by
  induction cs generalizing word with
  | nil => rw [List.append_nil, run]
  | cons c cs ih =>
      have part := h c List.mem_cons_self
      have first : step ⟨⟨.bracket close :: outer, none⟩, word, recent, bodies, found⟩ c =
          some ⟨⟨.bracket close :: outer, none⟩, word ++ [c], recent, bodies, found⟩ := by
        rw [step, Scanner.step_of_isPlain (isPlain_of_continuesWord part)]
        simp [Scanner.inCode, part]
      rw [run, first, Option.bind_some, ih (fun d hd => h d (List.mem_cons_of_mem _ hd))]
      simp

theorem endWord_eq_some {r t : Tracker} (h : r.endWord = some t) :
    t.scanner = r.scanner ∧ t.endWord = some t := by
  unfold endWord at h
  simp only at h
  split at h
  · rename_i empty
    cases h
    exact ⟨rfl, by rw [endWord, if_pos empty]⟩
  · split at h
    · cases h
      exact ⟨rfl, rfl⟩
    · split at h
      · cases h
        exact ⟨rfl, rfl⟩
      · split at h
        · cases h
        · obtain ⟨use, _, rfl⟩ := Option.map_eq_some_iff.mp h
          exact ⟨rfl, rfl⟩

/-- A word is over as soon as the text does not go on with it. -/
theorem run_of_endWord {r t : Tracker} {cs : List Char} (code : r.scanner.inCode = true)
    (some : cs ≠ []) (stops : WordStops cs) (h : r.endWord = .some t) : r.run cs = t.run cs := by
  cases cs with
  | nil => exact absurd rfl some
  | cons c cs =>
      obtain ⟨scanner, again⟩ := endWord_eq_some h
      have part : continuesWord c = false := stops c rfl
      rw [run, run, step, step, scanner, h, again]
      simp [code, part]

end Tracker

/-- A plain character that belongs to no word ends the word in front of it. -/
theorem Tracks.stop {c : Char} (plain : isPlain c = true) (stops : continuesWord c = false) :
    Tracks Calm Fresh [] [] [] [] [c] := by
  intro close outer word recent bodies found calm _ _
  obtain ⟨recent', ended⟩ := Tracker.endWord_of_calm calm ⟨.bracket close :: outer, none⟩ recent
    bodies found
  have closing : isClosing c = false := by
    simp only [isPlain, Bool.and_eq_true, Bool.not_eq_true'] at plain
    exact plain.1.2
  refine ⟨[], if isBlank c then recent' else .sign c :: recent', rfl, ?_⟩
  rw [List.map_nil, List.nil_append, Tracker.run, Tracker.step, Scanner.step_of_isPlain plain,
    ended]
  simp [Tracker.run, Scanner.inCode, stops, closing]

theorem Tracker.run_blanks (k : Nat) (close : Char) (outer : List Region) (recent : List Atom)
    (bodies : List (Nat × Nat)) (found : List Lowering) :
    run ⟨⟨.bracket close :: outer, none⟩, [], recent, bodies, found⟩ (List.replicate k ' ') =
      some ⟨⟨.bracket close :: outer, none⟩, [], recent, bodies, found⟩ := by
  induction k with
  | zero => rfl
  | succ k ih =>
      rw [List.replicate_succ, run]
      exact ih

theorem Tracks.freshBlanks (k : Nat) : Tracks Fresh Fresh [] [] [] [] (List.replicate k ' ') := by
  intro close outer word recent bodies found fresh _ _
  obtain rfl : word = [] := fresh
  exact ⟨[], recent, rfl, by simp [Tracker.run_blanks]⟩

theorem Lowers.blanks (k : Nat) : Lowers [] [] [] (List.replicate k ' ') :=
  .of_moves (Balanced.of_isPlain fun c hc => by rw [List.eq_of_mem_replicate hc]; decide)
    (by simp [List.mem_replicate])

def Temporary (name : String) : Prop :=
  isTemporary name.toList = true ∧ ∀ c ∈ name.toList, continuesWord c = true

theorem temporary_of_isDigit {cs : List Char} (h : ∀ c ∈ cs, isDigit c = true) :
    Temporary (String.ofList ("$match_".toList ++ cs)) := by
  rw [Temporary, String.toList_ofList]
  refine ⟨List.isPrefixOf_iff_prefix.mpr (List.prefix_append ..), fun c hc => ?_⟩
  rcases List.mem_append.mp hc with named | digit
  · have letters : "$match_".toList.all continuesWord = true := by rfl
    exact List.all_eq_true.mp letters c named
  · simp [continuesWord, isWordPart_of_isDigit (h c digit)]

theorem Temporary.ne_nil {name : String} (h : Temporary name) : name.toList ≠ [] := by
  intro empty
  have named := h.1
  rw [empty] at named
  cases named

/-- A temporary behind a text that gives it a use. -/
theorem Tracks.use {q : List Char → Prop} {lead rest b d : List Char} {use : Use}
    {temp : String} (named : Temporary temp) (front : List Atom)
    (leads : ∀ close outer recent bodies found,
      Tracker.run ⟨⟨.bracket close :: outer, none⟩, [], recent, bodies, found⟩ lead =
        some ⟨⟨b.map .bracket ++ .bracket close :: outer, none⟩, [], front ++ recent, bodies,
          found⟩)
    (used : ∀ recent, Use.of? (front ++ recent) = some use ∧
      Atom.declaration.isPrefixOf (front ++ recent) = false)
    (stops : WordStops rest) (more : rest ≠ []) (behind : Tracks Calm q b d [] [] rest) :
    Tracks Fresh q [] d [(use, temp)] [] (lead ++ (temp.toList ++ rest)) := by
  intro close outer word recent bodies found fresh opened inside
  obtain ⟨inner, outer', top⟩ : ∃ inner outer',
      b.map .bracket ++ .bracket close :: outer = .bracket inner :: outer' := by
    cases b with
    | nil => exact ⟨close, outer, rfl⟩
    | cons c b => exact ⟨c, _, rfl⟩
  have nonempty : bodies ≠ [] := inside.resolve_left (by simp)
  rw [List.map_nil, List.nil_append, show word = [] from fresh]
  let found' := note [(use, temp)] bodies found
  have ended : Tracker.endWord ⟨⟨.bracket inner :: outer', none⟩, temp.toList,
      front ++ recent, bodies, found⟩ = some ⟨⟨.bracket inner :: outer', none⟩, [],
        .word temp.toList :: (front ++ recent), bodies, found'⟩ := by
    obtain ⟨of, undeclared⟩ := used recent
    simp [Tracker.endWord, named.ne_nil, named.1, of, undeclared, nonempty,
      found']
  obtain ⟨word', recent', after, ran⟩ := behind close outer []
    (.word temp.toList :: (front ++ recent)) bodies found' Calm.nil
    (opened.mono (by simp [found']) (Nat.le_refl _)) (.inl rfl)
  refine ⟨word', recent', after, ?_⟩
  rw [Tracker.run_append, leads, Option.bind_some, Tracker.run_append, top,
    Tracker.run_word named.2, Option.bind_some, List.nil_append,
    Tracker.run_of_endWord rfl more stops ended, ← top, ran]
  simp [found']

theorem Tracks.test {temp : String} (named : Temporary temp) :
    Tracks Fresh Calm [] [')'] [(.tested, temp)] []
      ("if (".toList ++ (temp.toList ++ " === ".toList)) := by
  have behind : Lowers [')'] [')'] [] " === ".toList := .of_walk (by decide) (by decide)
  exact .use named Atom.test (fun _ _ _ _ _ => rfl) (fun _ => ⟨rfl, rfl⟩)
    (WordStops.cons (by decide) _) (by decide) behind

theorem Tracks.error {temp : String} (named : Temporary temp) :
    Tracks Fresh Calm [] [] [(.thrown, temp)] []
      ("throw new Error(\"no match for value: \" + ".toList ++
        (temp.toList ++ ");".toList)) := by
  have behind : Lowers [')'] [] [] ");".toList := .of_walk (by decide) (by decide)
  exact .use named Atom.error (fun _ _ _ _ _ => rfl) (fun _ => ⟨rfl, rfl⟩)
    (WordStops.cons (by decide) _) (by decide) behind

/-! ## Functions -/

/-- The text up to the declaration of a temporary opens the body of a function. -/
theorem Tracker.run_declaration {temp : String} {head word : List Char} {bodies : List (Nat × Nat)}
    {found : List Lowering} {outer : List Region} (named : Temporary temp)
    (opening : Lowers [] [')'] [] head) (k : Nat) (close : Char) (recent : List Atom)
    (calm : Calm word) (opened : Opened bodies found (outer.length + 1)) :
    ∃ word' recent', Calm word' ∧
      run ⟨⟨.bracket close :: outer, none⟩, word, recent, bodies, found⟩
        (head ++ ("=> \x7b\n".toList ++ (List.replicate k ' ' ++ ("const ".toList
          ++ (temp.toList ++ " = ".toList))))) =
      some ⟨⟨.bracket '}' :: .bracket ')' :: .bracket close :: outer, none⟩, word', recent',
        (found.length, outer.length + 3) :: bodies, found ++ [⟨temp, []⟩]⟩ := by
  obtain ⟨word₁, recent₁, calm₁, first⟩ := opening close outer word recent bodies found calm opened
    (.inl rfl)
  rw [note_nil, List.append_nil] at first
  obtain ⟨recent₂, passed⟩ := endWord_of_calm calm₁
    ⟨.bracket ')' :: .bracket close :: outer, none⟩ recent₁ bodies found
  let recent₃ := Atom.declaration ++ recent₂
  let inside : Scanner := ⟨.bracket '}' :: .bracket ')' :: .bracket close :: outer, none⟩
  have declared : endWord ⟨inside, temp.toList, recent₃, bodies, found⟩ =
      some ⟨inside, [], .word temp.toList :: recent₃, (found.length, outer.length + 3) :: bodies,
        found ++ [⟨temp, []⟩]⟩ := by
    have front : Atom.declaration.isPrefixOf recent₃ = true := by simp [recent₃]
    simp [endWord, named.ne_nil, named.1, front, inside]
  have body : run ⟨⟨.bracket ')' :: .bracket close :: outer, none⟩, [], recent₂, bodies, found⟩
      "=> \x7b\n".toList =
        some ⟨inside, [], .sign '{' :: .sign '>' :: .sign '=' :: recent₂, bodies, found⟩ := rfl
  have keyword : run ⟨inside, [], .sign '{' :: .sign '>' :: .sign '=' :: recent₂, bodies, found⟩
      "const ".toList = some ⟨inside, [], recent₃, bodies, found⟩ := rfl
  have equal : Lowers [] [] [] " = ".toList := .of_walk (by decide) (by decide)
  have deeper := opened.push (Nat.le_add_right _ 2) ⟨temp, []⟩
  obtain ⟨word', recent', calm', last⟩ := equal '}' (.bracket ')' :: .bracket close :: outer) []
    (.word temp.toList :: recent₃) _ _ Calm.nil deeper (.inl rfl)
  rw [note_nil, List.append_nil] at last
  refine ⟨word', recent', calm', ?_⟩
  have stops : WordStops "=> \x7b\n".toList := WordStops.cons (by decide) _
  have ends : WordStops " = ".toList := WordStops.cons (by decide) _
  rw [List.map_nil, List.nil_append, List.map_cons, List.map_nil] at first
  rw [run_append, first, Option.bind_some, List.singleton_append,
    run_of_endWord rfl (by simp) (stops.append (by decide) _) passed, run_append, body,
    Option.bind_some, run_append, run_blanks, Option.bind_some, run_append, keyword,
    Option.bind_some, run_append, run_word named.2, Option.bind_some, List.nil_append,
    run_of_endWord rfl (by decide) ends declared]
  exact last

/-- The brace behind the body of a function closes it. -/
theorem Tracker.run_closeBody {word : List Char} {bodies : List (Nat × Nat)} {i : Nat}
    {found : List Lowering} {outer : List Region} (calm : Calm word)
    (opened : Opened bodies found (outer.length + 1)) (close : Char) (recent : List Atom) :
    ∃ word' recent', Calm word' ∧
      run ⟨⟨.bracket '}' :: .bracket ')' :: .bracket close :: outer, none⟩, word, recent,
        (i, outer.length + 3) :: bodies, found⟩ "\x7d)()".toList =
      some ⟨⟨.bracket close :: outer, none⟩, word', recent', bodies, found⟩ := by
  obtain ⟨recent₁, passed⟩ := endWord_of_calm calm
    ⟨.bracket '}' :: .bracket ')' :: .bracket close :: outer, none⟩ recent
    ((i, outer.length + 3) :: bodies) found
  have left : ((i, outer.length + 3) :: bodies).filter
      (·.2 ≤ (Region.bracket ')' :: .bracket close :: outer).length) = bodies := by
    rw [List.filter_cons_of_neg (by simp), List.filter_eq_self]
    intro b hb
    have shallow := (opened b hb).2
    simp
    omega
  have brace : step ⟨⟨.bracket '}' :: .bracket ')' :: .bracket close :: outer, none⟩, word,
      recent, (i, outer.length + 3) :: bodies, found⟩ '}' =
      some ⟨⟨.bracket ')' :: .bracket close :: outer, none⟩, [], .sign '}' :: recent₁, bodies,
        found⟩ := by
    have closed : Scanner.step ⟨.bracket '}' :: .bracket ')' :: .bracket close :: outer, none⟩
        '}' = some ⟨.bracket ')' :: .bracket close :: outer, none⟩ := rfl
    rw [step, closed, passed, Option.bind_some, if_neg (by simp [Scanner.inCode]),
      if_neg (by decide), Option.map_some, if_neg (by decide), if_pos (by decide), left]
  have call : Lowers [')'] [] [] ")()".toList := .of_walk (by decide) (by decide)
  obtain ⟨word', recent', calm', rest⟩ := call close outer [] (.sign '}' :: recent₁) bodies found
    Calm.nil opened (.inl rfl)
  rw [note_nil, List.append_nil] at rest
  exact ⟨word', recent', calm', (congrArg (Option.bind · _) brace).trans rest⟩

theorem note_last (uses : List (Use × String)) (temp : String) (found : List Lowering)
    (bodies : List (Nat × Nat)) (depth : Nat) :
    note uses ((found.length, depth) :: bodies) (found ++ [⟨temp, []⟩]) =
      found ++ [⟨temp, uses⟩] := by
  rw [note]
  induction found with
  | nil => rfl
  | cons l found ih => simpa using ih

/-- A function that is called at once, with a temporary for the value of its subject. -/
theorem Lowers.function {temp : String} {head subject choice : List Char} {us : List (Use × String)}
    {ms ns : List Lowering} (named : Temporary temp) (opening : Lowers [] [')'] [] head)
    (inner : Lowers [] [] ms subject) (body : Tracks Fresh Calm [] [] us ns choice) (k j : Nat) :
    Lowers [] [] (⟨temp, us⟩ :: (ms ++ ns))
      ((head ++ ("=> \x7b\n".toList ++ (List.replicate k ' ' ++ ("const ".toList
          ++ (temp.toList ++ " = ".toList)))))
        ++ ((subject ++ (";\n".toList ++ (choice ++ List.replicate j ' ')))
          ++ "\x7d)()".toList)) := by
  have semicolon : Lowers [] [] [] ";".toList := .of_walk (by decide) (by decide)
  have newline : Tracks Calm Fresh [] [] [] [] "\n".toList := .stop (by decide) (by decide)
  have whole : Tracks Calm Calm [] [] us (ms ++ ns)
      (subject ++ (";\n".toList ++ (choice ++ List.replicate j ' '))) := by
    simpa using inner.append ((semicolon.append newline).append (body.append (Lowers.blanks j)))
  intro close outer word recent bodies found calm opened _
  obtain ⟨word₁, recent₁, calm₁, first⟩ :=
    Tracker.run_declaration named opening k close recent calm opened
  obtain ⟨word₂, recent₂, calm₂, second⟩ := whole '}' (.bracket ')' :: .bracket close :: outer)
    word₁ recent₁ _ _ calm₁ (opened.push (Nat.le_add_right _ 2) ⟨temp, []⟩) (.inr (by simp))
  rw [note_last, List.map_nil, List.nil_append] at second
  have longer : Opened bodies (found ++ [⟨temp, us⟩] ++ (ms ++ ns)) (outer.length + 1) :=
    opened.mono (by simp) (Nat.le_refl _)
  obtain ⟨word₃, recent₃, calm₃, third⟩ := Tracker.run_closeBody calm₂ longer close recent₂
  refine ⟨word₃, recent₃, calm₃, ?_⟩
  rw [List.map_nil, List.nil_append, Tracker.run_append, first, Option.bind_some,
    Tracker.run_append, second, Option.bind_some, third, note_nil, List.append_assoc,
    List.singleton_append]

/-! ## Quotes -/

theorem quiet_escapeChar (c : Char) (outer : List Region) :
    Tracker.Quiet ⟨.string '"' :: outer, none⟩ (escapeChar c) := by
  rcases escapeChar_cases c with ⟨d, sign, chars⟩ | ⟨_, chars⟩
  · have harmless : ∀ p ∈ escapeSigns, '$' ∉ ['\\', p.2] := by decide
    rw [chars]
    exact .of_not_mem (harmless _ sign)
  · rw [chars]
    exact ⟨fun code => (by cases code), fun _ _ => trivial⟩

theorem Lowers.string (cs : List Char) : Lowers [] [] [] (escapeString cs) := by
  have inside : ∀ outer, Tracker.Quiet ⟨.string '"' :: outer, none⟩ (cs.flatMap escapeChar) := by
    intro outer
    induction cs with
    | nil => trivial
    | cons c cs ih =>
        rw [List.flatMap_cons]
        refine (quiet_escapeChar c outer).append fun t walked => ?_
        rw [walk_escapeChar, Option.some.injEq] at walked
        exact walked ▸ ih
  refine .of_quiet (Balanced.string cs) ⟨fun _ => by decide, fun t stepped => ?_⟩
  obtain rfl : ⟨[.string '"', Scanner.floor], none⟩ = t := Option.some.inj stepped
  exact (inside _).append fun _ _ => .of_not_mem (by decide)

/-- The text stays inside a template and adds functions. If `fresh` holds, no dollar sign may
stand in front of it. -/
def LowersInTemplate (fresh : Bool) (added : List Lowering) (cs : List Char) : Prop :=
  ∀ s outer word recent bodies found, InTemplate s outer → (fresh = true → s.pending = none) →
    Calm word → Opened bodies found outer.length →
    ∃ t word' recent', InTemplate t outer ∧ Calm word' ∧
      Tracker.run ⟨s, word, recent, bodies, found⟩ cs =
        some ⟨t, word', recent', bodies, found ++ added⟩

namespace LowersInTemplate

variable {fresh : Bool} {ms ns : List Lowering} {cs ds : List Char}

theorem nil : LowersInTemplate fresh [] [] :=
  fun s _ word recent _ _ inside _ calm _ => ⟨s, word, recent, inside, calm, by simp [Tracker.run]⟩

theorem text (text : List Char) (h : LowersInTemplate false ms cs) :
    LowersInTemplate true ms (escapeTemplate text ++ cs) := by
  intro s outer word recent bodies found inside fresh calm opened
  have passed : ∃ t recent', InTemplate t outer ∧
      Tracker.run ⟨s, word, recent, bodies, found⟩ (escapeTemplate text) =
        some ⟨t, word, recent', bodies, found⟩ := by
    refine escapeTemplate_rec (P := fun s cs => ∀ recent, ∃ t recent', InTemplate t outer ∧
      Tracker.run ⟨s, word, recent, bodies, found⟩ cs = some ⟨t, word, recent', bodies, found⟩)
      (fun s inside recent => ⟨s, recent, inside, rfl⟩)
      (fun s t c cs regions stepped rest recent => ?_) text inside (by simp [fresh rfl]) recent
    obtain ⟨u, recent', left, ran⟩ := rest (if t.inCode then .quoted :: recent else recent)
    refine ⟨u, recent', left, ?_⟩
    rw [Tracker.run, Tracker.step, stepped, Option.bind_some,
      if_pos (by simp [Scanner.inCode, regions]), Option.bind_some]
    exact ran
  obtain ⟨t, recent', left, ran⟩ := passed
  obtain ⟨u, word'', recent'', last, calm'', rest⟩ :=
    h t outer word recent' bodies found left (by simp) calm opened
  exact ⟨u, word'', recent'', last, calm'', by rw [Tracker.run_append, ran, Option.bind_some, rest]⟩

theorem interpolation {fresh' : Bool} (inner : Lowers [] [] ms cs)
    (h : LowersInTemplate fresh' ns ds) :
    LowersInTemplate fresh (ms ++ ns) ('$' :: '{' :: (cs ++ '}' :: ds)) := by
  intro s outer word recent bodies found inside _ calm opened
  have deep : ∀ b ∈ bodies, b.2 ≤ outer.length + 1 := fun b hb => Nat.le_succ_of_le (opened b hb).2
  have opening : Scanner.step ⟨.template :: outer, some '$'⟩ '{' =
      some ⟨.bracket '}' :: .template :: outer, none⟩ := rfl
  have closing : Scanner.step ⟨.bracket '}' :: .template :: outer, none⟩ '}' =
      some ⟨.template :: outer, none⟩ := rfl
  obtain ⟨word₁, recent₁, calm₁, first⟩ := Tracker.step_of_calm inside.step_dollar calm
    (by simp [Scanner.inCode, inside.1]) deep recent found
  obtain ⟨word₂, recent₂, calm₂, second⟩ := Tracker.step_of_calm opening calm₁
    (by simp [Scanner.inCode]) (fun b hb => Nat.le_succ_of_le (deep b hb)) recent₁ found
  obtain ⟨word₃, recent₃, calm₃, code⟩ := inner '}' (.template :: outer) word₂ recent₂ bodies
    found calm₂ (opened.mono (Nat.le_refl _) (Nat.le_add_right _ 2)) (.inl rfl)
  obtain ⟨word₄, recent₄, calm₄, third⟩ := Tracker.step_of_calm closing calm₃ (fun _ => by decide)
    deep recent₃ (found ++ ms)
  obtain ⟨t, word', recent', left, calm', rest⟩ := h ⟨.template :: outer, none⟩ outer word₄ recent₄
    bodies (found ++ ms) ⟨rfl, .inl rfl⟩ (fun _ => rfl) calm₄
    (opened.mono (by simp) (Nat.le_refl _))
  refine ⟨t, word', recent', left, calm', ?_⟩
  rw [List.map_nil, List.nil_append, note_nil] at code
  rw [Tracker.run, first, Option.bind_some, Tracker.run, second, Option.bind_some,
    Tracker.run_append, code, Option.bind_some, Tracker.run, third, Option.bind_some, rest,
    List.append_assoc]

theorem quoted (h : LowersInTemplate fresh ms cs) : Lowers [] [] ms ('`' :: (cs ++ ['`'])) := by
  intro close outer word recent bodies found calm opened _
  have deep : ∀ b ∈ bodies, b.2 ≤ outer.length + 1 := fun b hb => (opened b hb).2
  have opening : Scanner.step ⟨.bracket close :: outer, none⟩ '`' =
      some ⟨.template :: .bracket close :: outer, none⟩ := rfl
  obtain ⟨word₁, recent₁, calm₁, first⟩ := Tracker.step_of_calm opening calm (fun _ => by decide)
    (fun b hb => Nat.le_succ_of_le (deep b hb)) recent found
  obtain ⟨t, word₂, recent₂, left, calm₂, inside⟩ := h ⟨.template :: .bracket close :: outer, none⟩
    _ word₁ recent₁ bodies found ⟨rfl, .inl rfl⟩ (fun _ => rfl) calm₁ opened
  obtain ⟨word₃, recent₃, calm₃, last⟩ := Tracker.step_of_calm left.step_close calm₂
    (fun _ => by decide) deep recent₂ (found ++ ms)
  refine ⟨word₃, recent₃, calm₃, ?_⟩
  rw [List.map_nil, List.nil_append, Tracker.run, first, Option.bind_some, Tracker.run_append,
    inside, Option.bind_some, Tracker.run, last, Option.bind_some, Tracker.run, note_nil]

end LowersInTemplate

/-! ## Regions -/

theorem Tracker.walk_of_run {r t : Tracker} {cs : List Char} (h : r.run cs = some t) :
    r.scanner.walk cs = some t.scanner := by
  induction cs generalizing r with
  | nil => exact congrArg (Option.map scanner) h
  | cons c cs ih =>
      obtain ⟨u, stepped, later⟩ := Option.bind_eq_some_iff.mp h
      obtain ⟨next, scanned, rest⟩ := Option.bind_eq_some_iff.mp stepped
      have same : u.scanner = next := by
        split at rest
        · cases rest
          rfl
        · split at rest
          · cases rest
            rfl
          · obtain ⟨v, _, rfl⟩ := Option.map_eq_some_iff.mp rest
            rfl
      rw [Scanner.walk, scanned, Option.bind_some, ← same, ih later]

/-- What is understood is also closed. -/
theorem Tracks.moves {p q : List Char → Prop} {a b cs : List Char} {us : List (Use × String)}
    {ms : List Lowering} (h : Tracks p q a b us ms cs) (empty : p []) : Moves a b cs := by
  intro close outer
  obtain ⟨word, recent, _, ran⟩ := h close outer [] [] [(0, 0)] [⟨"", []⟩] empty (by simp [Opened])
    (.inr (by simp))
  exact Tracker.walk_of_run ran

end Js

end TwoScript
