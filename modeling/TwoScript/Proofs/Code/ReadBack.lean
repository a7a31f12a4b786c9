import TwoScript.Compile
import TwoScript.Proofs.Code.Regrouped
import TwoScript.Proofs.Code.SpellingStatement
import TwoScript.Proofs.Number.RoundTrip
import TwoScript.Proofs.Parse.CompleteStatement
import TwoScript.Proofs.Parse.SoundStatement

/-!
# Generated code is source text

JavaScript that is generated for a program is itself a program of the language, as long
as the tree stays inside what both languages share. Compiling it reads the same tree,
up to the parentheses and types that code has not, and writes the same text.
-/

namespace TwoScript

/-! ## What both languages share -/

def Expr.Portable : Expr → Prop
  | .literal _ (.number x) => ∀ negative, x ≠ .infinite negative
  | .ident _ name => name ∉ reservedWords
  | .select _ _ _ => False
  | .template _ parts => partsEvery untemplated parts
  | _ => True

/-- What the names that a single statement binds are. Methods may have any name. -/
def Statement.Portable : Statement → Prop
  | .function _ routine =>
    routine.name ∉ reservedWords ∧ ∀ p ∈ routine.params, p.name ∉ reservedWords
  | .classDecl _ name methods =>
    name ∉ reservedWords ∧ ∀ m ∈ methods, ∀ p ∈ m.params, p.name ∉ reservedWords
  | .declare _ _ name _ _ => name ∉ reservedWords
  | .attempt _ _ handler _ =>
    ∀ h, handler = some h → ∀ name, h.binding = some name → name ∉ reservedWords
  | _ => True

/-- The condition on the nodes of a tree in the common part: no selection, no template
inside another one, no infinite number, and no reserved word as a name. -/
def portable : Check where
  expr := Expr.Portable
  pattern _ := True
  statement := Statement.Portable

theorem Number.Written.spelled {x : Number} (h : x.Written)
    (isFinite : ∀ negative, x ≠ .infinite negative) : x.Spelled := by
  obtain ⟨whole, fraction, rfl⟩ := h
  obtain ⟨ws, fs, text, some, digits, fractional, same⟩ :=
    Number.textWith_digits "Infinity" whole fraction (isFinite false)
  exact ⟨ws, fs, text, some, digits, fractional, same⟩

theorem isFreeName_of_not_mem {name : String} (named : isName name = true)
    (free : name ∉ reservedWords) : isFreeName name = true := by
  simpa [isFreeName, named] using free

theorem Expr.spelled_of_portable {e : Expr} (formed : e.Formed) (portable : e.Portable) :
    e.Spelled := by
  cases e with
  | literal _ value =>
      cases value with
      | number x => exact Number.Written.spelled formed portable
      | _ => trivial
  | ident _ name => exact isFreeName_of_not_mem formed portable
  | member _ _ property => exact formed
  | select _ _ _ => exact portable
  | template _ parts => exact ⟨formed, portable⟩
  | _ => trivial

theorem Statement.spelled_of_portable {s : Statement} (formed : s.Formed) (portable : s.Portable) :
    s.Spelled := by
  cases s with
  | function _ routine =>
      exact ⟨isFreeName_of_not_mem formed.1 portable.1, fun p hp =>
        isFreeName_of_not_mem (formed.2 p hp).1 (portable.2 p hp)⟩
  | classDecl _ name methods =>
      exact ⟨isFreeName_of_not_mem formed.1 portable.1, fun m hm p hp =>
        isFreeName_of_not_mem ((formed.2 m hm).2 p hp).1 (portable.2 m hm p hp)⟩
  | declare _ _ name _ _ => exact isFreeName_of_not_mem formed.1 portable
  | attempt _ _ handler _ =>
      exact fun h caught name bound =>
        isFreeName_of_not_mem (formed.2 h caught name bound) (portable h caught name bound)
  | _ => trivial

theorem spelled_of_portable : (grammatical.and portable).Implies spelled where
  expr _ h := ⟨h.1.1, Expr.spelled_of_portable h.1.2 h.2⟩
  pattern _ _ := trivial
  statement _ h := ⟨h.1, Statement.spelled_of_portable h.1 h.2⟩

theorem readable_of_spelled : spelled.Implies readable where
  expr e h := ⟨h.1, by cases e <;> first | rfl | exact h.2.elim⟩
  pattern _ _ := trivial
  statement _ h := h.1

/-! ## Reading code -/

theorem mem_bodyRegroup {body : List Statement} {s : Statement} (h : s ∈ bodyRegroup body) :
    ∃ t ∈ body, s = t.regroup := by
  induction body with
  | nil => cases h
  | cons t body ih =>
      rcases List.mem_cons.mp h with rfl | later
      · exact ⟨t, List.mem_cons_self, rfl⟩
      · obtain ⟨u, hu, same⟩ := ih later
        exact ⟨u, List.mem_cons_of_mem _ hu, same⟩

/-- The code of a program that is not too deep is read as the program with its groups. -/
theorem parse_programCode {body : List Statement} (width : Nat) (every : bodyEvery spelled body)
    (height : ∀ s ∈ body, s.height ≤ 100) :
    ∃ body', parse ((programCode 0 body).render width) = ⟨body', []⟩ ∧
      bodyRelabel .bare body' = bodyRelabel .bare (bodyRegroup body) := by
  obtain ⟨ts, yields, spells⟩ : ReadsAs _ ((programCode 0 body).chars width) :=
    programReadsAs_code 0 body every
  have whole : shapes ((programCode 0 body).chars width) = ts := by
    simpa using spells [] trivial
  obtain ⟨ahead, _, _⟩ := Cursor.ofTokens_tokensFrom .first ((programCode 0 body).chars width)
  rw [whole, ← List.append_nil ts] at ahead
  obtain ⟨c', taken, rest⟩ := Cursor.exists_takes ahead
  have ended : c'.ahead = [] := List.map_eq_nil_iff.mp rest
  have readable := bodyEvery_iff.mp (bodyEvery_regroup body (bodyEvery_mono readable_of_spelled body
    every))
  refine programFrom_reads (Grammar.reads_ofRoom maxNesting) readable (fun s hs => ?_) yields taken
    ended
  obtain ⟨t, ht, rfl⟩ := mem_bodyRegroup hs
  have twice := Statement.height_regroup t
  have low := height t ht
  have room : maxNesting = 256 := rfl
  omega

/-! ## Nothing to refuse -/

mutual

theorem Expr.visits_of_readable : ∀ e : Expr, e.Every readable → e.visits = []
  | .literal _ _, _ | .ident _ _, _ => rfl
  | .assign _ _ left right, h | .binary _ _ left right, h => by
    rw [Expr.visits, Expr.visits_of_readable left h.2.1, Expr.visits_of_readable right h.2.2]
    rfl
  | .unary _ _ operand, h | .group _ operand, h | .member _ operand _, h | .await _ operand, h =>
    Expr.visits_of_readable operand h.2
  | .call _ callee args, h => by
    rw [Expr.visits, Expr.visits_of_readable callee h.2.1, argsVisits_of_readable args h.2.2]
    rfl
  | .select _ _ _, h => nomatch h.1.2
  | .template _ parts, h => partsVisits_of_readable parts h.2

theorem argsVisits_of_readable : ∀ args : List Expr, argsEvery readable args → argsVisits args = []
  | [], _ => rfl
  | e :: es, h => by
    rw [argsVisits, Expr.visits_of_readable e h.1, argsVisits_of_readable es h.2]
    rfl

theorem partsVisits_of_readable : ∀ parts : List Part, partsEvery readable parts →
    partsVisits parts = []
  | [], _ => rfl
  | .text _ :: parts, h => partsVisits_of_readable parts h
  | .expr e :: parts, h => by
    rw [partsVisits, Expr.visits_of_readable e h.1, partsVisits_of_readable parts h.2]
    rfl

theorem Statement.visits_of_readable : ∀ s : Statement, s.Every readable → s.visits = []
  | .function _ routine, h => Routine.visits_of_readable routine h.2
  | .classDecl _ _ methods, h => routinesVisits_of_readable methods h.2
  | .declare _ _ _ _ none, _ | .returning _ none, _ => rfl
  | .declare _ _ _ _ (some value), h | .returning _ (some value), h | .expression _ value, h =>
    Expr.visits_of_readable value h.2
  | .conditional _ condition body none, h => by
    rw [Statement.visits, Expr.visits_of_readable condition h.2.1,
      bodyVisits_of_readable body h.2.2]
    rfl
  | .conditional _ condition body (some otherwise), h => by
    rw [Statement.visits, Expr.visits_of_readable condition h.2.1,
      bodyVisits_of_readable body h.2.2.1, Statement.visits_of_readable otherwise h.2.2.2]
    rfl
  | .attempt _ body handler cleanup, h => by
    rw [Statement.visits, bodyVisits_of_readable body h.2.1,
      handlerVisits_of_readable handler h.2.2.1, cleanupVisits_of_readable cleanup h.2.2.2]
    rfl
  | .block _ body, h => bodyVisits_of_readable body h.2
  | .failed _, h => nomatch h

theorem bodyVisits_of_readable : ∀ body : List Statement, bodyEvery readable body →
    bodyVisits body = []
  | [], _ => rfl
  | s :: ss, h => by
    rw [bodyVisits, Statement.visits_of_readable s h.1, bodyVisits_of_readable ss h.2]
    rfl

theorem handlerVisits_of_readable : ∀ handler : Option Handler, handlerEvery readable handler →
    handlerVisits handler = []
  | none, _ => rfl
  | some ⟨_, body⟩, h => bodyVisits_of_readable body h

theorem cleanupVisits_of_readable : ∀ cleanup : Option (List Statement),
    cleanupEvery readable cleanup → cleanupVisits cleanup = []
  | none, _ => rfl
  | some body, h => bodyVisits_of_readable body h

theorem Routine.visits_of_readable : ∀ r : Routine, r.Every readable → r.visits = []
  | ⟨_, params, _, body, _⟩, h => by
    rw [Routine.visits, paramsVisits_of_readable params h.1, bodyVisits_of_readable body h.2]
    rfl

theorem routinesVisits_of_readable : ∀ rs : List Routine, routinesEvery readable rs →
    routinesVisits rs = []
  | [], _ => rfl
  | r :: rs, h => by
    rw [routinesVisits, Routine.visits_of_readable r h.1, routinesVisits_of_readable rs h.2]
    rfl

theorem paramsVisits_of_readable : ∀ params : List Parameter, paramsEvery readable params →
    paramsVisits params = []
  | [], _ => rfl
  | ⟨_, _, none⟩ :: params, h => paramsVisits_of_readable params h
  | ⟨_, _, some value⟩ :: params, h => by
    rw [paramsVisits, Expr.visits_of_readable value h.1, paramsVisits_of_readable params h.2]
    rfl

end

/-- A text without errors, in whose tree no node is met that matters, is compiled to the
code of the tree. -/
theorem compile_of_visits {options : Options} {source : String} {body : List Statement}
    (read : parse source = ⟨body, []⟩) (visits : bodyVisits body = [])
    (strict : options.strict = false) :
    compile options source = .ok ((programCode 0 body).render options.indent) := by
  simp [compile, read, Program.isOk, generate, visits, refusal?, strict, prologue]

/-- What is left of statements without spans, types and groups. -/
def bodyCore (body : List Statement) : List Statement :=
  bodyStrip (bodyRelabel .bare body)

/-- Code for a program of the common part is a program with the same core, and compiling it
gives the code again. -/
theorem compile_reads_back (options : Options) (source : String)
    (ok : (parse source).isOk = true) (height : ∀ s ∈ (parse source).statements, s.height ≤ 100)
    (shared : bodyEvery portable (parse source).statements) (strict : options.strict = false) :
    ∃ code, compile options source = .ok code ∧ (parse code).isOk = true ∧
      bodyCore (parse code).statements = bodyCore (parse source).statements ∧
      compile options code = .ok code := by
  obtain ⟨body, read⟩ : ∃ body, parse source = ⟨body, []⟩ :=
    ⟨_, by rw [← List.isEmpty_iff.mp ok]⟩
  have sound := grammatical_of_parse ok
  rw [read] at height shared sound
  have every := bodyEvery_mono spelled_of_portable body (bodyEvery_and body sound shared)
  have readable := bodyEvery_mono readable_of_spelled body every
  obtain ⟨body', again, alike⟩ := parse_programCode options.indent every height
  have visits' : bodyVisits body' = [] := by
    have same := congrArg bodyVisits alike
    rw [bodyVisits_relabel, bodyVisits_relabel, bodyVisits_regroup,
      bodyVisits_of_readable body readable] at same
    exact List.map_eq_nil_iff.mp same
  have code : programCode 0 body' = programCode 0 body := by
    have same := congrArg (programCode 0) alike
    rwa [programCode_relabel, programCode_relabel, programCode_regroup] at same
  refine ⟨_, compile_of_visits read (bodyVisits_of_readable body readable) strict, ?_, ?_, ?_⟩
  · rw [again]
    rfl
  · rw [again, read, bodyCore, alike, bodyStrip_regroup, bodyCore]
  · rw [compile_of_visits again visits' strict, code]

/-- A comparison that is shifted gets parentheses in code, and the code is read as the same
shift of the same comparison. -/
theorem compile_reads_back_shift :
    ∃ code, compile ⟨2, false⟩ "let t: F = x < y << z; f(- -\"q\");" = .ok code ∧
      (parse code).isOk = true ∧
      bodyCore (parse code).statements =
        [.declare default false "t" none (some (.binary default .shiftLeft
          (.binary default .less (.ident default "x") (.ident default "y"))
          (.ident default "z"))),
         .expression default (.call default (.ident default "f")
          [.unary default .negate (.unary default .negate (.literal default (.string "q")))])] ∧
      compile ⟨2, false⟩ code = .ok code := by
  have tokens : tokenize "let t: F = x < y << z; f(- -\"q\");" =
      [⟨.letWord, "let", ⟨0, 3, 1⟩, none⟩, ⟨.identifier, "t", ⟨4, 5, 1⟩, none⟩,
        ⟨.colon, ":", ⟨5, 6, 1⟩, none⟩, ⟨.identifier, "F", ⟨7, 8, 1⟩, none⟩,
        ⟨.equal, "=", ⟨9, 10, 1⟩, none⟩, ⟨.identifier, "x", ⟨11, 12, 1⟩, none⟩,
        ⟨.less, "<", ⟨13, 14, 1⟩, none⟩, ⟨.identifier, "y", ⟨15, 16, 1⟩, none⟩,
        ⟨.shiftLeft, "<<", ⟨17, 19, 1⟩, none⟩, ⟨.identifier, "z", ⟨20, 21, 1⟩, none⟩,
        ⟨.semicolon, ";", ⟨21, 22, 1⟩, none⟩, ⟨.identifier, "f", ⟨23, 24, 1⟩, none⟩,
        ⟨.leftParen, "(", ⟨24, 25, 1⟩, none⟩, ⟨.minus, "-", ⟨25, 26, 1⟩, none⟩,
        ⟨.minus, "-", ⟨27, 28, 1⟩, none⟩,
        ⟨.string, "\"q\"", ⟨28, 31, 1⟩, some (.string "q")⟩,
        ⟨.rightParen, ")", ⟨31, 32, 1⟩, none⟩, ⟨.semicolon, ";", ⟨32, 33, 1⟩, none⟩,
        endToken ⟨33, 1⟩] := by
    decide +kernel
  have read : parse "let t: F = x < y << z; f(- -\"q\");" =
      ⟨[.declare ⟨0, 22, 1⟩ false "t" (some "F") (some (.binary ⟨11, 21, 1⟩ .shiftLeft
          (.binary ⟨11, 16, 1⟩ .less (.ident ⟨11, 12, 1⟩ "x") (.ident ⟨15, 16, 1⟩ "y"))
          (.ident ⟨20, 21, 1⟩ "z"))),
        .expression ⟨23, 33, 1⟩ (.call ⟨23, 32, 1⟩ (.ident ⟨23, 24, 1⟩ "f")
          [.unary ⟨25, 31, 1⟩ .negate (.unary ⟨27, 31, 1⟩ .negate
            (.literal ⟨28, 31, 1⟩ (.string "q")))])], []⟩ := by
    rw [parse, tokens]
    with_unfolding_all rfl
  obtain ⟨code, compiled, ok, same, again⟩ := compile_reads_back ⟨2, false⟩
    "let t: F = x < y << z; f(- -\"q\");" (by rw [read]; rfl)
    (by rw [read]; simp [Statement.height, Expr.height, argsHeight])
    (by
      rw [read]
      simp [bodyEvery, Statement.Every, Expr.Every, argsEvery, portable, Statement.Portable,
        Expr.Portable, reservedWords])
    rfl
  refine ⟨code, compiled, ok, ?_, again⟩
  rw [same, read]
  rfl

end TwoScript
