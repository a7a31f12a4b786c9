import TwoScript.Command.Run
import TwoScript.Proofs.Command.Arguments
import TwoScript.Proofs.Command.Files

/-!
# What a run does to the files

A run ends in one of five ways, and only one of them writes: `Settings.Outcome`. What it
writes is what `compile` gives for the text of the input, to the output path and nowhere
else. So the input stays as it is, unless its path is the output path as well.
-/

namespace TwoScript

/-- Whether something about the input is asked for, and no code. -/
def Settings.inspects (s : Settings) : Bool :=
  s.tokens || s.ast || s.check

def Files.Compiles (f : Files) (s : Settings) (code : String) : Prop :=
  ∃ source : String, f.get? s.input = some source.toUTF8 ∧ compile s.options source = .ok code

namespace Settings

/-- Whether what is asked about a text can be told: its tokens always, anything else if the
text has no errors. -/
def Tells (s : Settings) (source : String) : Prop :=
  s.tokens = true ∨ (parse source).errors = []

/-- What the settings can make of a text: a listing, a refusal, or code for the output
path. -/
inductive Planned (s : Settings) (source : String) : Plan → Prop where
  | listing {out : List String} : s.inspects = true → s.Tells source →
      Planned s source (.report (.success out))
  | refusal {out err : List String} : (s.inspects = true → ¬s.Tells source) →
      (s.inspects = false → ∀ code, compile s.options source ≠ .ok code) →
      Planned s source (.report (.failure out err))
  | code {code : String} : s.inspects = false → compile s.options source = .ok code →
      Planned s source (.write s.outputPath code)

theorem planned_plan (s : Settings) (source : String) : s.Planned source (s.plan source) := by
  unfold plan
  simp only
  split
  · rename_i tokens
    exact .listing (by simp [inspects, tokens]) (.inl tokens)
  · rename_i tokens
    split
    · rename_i wrong
      have errors : (parse source).isOk = false := by simpa using wrong
      refine .refusal (fun _ => ?_) (fun _ code compiled => ?_)
      · simpa [Tells, tokens, Program.isOk] using errors
      · simp [(compile_eq_ok compiled).1] at errors
    · rename_i right
      have ok : (parse source).isOk = true := by simpa using right
      have tells : s.Tells source := .inr (by simpa [Program.isOk] using ok)
      split
      · rename_i ast
        exact .listing (by simp [inspects, ast]) tells
      · rename_i ast
        split
        · rename_i check
          exact .listing (by simp [inspects, check]) tells
        · rename_i check
          have none : s.inspects = false := by simp [inspects, tokens, ast, check]
          split
          · rename_i refusal refused
            refine .refusal (by simp [none]) (fun _ code compiled => ?_)
            have generated := (compile_eq_ok compiled).2
            rw [refused] at generated
            cases generated
          · rename_i code generated
            refine .code none ?_
            simp [compile, ok, generated]

inductive Outcome (s : Settings) (f : Files) : Report × Files → Prop where
  | unread {err : List String} : (∀ source : String, f.get? s.input ≠ some source.toUTF8) →
      Outcome s f (.failure [] err, f)
  | listed {source : String} {out : List String} : f.get? s.input = some source.toUTF8 →
      s.inspects = true → s.Tells source → Outcome s f (.success out, f)
  | refused {source : String} {out err : List String} : f.get? s.input = some source.toUTF8 →
      (s.inspects = true → ¬s.Tells source) →
      (s.inspects = false → ∀ code, compile s.options source ≠ .ok code) →
      Outcome s f (.failure out err, f)
  | unwritten {out err : List String} : s.inspects = false → ¬f.Writable s.outputPath →
      Outcome s f (.failure out err, f)
  | written {code : String} {out : List String} {f' : Files} : s.inspects = false →
      f.Compiles s code → f.put? s.outputPath code.toUTF8 = some f' →
      Outcome s f (.success out, f')

/-- A run on files in memory, step by step. -/
theorem run_disk (s : Settings) (f : Files) :
    (s.run Files.disk).run f =
      match f.read s.input with
      | .error e => (s.unread e, f)
      | .ok source =>
        match s.plan source with
        | .report report => (report, f)
        | .write path code =>
          match f.put? path code.toUTF8 with
          | none => (s.unwritten source path .missing, f)
          | some f' => (s.written source path, f') := by
  show Settings.run Files.disk s f = _
  unfold run
  simp only [bind, StateT.bind, Files.disk]
  cases f.read s.input with
  | error e => rfl
  | ok source =>
      dsimp only
      cases s.plan source with
      | report r => rfl
      | write path code =>
          simp only [StateT.bind, Files.write]
          cases f.put? path code.toUTF8 <;> rfl

theorem outcome_run (s : Settings) (f : Files) : s.Outcome f ((s.run Files.disk).run f) := by
  rw [run_disk]
  cases read : f.read s.input with
  | error e =>
      refine .unread fun source found => ?_
      rw [Files.read_eq_ok_iff.mpr found] at read
      cases read
  | ok source =>
      have found := Files.read_eq_ok_iff.mp read
      have planned := s.planned_plan source
      dsimp only
      generalize s.plan source = plan at planned
      cases planned with
      | listing inspects tells => exact .listed found inspects tells
      | refusal inspects code => exact .refused found inspects code
      | @code code inspects compiled =>
          dsimp only
          cases put : f.put? s.outputPath code.toUTF8 with
          | none =>
              refine .unwritten inspects fun writable => ?_
              obtain ⟨f', written⟩ := Files.exists_put?_iff.mpr writable
              rw [put] at written
              cases written
          | some f' => exact .written inspects ⟨source, found, compiled⟩ put

def Writes (s : Settings) (f : Files) (code : String) : Prop :=
  s.inspects = false ∧ f.Writable s.outputPath ∧ f.Compiles s code

variable {s : Settings} {f : Files}

theorem source_unique {path a b : String} (first : f.get? path = some a.toUTF8)
    (second : f.get? path = some b.toUTF8) : a = b :=
  String.toByteArray_inj.mp (Option.some.inj (first.symm.trans second))

theorem Writes.unique {a b : String} (first : s.Writes f a) (second : s.Writes f b) : a = b := by
  obtain ⟨-, -, source, found, compiled⟩ := first
  obtain ⟨-, -, other, found', compiled'⟩ := second
  obtain rfl := source_unique found found'
  exact Except.ok.inj (compiled.symm.trans compiled')

/-- A run either writes its code and is a success, or leaves the files alone. -/
theorem Outcome.writes_or_eq {result : Report × Files} (h : s.Outcome f result) :
    (∃ code, s.Writes f code ∧ f.Updated result.2 s.outputPath code.toUTF8 ∧
      result.1.code = 0) ∨
    (∀ code, ¬s.Writes f code) ∧ result.2 = f ∧ (result.1.code = 0 ↔ s.inspects = true ∧
      ∃ source : String, f.get? s.input = some source.toUTF8 ∧ s.Tells source) := by
  cases h with
  | unread missing =>
      refine .inr ⟨fun code writes => ?_, rfl, iff_of_false Nat.one_ne_zero ?_⟩
      · obtain ⟨-, -, source, found, -⟩ := writes
        exact missing source found
      · rintro ⟨-, source, found, -⟩
        exact missing source found
  | listed found inspects tells =>
      refine .inr ⟨fun code writes => ?_, rfl, ?_⟩
      · rw [writes.1] at inspects
        cases inspects
      · exact iff_of_true rfl ⟨inspects, _, found, tells⟩
  | @refused source _ _ found silent none =>
      refine .inr ⟨fun code writes => ?_, rfl, ?_⟩
      · obtain ⟨inspects, -, other, found', compiled⟩ := writes
        obtain rfl := source_unique found found'
        exact none inspects code compiled
      · refine iff_of_false Nat.one_ne_zero ?_
        rintro ⟨inspects, other, found', tells⟩
        obtain rfl := source_unique found found'
        exact silent inspects tells
  | unwritten inspects blocked =>
      exact .inr ⟨fun code writes => blocked writes.2.1, rfl, by simp [Report.failure, inspects]⟩
  | written inspects compiled put =>
      have writable := Files.exists_put?_iff.mp ⟨_, put⟩
      exact .inl ⟨_, ⟨inspects, writable, compiled⟩, Files.updated_of_put? put, rfl⟩

end Settings

/-! ## Command lines -/

namespace Files

variable {f : Files} {args : List String} {s : Settings}

theorem outcome_execute (f : Files) (h : CommandLine args s) : s.Outcome f (f.execute args) := by
  unfold Files.execute TwoScript.execute
  rw [ofArguments_eq_run_iff.mpr h]
  exact s.outcome_run f

/-- Only a command line touches the files. -/
theorem execute_eq_self (h : ∀ s, ¬CommandLine args s) : (f.execute args).2 = f := by
  unfold Files.execute TwoScript.execute
  cases asked : Request.ofArguments args with
  | run s => exact absurd (ofArguments_eq_run_iff.mp asked) (h s)
  | version | help | misuse => rfl

end Files

/-- A command line writes exactly what its input compiles to, to its output path and nowhere
else, and exits with zero if it does. In every other case the files stay as they are. A
question about the input is answered with zero if it can be: the tokens can be listed
always, anything else if there are no errors. -/
theorem execute_of_commandLine (f : Files) {args : List String} {s : Settings}
    (h : CommandLine args s) :
    (s.inspects = false → f.Writable s.outputPath →
      ((f.execute args).1.code = 0 ↔ ∃ code, f.Compiles s code) ∧
      ∀ code, f.Compiles s code →
        f.Updated (f.execute args).2 s.outputPath code.toUTF8) ∧
    (¬(s.inspects = false ∧ f.Writable s.outputPath ∧ ∃ code, f.Compiles s code) →
      (f.execute args).2 = f) ∧
    (s.inspects = true → ((f.execute args).1.code = 0 ↔
      ∃ source : String, f.get? s.input = some source.toUTF8 ∧
        (s.tokens = true ∨ (parse source).errors = []))) := by
  obtain ⟨code, writes, updated, zero⟩ | ⟨none, same, zero⟩ :=
    (f.outcome_execute h).writes_or_eq
  · refine ⟨fun inspects writable => ⟨iff_of_true zero ⟨code, writes.2.2⟩, ?_⟩, ?_, ?_⟩
    · intro other compiled
      obtain rfl := writes.unique ⟨inspects, writable, compiled⟩
      exact updated
    · exact fun other => absurd ⟨writes.1, writes.2.1, code, writes.2.2⟩ other
    · intro inspects
      rw [writes.1] at inspects
      cases inspects
  · refine ⟨fun inspects writable => ?_, fun _ => same, fun inspects => ?_⟩
    · have fails (code : String) : ¬f.Compiles s code :=
        fun compiled => none code ⟨inspects, writable, compiled⟩
      refine ⟨?_, fun code compiled => absurd compiled (fails code)⟩
      rw [zero, inspects]
      simp [fails]
    · rw [zero]
      simp [inspects, Settings.Tells]

/-- The statement that the files below hold. -/
theorem parse_name : parse "a;" = ⟨[.expression ⟨0, 2, 1⟩ (.ident ⟨0, 1, 1⟩ "a")], []⟩ := by
  with_unfolding_all rfl

/-- Two paths of one directory, of which the second is the output path of the first. -/
def twoFiles : Files :=
  ⟨[("src/a.b", "a;".toUTF8), ("src/a.js", "b;".toUTF8)]⟩

theorem execute_of_commandLine_twoFiles :
    ∃ s, CommandLine ["--strict", "src/../src/a.b", "--indent=0"] s ∧ s.inspects = false ∧
      twoFiles.Writable s.outputPath ∧ twoFiles.Compiles s "\"use strict\";\n\na;\n" ∧
      (twoFiles.execute ["--strict", "src/../src/a.b", "--indent=0"]).1.code = 0 ∧
      twoFiles.Updated (twoFiles.execute ["--strict", "src/../src/a.b", "--indent=0"]).2
        "src/../src/a.js" "\"use strict\";\n\na;\n".toUTF8 := by
  have line : CommandLine ["--strict", "src/../src/a.b", "--indent=0"]
      ⟨"src/../src/a.b", none, false, false, false, ⟨0, true⟩, false⟩ :=
    ofArguments_eq_run_iff.mp rfl
  have writable : twoFiles.Writable "src/../src/a.js" := ⟨"src/a.js", rfl, rfl⟩
  have compiles : twoFiles.Compiles
      ⟨"src/../src/a.b", none, false, false, false, ⟨0, true⟩, false⟩
      "\"use strict\";\n\na;\n" := by
    refine ⟨"a;", rfl, ?_⟩
    rw [compile, parse_name]
    rfl
  obtain ⟨zero, written⟩ := (execute_of_commandLine twoFiles line).1 rfl writable
  exact ⟨_, line, rfl, writable, compiles, zero.mpr ⟨_, compiles⟩, written _ compiles⟩

/-- Without an output path, the input keeps what it holds unless it compiles and its name has
the extension of the output already. In that case the code takes its place. -/
theorem execute_keeps_input (f : Files) (args : List String) :
    ((∀ s, ¬CommandLine args s) → (f.execute args).2 = f) ∧
    ∀ s, CommandLine args s → s.output = none →
      (¬(HasExtension "js".toList (fileName s.input) ∧ ∃ code, s.Writes f code) →
        (f.execute args).2.get? s.input = f.get? s.input) ∧
      ∀ code, HasExtension "js".toList (fileName s.input) → s.Writes f code →
        (f.execute args).2.get? s.input = some code.toUTF8 := by
  refine ⟨Files.execute_eq_self, fun s h unset => ?_⟩
  have path : s.outputPath = withExtension s.input "js" := by
    simp [Settings.outputPath, unset, outputExtension]
  obtain ⟨code, writes, updated, -⟩ | ⟨none, same, -⟩ :=
    (f.outcome_execute h).writes_or_eq
  · refine ⟨fun other => updated.others _ fun leads => ?_, fun other script writes' => ?_⟩
    · -- Paths that lead to one file end in the same name.
      obtain ⟨name, found, -⟩ := writes.2.1
      have names := Files.fileName_of_resolve? found
      rw [Files.fileName_of_resolve? (leads.trans found), path,
        fileName_withExtension (by decide)] at names
      exact other ⟨(replaceExtension_eq_self_iff (by decide)).mp names.symm, code, writes⟩
    · obtain rfl := writes.unique writes'
      have own : s.outputPath = s.input :=
        path.trans ((withExtension_eq_self_iff (by decide)).mpr script)
      exact own ▸ updated.holds
  · exact ⟨fun _ => by rw [same], fun code _ writes => absurd writes (none code)⟩

def oneFile (name : String) : Files :=
  ⟨[(name, "a;".toUTF8)]⟩

theorem compile_name : compile ⟨4, false⟩ "a;" = .ok "a;\n" := by
  rw [compile, parse_name]
  rfl

theorem execute_keeps_input_hidden :
    ∃ s, CommandLine [".js"] s ∧ s.output = none ∧
      (∃ code, s.Writes (oneFile ".js") code) ∧
      ((oneFile ".js").execute [".js"]).2.get? ".js" = some "a;".toUTF8 := by
  have line : CommandLine [".js"] ⟨".js", none, false, false, false, ⟨4, false⟩, false⟩ :=
    ofArguments_eq_run_iff.mp rfl
  have hidden : ¬HasExtension "js".toList (fileName ".js") := by
    rw [← replaceExtension_eq_self_iff (by decide)]
    decide
  have kept := ((execute_keeps_input (oneFile ".js") [".js"]).2 _ line rfl).1
    fun both => hidden both.1
  have holds : (oneFile ".js").get? ".js" = some "a;".toUTF8 := rfl
  have writable : (oneFile ".js").Writable ".js.js" := ⟨".js.js", rfl, rfl⟩
  exact ⟨_, line, rfl, ⟨_, rfl, writable, _, holds, compile_name⟩, kept.trans holds⟩

/-- A file with the extension of the output is overwritten by its own code. -/
theorem execute_overwrites_script :
    ∃ s, CommandLine ["a.js"] s ∧ s.output = none ∧
      (oneFile "a.js").get? s.input = some "a;".toUTF8 ∧
      ((oneFile "a.js").execute ["a.js"]).2.get? s.input = some "a;\n".toUTF8 ∧
      "a;".toUTF8 ≠ "a;\n".toUTF8 := by
  have line : CommandLine ["a.js"] ⟨"a.js", none, false, false, false, ⟨4, false⟩, false⟩ :=
    ofArguments_eq_run_iff.mp rfl
  have holds : (oneFile "a.js").get? "a.js" = some "a;".toUTF8 := rfl
  have writable : (oneFile "a.js").Writable "a.js" := ⟨"a.js", rfl, rfl⟩
  refine ⟨_, line, rfl, holds, ?_, by decide⟩
  obtain ⟨code, writes, updated, -⟩ | ⟨none, -⟩ :=
    ((oneFile "a.js").outcome_execute line).writes_or_eq
  · obtain rfl := writes.unique ⟨rfl, writable, _, holds, compile_name⟩
    exact updated.holds
  · exact absurd ⟨rfl, writable, _, holds, compile_name⟩ (none _)

end TwoScript
