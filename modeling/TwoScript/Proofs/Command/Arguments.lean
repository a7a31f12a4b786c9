import TwoScript.Command.Arguments

/-!
# Command lines

What a list of arguments asks for, said without reading it from the left: the ways to write
each flag and each option, the effects they have, and which effects go together. The
arguments that make a run are exactly the command lines: `ofArguments_eq_run_iff`.
-/

namespace TwoScript

/-! ## Effects -/

inductive Effect where
  | input (path : String)
  | flag (flag : Flag)
  | output (path : String)
  | indent (width : Nat)
deriving DecidableEq, Repr

namespace Effect

def input? : Effect → Option String
  | input path => some path
  | _ => none

def flag? : Effect → Option Flag
  | flag f => some f
  | _ => none

def output? : Effect → Option String
  | output path => some path
  | _ => none

def indent? : Effect → Option Nat
  | indent width => some width
  | _ => none

end Effect

def Settings.has (s : Settings) : Flag → Bool
  | .tokens => s.tokens
  | .ast => s.ast
  | .check => s.check
  | .strict => s.options.strict
  | .verbose => s.verbose

/-- Effects that go together and make these settings: one input file, at most one output file,
at most one width, which is four by default, and no flag twice. -/
structure Makes (effects : List Effect) (s : Settings) : Prop where
  input : effects.filterMap Effect.input? = [s.input]
  output : effects.filterMap Effect.output? = s.output.toList
  indent : effects.filterMap Effect.indent? = [] ∧ s.options.indent = 4 ∨
    effects.filterMap Effect.indent? = [s.options.indent]
  once : (effects.filterMap Effect.flag?).Nodup
  flags : ∀ flag, s.has flag = true ↔ flag ∈ effects.filterMap Effect.flag?

/-! ## Ways to write them -/

def Flag.name : Flag → String
  | tokens => "tokens"
  | ast => "ast"
  | check => "check"
  | strict => "strict"
  | verbose => "verbose"

namespace ValueOption

def name : ValueOption → String
  | output => "output"
  | indent => "indent"

/-- The effect of a value of an option. A path has to be written out, and a width has to be a
number. -/
inductive Takes : ValueOption → String → Effect → Prop where
  | output {path : String} : path ≠ "" → Takes output path (.output path)
  | indent {text : String} {width : Nat} : Draft.width? text = some width →
      Takes indent text (.indent width)

end ValueOption

/-- The dash of a short option, which may be bundled with the flag for more output. -/
def dash (bundled : Bool) : String :=
  if bundled then "-v" else "-"

def bundle (bundled : Bool) : List Effect :=
  if bundled then [.flag .verbose] else []

/-- The ways to write an argument, or an option with its value, and their effects. -/
inductive Written : List String → List Effect → Prop where
  | input {path : String} : path ≠ "" → looksLikeFlag path = false →
      Written [path] [.input path]
  | flag (flag : Flag) : Written ["--" ++ flag.name] [.flag flag]
  | apart {option : ValueOption} {value : String} {effect : Effect} :
      option.Takes value effect → looksLikeFlag value = false →
      Written ["--" ++ option.name, value] [effect]
  | joined {option : ValueOption} {value : String} {effect : Effect} :
      option.Takes value effect → Written ["--" ++ option.name ++ "=" ++ value] [effect]
  | verbose : Written ["-v"] [.flag .verbose]
  | shortApart (bundled : Bool) {path : String} : path ≠ "" → looksLikeFlag path = false →
      Written [dash bundled ++ "o", path] (bundle bundled ++ [Effect.output path])
  | shortJoined (bundled : Bool) {path : String} : path ≠ "" → path.toList.head? ≠ some '=' →
      Written [dash bundled ++ "o" ++ path] (bundle bundled ++ [Effect.output path])
  | shortEqual (bundled : Bool) {path : String} : path ≠ "" →
      Written [dash bundled ++ "o=" ++ path] (bundle bundled ++ [Effect.output path])

/-- Arguments in any order, with their effects. Behind two dashes alone every argument is an
input file. -/
inductive Arranged : List String → List Effect → Prop where
  | nil : Arranged [] []
  | files {paths : List String} : (∀ path ∈ paths, path ≠ "") →
      Arranged ("--" :: paths) (paths.map .input)
  | append {words args : List String} {effects more : List Effect} : Written words effects →
      Arranged args more → Arranged (words ++ args) (effects ++ more)

def CommandLine (args : List String) (s : Settings) : Prop :=
  ∃ effects, Arranged args effects ∧ Makes effects s

/-! ## Adding effects to a draft -/

namespace Draft

def add (d : Draft) : Effect → Option Draft
  | .input path => if d.input.isSome then none else some { d with input := some path }
  | .flag flag => d.setFlag flag
  | .output path => if d.output.isSome then none else some { d with output := some path }
  | .indent width => if d.indent.isSome then none else some { d with indent := some width }

def addAll (d : Draft) : List Effect → Option Draft
  | [] => some d
  | effect :: effects => (d.add effect).bind (·.addAll effects)

theorem addAll_append (d : Draft) (effects more : List Effect) :
    d.addAll (effects ++ more) = (d.addAll effects).bind (·.addAll more) := by
  induction effects generalizing d with
  | nil => rfl
  | cons effect effects ih =>
      rw [List.cons_append, addAll, addAll, Option.bind_assoc]
      exact congrArg _ (funext ih)

/-- What has been read is what these effects say. -/
structure Holds (d : Draft) (effects : List Effect) : Prop where
  input : effects.filterMap Effect.input? = d.input.toList
  output : effects.filterMap Effect.output? = d.output.toList
  indent : effects.filterMap Effect.indent? = d.indent.toList
  once : (effects.filterMap Effect.flag?).Nodup
  flags : ∀ flag, flag ∈ d.flags ↔ flag ∈ effects.filterMap Effect.flag?

theorem holds_empty : Holds {} [] :=
  ⟨rfl, rfl, rfl, List.nodup_nil, fun _ => Iff.rfl⟩

theorem filterMap_concat {α β : Type} (f : α → Option β) (as : List α) (a : α) :
    (as ++ [a]).filterMap f = as.filterMap f ++ (f a).toList := by
  cases found : f a <;> simp [found]

theorem Holds.add {d d' : Draft} {effects : List Effect} {effect : Effect}
    (h : d.Holds effects) (added : d.add effect = some d') : d'.Holds (effects ++ [effect]) := by
  obtain ⟨input, output, indent, once, flags⟩ := h
  cases effect with
  | input path | output path | indent width =>
      simp only [Draft.add] at added
      split at added
      · cases added
      · rename_i free
        rw [Option.not_isSome_iff_eq_none] at free
        cases added
        constructor <;> simp only [filterMap_concat, input, output, indent, flags, free] <;>
          simp [Effect.input?, Effect.output?, Effect.indent?, Effect.flag?, once]
  | flag flag =>
      simp only [Draft.add, setFlag] at added
      split at added
      · cases added
      · rename_i fresh
        rw [List.contains_iff_mem, flags] at fresh
        cases added
        constructor <;> simp only [filterMap_concat, input, output, indent]
        · simp [Effect.input?]
        · simp [Effect.output?]
        · simp [Effect.indent?]
        · rw [List.nodup_append]
          refine ⟨once, by simp [Effect.flag?], fun a member b last same => ?_⟩
          simp only [Effect.flag?, Option.toList_some, List.mem_singleton] at last
          rw [same, last] at member
          exact fresh member
        · simp [Effect.flag?, flags, or_comm]

theorem Holds.addAll {d d' : Draft} {effects more : List Effect} (h : d.Holds effects)
    (added : d.addAll more = some d') : d'.Holds (effects ++ more) := by
  induction more generalizing d effects with
  | nil =>
      cases added
      simpa using h
  | cons effect more ih =>
      obtain ⟨d₁, first, rest⟩ := Option.bind_eq_some_iff.mp added
      simpa using ih (h.add first) rest

/-- An effect is added unless it is there already. -/
theorem Holds.exists_add {d : Draft} {effects more : List Effect} {effect : Effect}
    {s : Settings} (h : d.Holds effects) (made : Makes (effects ++ effect :: more) s) :
    ∃ d', d.add effect = some d' := by
  obtain ⟨input, output, indent, once, flags⟩ := h
  cases effect with
  | input path =>
      have single := made.input
      rw [List.filterMap_append, input] at single
      cases free : d.input with
      | none => simp [Draft.add, free]
      | some given => simp [free, Effect.input?] at single
  | output path =>
      have single := made.output
      rw [List.filterMap_append, output] at single
      cases free : d.output with
      | none => simp [Draft.add, free]
      | some given => cases asked : s.output <;> simp [free, asked, Effect.output?] at single
  | indent width =>
      have single := made.indent
      rw [List.filterMap_append, indent] at single
      cases free : d.indent with
      | none => simp [Draft.add, free]
      | some given => simp [free, Effect.indent?] at single
  | flag flag =>
      have single := made.once
      rw [List.filterMap_append, List.nodup_append] at single
      have fresh : flag ∉ d.flags := by
        rw [flags]
        exact fun member => single.2.2 flag member flag (by simp [Effect.flag?]) rfl
      exact ⟨{ d with flags := flag :: d.flags }, by simp [Draft.add, setFlag, fresh]⟩

theorem Holds.exists_addAll {d : Draft} {effects more : List Effect} {s : Settings}
    (h : d.Holds effects) (made : Makes (effects ++ more) s) :
    ∃ d', d.addAll more = some d' := by
  induction more generalizing d effects with
  | nil => exact ⟨d, rfl⟩
  | cons effect more ih =>
      obtain ⟨d₁, first⟩ := h.exists_add made
      obtain ⟨d', rest⟩ := ih (h.add first) (by simpa using made)
      exact ⟨d', by rw [Draft.addAll, first]; exact rest⟩

/-- A draft is complete if its effects settle everything. -/
theorem Holds.request_eq_run_iff {d : Draft} {effects : List Effect} {s : Settings}
    (h : d.Holds effects) : d.request = .run s ↔ Makes effects s := by
  obtain ⟨input, output, indent, once, flags⟩ := h
  constructor
  · intro run
    unfold Draft.request at run
    split at run
    · cases run
    · rename_i path given
      cases run
      refine ⟨by rw [input, given]; rfl, output, ?_, once, fun flag => ?_⟩
      · rw [indent]
        cases d.indent <;> simp
      · rw [← flags]
        cases flag <;> simp [Settings.has]
  · intro made
    have given : d.input = some s.input := by
      have single := made.input
      rw [input] at single
      cases found : d.input <;> simp_all
    have written : d.output = s.output := by
      have same := made.output
      rw [output] at same
      cases found : d.output <;> cases asked : s.output <;> simp_all
    have width : d.indent.getD 4 = s.options.indent := by
      have same := made.indent
      rw [indent] at same
      cases found : d.indent <;> simp_all
    have set (flag : Flag) : d.flags.contains flag = s.has flag := by
      rw [Bool.eq_iff_iff, List.contains_iff_mem, flags, made.flags]
    simp only [Draft.request, given, written, width, set]
    rfl

end Draft

/-! ## Reading what was written -/

def resumeArguments (d : Option Draft) (args : List String) : Request :=
  match d with
  | some d => readArguments d args
  | none => .misuse

section

variable {d d' : Draft} {arg value path : String} {args : List String} {option : ValueOption}

theorem readArguments_of_draft {o : Option Draft} (h : readArgument d arg = .ofDraft? o) :
    readArguments d (arg :: args) = resumeArguments o args := by
  rw [readArguments, h]
  cases o <;> rfl

theorem readArguments_of_wants (h : readArgument d arg = .wants option d')
    (plain : looksLikeFlag value = false) :
    readArguments d (arg :: value :: args) = resumeArguments (d'.setValue value option) args := by
  rw [readArguments, h]
  simp only [plain]
  cases d'.setValue value option <;> rfl

theorem setValue_of_takes {effect : Effect} (h : option.Takes value effect) :
    d.setValue value option = d.add effect := by
  cases h with
  | output written => simp [Draft.setValue, Draft.add, written]
  | indent number => simp [Draft.setValue, Draft.add, number]

theorem setInput_of_written (written : path ≠ "") : d.setInput path = d.add (.input path) := by
  simp [Draft.setInput, Draft.add, written]

theorem readArguments_of_ends {request : Request} (h : readArgument d arg = .ends request) :
    readArguments d (arg :: args) = request := by
  rw [readArguments, h]

theorem readArgument_flag (flag : Flag) :
    readArgument d ("--" ++ flag.name) = .ofDraft? (d.setFlag flag) := by
  cases flag <;> rfl

theorem readArgument_option : readArgument d ("--" ++ option.name) = .wants option d := by
  cases option <;> rfl

theorem readArgument_joined :
    readArgument d ("--" ++ option.name ++ "=" ++ value) = .ofDraft? (d.setValue value option) := by
  have chars : ("--" ++ option.name ++ "=" ++ value).toList =
      '-' :: '-' :: (option.name.toList ++ '=' :: value.toList) := by
    simp [String.toList_append]
  rw [readArgument, chars]
  cases option
  · show Reading.ofDraft? (d.setValue (String.ofList value.toList) .output) = _
    rw [String.ofList_toList]
  · show Reading.ofDraft? (d.setValue (String.ofList value.toList) .indent) = _
    rw [String.ofList_toList]

theorem readArgument_input (written : path ≠ "") (plain : looksLikeFlag path = false) :
    readArgument d path = .ofDraft? (d.add (.input path)) := by
  unfold readArgument
  rw [← setInput_of_written written]
  unfold looksLikeFlag at plain
  split <;> simp_all

/-- What is bundled with a short option is read first. -/
theorem readArgument_short (bundled : Bool) (rest : String) :
    readArgument d (dash bundled ++ "o" ++ rest) =
      match d.addAll (bundle bundled) with
      | some d' => readShort d' ('o' :: rest.toList)
      | none => .ends .misuse := by
  have chars : (dash bundled ++ "o" ++ rest).toList =
      '-' :: ((if bundled then ['v'] else []) ++ 'o' :: rest.toList) := by
    cases bundled <;> simp [dash, String.toList_append]
  rw [readArgument, chars]
  cases bundled
  · rfl
  · have added : d.addAll (bundle true) = d.setFlag .verbose := by
      simp [bundle, Draft.addAll, Draft.add]
    rw [added]
    rfl

theorem readShort_joined (written : path ≠ "") (other : path.toList.head? ≠ some '=') :
    readShort d ('o' :: path.toList) = .ofDraft? (d.setValue path .output) := by
  have same : String.ofList path.toList = path := String.ofList_toList
  cases chars : path.toList with
  | nil => exact absurd (String.toList_eq_nil_iff.mp chars) written
  | cons c cs =>
      rw [chars] at other same
      rw [readShort, same]
      · simp
      · intro value equal
        rw [equal] at other
        exact other rfl

theorem readShort_equal : readShort d ('o' :: '=' :: path.toList) =
    .ofDraft? (d.setValue path .output) := by
  rw [readShort, String.ofList_toList]

/-- A short option is read together with what is bundled with it. -/
theorem readArguments_bundled {bundled : Bool} {rest : String} {tail : List String}
    (written : path ≠ "")
    (read : ∀ d', readArgument d arg = readShort d' ('o' :: rest.toList) →
      readArguments d (arg :: tail) = resumeArguments (d'.setValue path .output) args)
    (short : arg = dash bundled ++ "o" ++ rest) :
    readArguments d (arg :: tail) =
      resumeArguments (d.addAll (bundle bundled ++ [Effect.output path])) args := by
  have first := readArgument_short (d := d) bundled rest
  rw [← short] at first
  rw [Draft.addAll_append]
  cases added : d.addAll (bundle bundled) with
  | none =>
      rw [added] at first
      exact readArguments_of_ends first
  | some d' =>
      rw [added] at first
      rw [read d' first, setValue_of_takes (.output written)]
      simp [Draft.addAll]

/-- Written arguments add their effects. -/
theorem readArguments_written {words : List String} {effects : List Effect}
    (h : Written words effects) :
    readArguments d (words ++ args) = resumeArguments (d.addAll effects) args := by
  have single (effect : Effect) : d.addAll [effect] = d.add effect := by
    simp [Draft.addAll]
  cases h with
  | input written plain =>
      rw [single]
      exact readArguments_of_draft (readArgument_input written plain)
  | flag flag =>
      rw [single]
      exact readArguments_of_draft (readArgument_flag flag)
  | apart takes plain =>
      rw [single, ← setValue_of_takes takes]
      exact readArguments_of_wants readArgument_option plain
  | joined takes =>
      rw [single, ← setValue_of_takes takes]
      exact readArguments_of_draft readArgument_joined
  | verbose =>
      rw [single]
      refine readArguments_of_draft ?_
      show (match d.setFlag .verbose with
        | some d => readShort d []
        | none => Reading.ends .misuse) = _
      simp only [Draft.add]
      cases d.setFlag .verbose <;> rfl
  | shortApart bundled written plain =>
      refine readArguments_bundled written (fun d' short => ?_) String.append_empty.symm
      exact readArguments_of_wants short plain
  | shortJoined bundled written other =>
      refine readArguments_bundled written (fun d' short => readArguments_of_draft ?_) rfl
      rw [short, readShort_joined written other]
  | @shortEqual bundled path written =>
      have chars : dash bundled ++ "o=" ++ path = dash bundled ++ "o" ++ ("=" ++ path) := by
        simp [← String.toList_inj]
      refine readArguments_bundled written (fun d' short => readArguments_of_draft ?_) chars
      rw [short, String.toList_append]
      exact readShort_equal

theorem readFiles_eq {paths : List String} (written : ∀ path ∈ paths, path ≠ "") :
    readFiles d paths = resumeArguments (d.addAll (paths.map .input)) [] := by
  induction paths generalizing d with
  | nil => rfl
  | cons path paths ih =>
      obtain ⟨first, rest⟩ := List.forall_mem_cons.mp written
      rw [readFiles, setInput_of_written first, List.map_cons, Draft.addAll]
      cases d.add (.input path) with
      | none => rfl
      | some d' => exact ih rest

/-- Arranged arguments ask for what their effects make together. -/
theorem readArguments_arranged {effects : List Effect} (h : Arranged args effects) :
    readArguments d args = resumeArguments (d.addAll effects) [] := by
  induction h generalizing d with
  | nil => rfl
  | files written => exact readFiles_eq written
  | append first _ ih =>
      rw [readArguments_written first, Draft.addAll_append]
      cases d.addAll _ with
      | none => rfl
      | some d' => exact ih

/-! ## Nothing else is read -/

theorem takes_of_setValue (h : d.setValue value option = some d') :
    ∃ effect, option.Takes value effect := by
  cases option with
  | output =>
      refine ⟨.output value, .output ?_⟩
      rintro rfl
      simp [Draft.setValue] at h
  | indent =>
      cases number : Draft.width? value with
      | none => simp [Draft.setValue, number] at h
      | some width => exact ⟨.indent width, .indent number⟩

theorem written_of_setInput (h : d.setInput path = some d') : path ≠ "" := by
  rintro rfl
  simp [Draft.setInput] at h

theorem longFlag?_eq_some {name : String} {flag : Flag} (h : longFlag? name = some flag) :
    name = flag.name := by
  unfold longFlag? at h
  split at h <;> cases h <;> rfl

theorem longOption?_eq_some {name : String} (h : longOption? name = some option) :
    name = option.name := by
  unfold longOption? at h
  split at h <;> cases h <;> rfl

def Explained (arg : String) : Reading → Prop
  | .ends request => ∀ s, request ≠ .run s
  | .goesOn _ => ∃ effects, Written [arg] effects
  | .wants option _ => ∃ effects, ∀ value effect, option.Takes value effect →
      looksLikeFlag value = false → Written [arg, value] (effects ++ [effect])
  | .endsFlags => arg = "--"

theorem explained_misuse : Explained arg (.ends .misuse) :=
  fun _ => Request.noConfusion

theorem explained_ofDraft {o : Option Draft}
    (h : ∀ d', o = some d' → ∃ effects, Written [arg] effects) :
    Explained arg (.ofDraft? o) := by
  cases o with
  | none => exact explained_misuse
  | some d' => exact h d' rfl

theorem explained_value (effects : List Effect)
    (h : ∀ effect, option.Takes value effect → Written [arg] (effects ++ [effect])) :
    Explained arg (.ofDraft? (d.setValue value option)) := by
  refine explained_ofDraft fun d' set => ?_
  obtain ⟨effect, takes⟩ := takes_of_setValue set
  exact ⟨_, h effect takes⟩

theorem explained_readLong {cs : List Char} (chars : arg.toList = '-' :: '-' :: cs) :
    Explained arg (readLong d cs) := by
  have split := List.takeWhile_append_dropWhile (p := (· != '=')) (l := cs)
  unfold readLong
  simp only
  split
  · rename_i none
    rw [none, List.append_nil] at split
    have whole : arg = "--" ++ String.ofList (cs.takeWhile (· != '=')) := by
      rw [split, ← String.toList_inj, chars]
      simp
    split
    · simp [Explained]
    · split
      · simp [Explained]
      · split
        · rename_i flag found
          refine explained_ofDraft fun _ _ => ⟨[.flag flag], ?_⟩
          rw [whole, longFlag?_eq_some found]
          exact .flag flag
        · rename_i option _ found
          refine ⟨[], fun value effect takes plain => ?_⟩
          rw [whole, longOption?_eq_some found]
          exact .apart takes plain
        · simp [Explained]
  · rename_i c value rest
    have equals : c = '=' := by
      have stopped := List.head?_dropWhile_not (· != '=') cs
      rw [rest] at stopped
      simpa using stopped
    rw [rest, equals] at split
    have whole : arg = "--" ++ String.ofList (cs.takeWhile (· != '=')) ++ "=" ++
        String.ofList value := by
      rw [← String.toList_inj, chars]
      simp [split]
    split
    · rename_i option found
      refine explained_value [] fun effect takes => ?_
      rw [whole, longOption?_eq_some found]
      exact .joined takes
    · simp [Explained]

/-- The value of a short option that gives an output file. -/
theorem explained_output (bundled : Bool)
    (h : value ≠ "" → Written [arg] (bundle bundled ++ [Effect.output value])) :
    Explained arg (.ofDraft? (d.setValue value .output)) := by
  refine explained_value (bundle bundled) fun effect takes => ?_
  cases takes with
  | output written => exact h written

theorem explained_readShort_output (bundled : Bool) {cs : List Char}
    (chars : arg.toList = (dash bundled).toList ++ 'o' :: cs) :
    Explained arg (readShort d ('o' :: cs)) := by
  cases cs with
  | nil =>
      refine ⟨bundle bundled, fun path effect takes plain => ?_⟩
      have whole : arg = dash bundled ++ "o" := by
        rw [← String.toList_inj, chars]
        simp
      cases takes with
      | output written => exact whole ▸ .shortApart bundled written plain
  | cons c cs =>
      by_cases equals : c = '='
      · have whole : arg = dash bundled ++ "o=" ++ String.ofList cs := by
          rw [← String.toList_inj, chars, equals]
          simp
        have read : readShort d ('o' :: c :: cs) =
            .ofDraft? (d.setValue (String.ofList cs) .output) := by
          rw [← readShort_equal, String.toList_ofList, equals]
        rw [read]
        exact explained_output bundled fun written => whole ▸ .shortEqual bundled written
      · have whole : arg = dash bundled ++ "o" ++ String.ofList (c :: cs) := by
          rw [← String.toList_inj, chars]
          simp
        have other : (String.ofList (c :: cs)).toList.head? ≠ some '=' := by
          simpa using equals
        have written : String.ofList (c :: cs) ≠ "" := by
          simp [← String.toList_inj]
        have read : readShort d ('o' :: c :: cs) =
            .ofDraft? (d.setValue (String.ofList (c :: cs)) .output) := by
          rw [← readShort_joined written other, String.toList_ofList]
        rw [read]
        exact explained_output bundled fun written => whole ▸ .shortJoined bundled written other

/-- A flag that is set already is refused. -/
theorem setFlag_setFlag {flag : Flag} (h : d.setFlag flag = some d') : d'.setFlag flag = none := by
  unfold Draft.setFlag at h
  split at h
  · cases h
  · cases h
    simp [Draft.setFlag]

/-- Other letters ask for help or for the version, or for nothing known. -/
theorem explained_readShort_other {c : Char} {cs : List Char} (verbose : c ≠ 'v')
    (output : c ≠ 'o') : Explained arg (readShort d (c :: cs)) := by
  unfold readShort
  split <;> simp_all [Explained]

theorem explained_readShort {c : Char} {cs : List Char} (chars : arg.toList = '-' :: c :: cs) :
    Explained arg (readShort d (c :: cs)) := by
  by_cases verbose : c = 'v'
  · subst verbose
    show Explained arg (match d.setFlag .verbose with
      | some d => readShort d cs
      | none => .ends .misuse)
    cases set : d.setFlag .verbose with
    | none => exact explained_misuse
    | some d' =>
        -- The flag cannot be bundled with itself, so only an output file can follow it.
        cases cs with
        | nil =>
            obtain rfl : arg = "-v" := String.toList_inj.mp chars
            exact ⟨_, .verbose⟩
        | cons e es =>
            by_cases again : e = 'v'
            · subst again
              show Explained arg (readShort d' ('v' :: es))
              rw [readShort, setFlag_setFlag set]
              exact explained_misuse
            · by_cases output : e = 'o'
              · subst output
                exact explained_readShort_output true chars
              · exact explained_readShort_other again output
  · by_cases output : c = 'o'
    · subst output
      exact explained_readShort_output false chars
    · exact explained_readShort_other verbose output

theorem explained_readArgument (d : Draft) (arg : String) : Explained arg (readArgument d arg) := by
  unfold readArgument
  split
  · rename_i chars
    exact String.toList_inj.mp chars
  · rename_i chars
    exact explained_readLong chars
  · rename_i c cs _ chars
    exact explained_readShort chars
  · rename_i two long short
    refine explained_ofDraft fun d' set => ⟨[.input arg], .input (written_of_setInput set) ?_⟩
    unfold looksLikeFlag
    split
    · rename_i c cs chars
      exact (short c cs chars).elim
    · rfl

theorem explained_of_readArgument {reading : Reading} (read : readArgument d arg = reading) :
    Explained arg reading :=
  read ▸ explained_readArgument d arg

theorem written_of_readFiles {paths : List String} {s : Settings}
    (run : readFiles d paths = .run s) : ∀ path ∈ paths, path ≠ "" := by
  induction paths generalizing d with
  | nil => simp
  | cons path paths ih =>
      rw [readFiles] at run
      split at run
      · rename_i d' set
        exact List.forall_mem_cons.mpr ⟨written_of_setInput set, ih run⟩
      · cases run

/-- Arguments that make a run are arranged in the ways above. -/
theorem arranged_of_run {s : Settings} (run : readArguments d args = .run s) :
    ∃ effects, Arranged args effects := by
  fun_induction readArguments d args with
  | case1 d => exact ⟨[], .nil⟩
  | case2 d arg args request read =>
      exact (explained_of_readArgument read s run).elim
  | case3 d arg args d' read ih =>
      obtain ⟨effects, written⟩ := explained_of_readArgument read
      obtain ⟨more, rest⟩ := ih run
      exact ⟨_, .append written rest⟩
  | case4 d arg args read =>
      obtain rfl : arg = "--" := explained_of_readArgument read
      exact ⟨_, .files (written_of_readFiles run)⟩
  | case5 | case6 | case8 => cases run
  | case7 d arg option d' read value args plain d'' set ih =>
      obtain ⟨effects, written⟩ := explained_of_readArgument read
      obtain ⟨effect, takes⟩ := takes_of_setValue set
      obtain ⟨more, rest⟩ := ih run
      exact ⟨_, .append (written value effect takes (by simpa using plain)) rest⟩

/-- The arguments that make a run are exactly the command lines. -/
theorem ofArguments_eq_run_iff {s : Settings} :
    Request.ofArguments args = .run s ↔ CommandLine args s := by
  constructor
  · intro run
    obtain ⟨effects, arranged⟩ := arranged_of_run run
    rw [Request.ofArguments, readArguments_arranged arranged] at run
    cases added : Draft.addAll {} effects with
    | none =>
        rw [added] at run
        cases run
    | some d =>
        rw [added] at run
        have holds : d.Holds effects := Draft.holds_empty.addAll added
        exact ⟨effects, arranged, holds.request_eq_run_iff.mp run⟩
  · rintro ⟨effects, arranged, made⟩
    obtain ⟨d, added⟩ := Draft.holds_empty.exists_addAll made
    have holds : d.Holds effects := Draft.holds_empty.addAll added
    rw [Request.ofArguments, readArguments_arranged arranged, added]
    exact holds.request_eq_run_iff.mpr made

end

end TwoScript
