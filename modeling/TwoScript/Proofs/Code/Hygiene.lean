import TwoScript.Compile
import TwoScript.Proofs.Code.Temporaries
import TwoScript.Proofs.Parse.SoundStatement

/-!
# Names in generated code

Names of the source, reserved words and temporaries never meet: renaming is injective and
complete, and every selection of a program has a temporary to itself, which is numbered in
the order of the generated text.
-/

namespace TwoScript

open Layout Js

theorem programLower_code (width n : Nat) : ∀ statements : List Statement,
    bodyEvery grammatical statements →
    Lowers [] [] (lowered n (bodySelections statements)) ((programCode n statements).chars width)
  | [], _ => .nil
  | [s], h => by
    simpa [programCode, bodySelections] using Statement.lowers_code .plain 0 n s h.1
  | s :: t :: ss, h => by
    have line : Lowers [] [] []
        (Layout.chars width (if s.isDeclaration then [.text "\n"] else [])) := by
      cases s.isDeclaration with
      | false => exact .nil
      | true => simpa using (.of_walk (by decide) (by decide) : Lowers [] [] [] "\n".toList)
    have first : Lowers [] [] (lowered n s.selections) ((s.code .plain 0 n).chars width) :=
      Statement.lowers_code .plain 0 n s h.1
    have rest := programLower_code width (n + temporaries s.visits) (t :: ss) h.2
    rw [programCode, chars_append, chars_append]
    exact (first.followedBy line).join s.length_selections rest

theorem toList_of_generate {options : Options} {statements : List Statement} {code : String}
    (ok : generate options statements = .ok code) :
    code.toList = (prologue options.strict).toList
      ++ (programCode 0 statements).chars options.indent := by
  unfold generate at ok
  split at ok
  · cases ok
  · rw [← Except.ok.inj ok, String.toList_append, Layout.chars]

/-- Generated code holds one function for every selection. -/
theorem lowerings_generate {options : Options} {statements : List Statement} {code : String}
    (h : bodyEvery grammatical statements) (ok : generate options statements = .ok code) :
    lowerings code = some (lowered 0 (bodySelections statements)) := by
  have strict : Lowers [] [] [] (prologue options.strict).toList := by
    cases options.strict <;> exact .of_walk (by decide) (by decide)
  have whole := strict.append (programLower_code options.indent 0 statements h)
  obtain ⟨word, recent, calm, ran⟩ :=
    whole ' ' [] [] [] [] [] Calm.nil (by simp [Opened]) (.inl rfl)
  obtain ⟨recent', ended⟩ := Tracker.endWord_of_calm calm ⟨[Scanner.floor], none⟩ recent []
    (lowered 0 (bodySelections statements))
  have read : Tracker.start.run code.toList = some ⟨⟨[Scanner.floor], none⟩, word, recent, [],
      lowered 0 (bodySelections statements)⟩ := by
    rw [toList_of_generate ok]
    exact ran
  rw [lowerings, read, Option.bind_some, ended]
  rfl

theorem temporary_inj {m n : Nat} (h : temporary m = temporary n) : m = n := by
  have chars := congrArg String.toList h
  rw [temporary, temporary, String.toList_append, String.toList_append] at chars
  have digits : Nat.toDigits 10 m = Nat.toDigits 10 n := by
    simpa [Nat.toString_eq_ofList_toDigits] using List.append_cancel_left chars
  rw [← digitsValue_toDigits m, digits, digitsValue_toDigits]

/-- Binding every name beforehand changes no code; different words are bound under different
names, none of them reserved or a temporary; and the selections of a program have the
temporaries from the first on, in the order in which they begin in the code, each of them
tested and thrown by its own selection only. -/
theorem renaming_hygienic (options : Options) :
    (∀ p, generate options (bodyRename bindingName p) = generate options p) ∧
    (∀ a b, isWord a = true → isWord b = true → bindingName a = bindingName b → a = b) ∧
    (∀ a, isWord a = true → bindingName a ∉ reservedWords ∧ ∀ n, bindingName a ≠ temporary n) ∧
    (∀ m n, temporary m = temporary n → m = n) ∧
    ∀ source code, compile options source = .ok code →
      lowerings code = some (lowered 0 (bodySelections (parse source).statements)) := by
  refine ⟨generate_rename boundAlike_bindingName options, fun _ _ => bindingName_inj,
    fun a word => ⟨bindingName_not_reserved a, bindingName_ne_temporary word⟩,
    fun _ _ => temporary_inj, fun source code compiled => ?_⟩
  obtain ⟨ok, generated⟩ := compile_eq_ok compiled
  exact lowerings_generate (grammatical_of_parse ok) generated

end TwoScript
