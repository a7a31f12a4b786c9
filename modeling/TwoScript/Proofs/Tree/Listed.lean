import TwoScript.Proofs.Number.RoundTrip
import TwoScript.Proofs.Parse.WellFormed
import TwoScript.Proofs.Tree.Listing
import TwoScript.Proofs.Tree.Relabel

/-!
# Listings of trees that were read

Names, types, numbers and operators of a tree that was read are written as the words and
operators that a listing is made of, so the item of the tree is valid: `Statement.valid_item`.
A number is written with its digits, behind its sign, and can be told from a name unless it is
infinite.
-/

namespace TwoScript

/-! ## Words of a listing -/

theorem isSolid_of_isWordPart {c : Char} (h : isWordPart c = true) :
    isSolid c = true ∧ c ≠ '=' := by
  have ne : ∀ d, isWordPart d = false → c ≠ d := by
    rintro d other rfl
    rw [h] at other
    cases other
  have space := ne ' ' (by decide)
  have opens := ne '(' (by decide)
  have closes := ne ')' (by decide)
  have quote := ne '"' (by decide)
  exact ⟨by simp [isSolid, space, opens, closes, quote], ne '=' (by decide)⟩

theorem IsListedWord.of_isWord {w : String} (h : isWord w = true) : IsListedWord w where
  solid c member := (isSolid_of_isWordPart (isWordPart_of_mem h member)).1
  unequal member := (isSolid_of_isWordPart (isWordPart_of_mem h member)).2 rfl
  part := by
    cases chars : w.toList with
    | nil => simp [isWord, chars] at h
    | cons c cs => exact ⟨c, by simp, isWordPart_of_mem h (by simp [chars])⟩

theorem IsListedWord.typed {name type : String} (h : isWord name = true)
    (h' : isWord type = true) : IsListedWord (name ++ (":" ++ type)) := by
  obtain ⟨solid, unequal, c, member, part⟩ := IsListedWord.of_isWord h
  obtain ⟨solid', unequal', _⟩ := IsListedWord.of_isWord h'
  have chars : (name ++ (":" ++ type)).toList = name.toList ++ ':' :: type.toList := by simp
  refine ⟨fun c member => ?_, ?_, c, ?_, part⟩
  · rw [chars, List.mem_append, List.mem_cons] at member
    rcases member with inside | rfl | inside
    · exact solid c inside
    · rfl
    · exact solid' c inside
  · rw [chars]
    simp [unequal, unequal']
  · rw [chars]
    exact List.mem_append_left _ member

/-! ## Numbers -/

namespace Number

/-- A number that was read from digits, or the opposite of one. -/
def Listed (x : Number) : Prop :=
  x.Written ∨ ∃ y : Number, y.Written ∧ x = y.negate

def signed (negative : Bool) (x : Number) : Number :=
  if negative then x.negate else x

/-- A number is written with digits, behind its sign, unless it is infinite. -/
theorem Listed.text_cases {x : Number} (h : x.Listed) :
    (∃ negative, x = infinite negative) ∨ ∃ negative ws fs,
      x = signed negative (ofDigits ws fs) ∧
      x.text.toList = (if negative then ['-'] else []) ++ (ws ++ pointed fs) ∧ ws ≠ [] ∧
      (∀ c ∈ ws, isDigit c = true) ∧ ∀ c ∈ fs, isDigit c = true := by
  rcases h with ⟨whole, fraction, rfl⟩ | ⟨_, ⟨whole, fraction, rfl⟩, rfl⟩
  · by_cases infinity : ofDigits whole fraction = infinite false
    · exact .inl ⟨false, infinity⟩
    · obtain ⟨ws, fs, text, some, left, right, value⟩ :=
        textWith_digits "inf" whole fraction infinity
      exact .inr ⟨false, ws, fs, value.symm, text, some, left, right⟩
  · rcases ofDigits_finite whole fraction with infinity | ⟨m, e, finite, _⟩
    · exact .inl ⟨true, by rw [infinity]; rfl⟩
    · obtain ⟨ws, fs, text, some, left, right, value⟩ :=
        textWith_digits "inf" whole fraction (by rw [finite]; simp)
      refine .inr ⟨true, ws, fs, by rw [value]; rfl, ?_, some, left, right⟩
      rw [← text, finite]
      simp [negate, Number.text, textWith]

theorem not_mem_digits {ws fs : List Char} {c : Char} (left : ∀ c ∈ ws, isDigit c = true)
    (right : ∀ c ∈ fs, isDigit c = true) (other : isDigit c = false) (point : c ≠ '.') :
    c ∉ ws ++ pointed fs := by
  intro member
  have digit : isDigit c = true := by
    rcases List.mem_append.mp member with whole | fraction
    · exact left c whole
    · unfold pointed at fraction
      split at fraction
      · cases fraction
      · exact right c ((List.mem_cons.mp fraction).resolve_left point)
  rw [digit] at other
  cases other

/-- The sign and the digits of a number can be read from its text. -/
theorem digits_cancel {negative negative' : Bool} {ws vs fs gs : List Char}
    (left : ∀ c ∈ ws, isDigit c = true) (right : ∀ c ∈ fs, isDigit c = true)
    (left' : ∀ c ∈ vs, isDigit c = true) (right' : ∀ c ∈ gs, isDigit c = true)
    (same : (if negative then ['-'] else []) ++ (ws ++ pointed fs) =
      (if negative' then ['-'] else []) ++ (vs ++ pointed gs)) :
    negative = negative' ∧ ws = vs ∧ fs = gs := by
  have sign := not_mem_digits left right (c := '-') (by decide) (by decide)
  have sign' := not_mem_digits left' right' (c := '-') (by decide) (by decide)
  have signs : negative = negative' := by
    cases negative <;> cases negative'
    · rfl
    · exact (sign (by rw [show ws ++ pointed fs = _ from same]; simp)).elim
    · exact (sign' (by rw [show vs ++ pointed gs = _ from same.symm]; simp)).elim
    · rfl
  subst signs
  have digits := List.append_cancel_left same
  have whole := whole_unique left left' digits
  rw [whole] at digits
  have fraction := List.append_cancel_left digits
  unfold pointed at fraction
  refine ⟨rfl, whole, ?_⟩
  split at fraction <;> split at fraction <;> simp_all

theorem text_infinite (negative : Bool) :
    (infinite negative).text = if negative then "-inf" else "inf" := by
  cases negative <;> rfl

theorem letter_mem_text_infinite (negative : Bool) : 'i' ∈ (infinite negative).text.toList := by
  cases negative <;> decide

/-- Numbers that are written alike are the same. -/
theorem Listed.text_injective {x y : Number} (h : x.Listed) (h' : y.Listed)
    (same : x.text = y.text) : x = y := by
  rcases h.text_cases with ⟨n, rfl⟩ | ⟨n, ws, fs, rfl, text, _, left, right⟩
  · rcases h'.text_cases with ⟨n', rfl⟩ | ⟨n', vs, gs, rfl, text', _, left', right'⟩
    · rw [text_infinite, text_infinite] at same
      cases n <;> cases n' <;> simp at same ⊢
    · have letter := letter_mem_text_infinite n
      rw [same, text'] at letter
      have none := not_mem_digits left' right' (c := 'i') (by decide) (by decide)
      cases n' <;> simp [none] at letter
  · rcases h'.text_cases with ⟨n', rfl⟩ | ⟨n', vs, gs, rfl, text', _, left', right'⟩
    · have letter := letter_mem_text_infinite n'
      rw [← same, text] at letter
      have none := not_mem_digits left right (c := 'i') (by decide) (by decide)
      cases n <;> simp [none] at letter
    · rw [same, text'] at text
      obtain ⟨rfl, rfl, rfl⟩ := digits_cancel left' right' left right text
      rfl

/-- The text of a number is a word only if it is infinite. -/
theorem Listed.infinite_of_isWord {x : Number} (h : x.Listed) (word : isWord x.text = true) :
    x = infinite false := by
  rcases h.text_cases with ⟨n, rfl⟩ | ⟨n, ws, fs, rfl, text, some, left, _⟩
  · cases n
    · rfl
    · cases word
  · obtain ⟨d, ds, rfl⟩ := List.exists_cons_of_ne_nil some
    rw [isWord, text] at word
    cases n
    · have start : isWordStart d = true := by
        simp only [Bool.false_eq_true, if_false, List.nil_append, List.cons_append,
          Bool.and_eq_true] at word
        exact word.1
      have digit := isDigit_of_isWordStart start
      rw [left d (by simp)] at digit
      cases digit
    · have dash : isWordStart '-' = false := by decide
      simp [dash] at word

theorem Listed.text_ne {x : Number} (h : x.Listed) {w : String} (word : isWord w = true)
    (other : w ≠ "inf") : x.text ≠ w := by
  rintro rfl
  rw [h.infinite_of_isWord word] at other
  exact other rfl

/-- The text of a number is a word of a listing. -/
theorem Listed.isListedWord {x : Number} (h : x.Listed) : IsListedWord x.text := by
  rcases h.text_cases with ⟨n, rfl⟩ | ⟨n, ws, fs, rfl, text, some, left, right⟩
  · rw [text_infinite]
    cases n
    · exact .of_isWord (by decide)
    · exact ⟨by simp [isSolid], by decide, 'i', by decide, by decide⟩
  · have solid : ∀ c ∈ (signed n (ofDigits ws fs)).text.toList, isSolid c = true ∧ c ≠ '=' := by
      intro c member
      by_cases digit : isDigit c = true
      · exact isSolid_of_isWordPart (isWordPart_of_isDigit digit)
      · by_cases point : c = '.'
        · rw [point]
          decide
        · have out := not_mem_digits left right (by simpa using digit) point
          rw [text, List.mem_append] at member
          cases n
          · simp [out] at member
          · obtain rfl : c = '-' := by simpa [out] using member
            decide
    obtain ⟨d, ds, rfl⟩ := List.exists_cons_of_ne_nil some
    refine ⟨fun c member => (solid c member).1, fun member => (solid _ member).2 rfl, d, ?_,
      isWordPart_of_isDigit (left d (by simp))⟩
    rw [text]
    simp

end Number

/-! ## Literals -/

namespace Literal

def Listed : Literal → Prop
  | number x => x.Listed
  | _ => True

variable {value value' : Literal}

theorem Listed.valid (h : value.Listed) : value.item.Valid := by
  cases value with
  | number x => exact Number.Listed.isListedWord h
  | string s => trivial
  | boolean b => cases b <;> exact .of_isWord (by decide)
  | null => exact .of_isWord (by decide)

/-- A literal that is listed as a word other than its own keywords is the infinite number. -/
theorem Listed.infinite_of_word (h : value.Listed) {w : String} (word : isWord w = true)
    (other : w ∉ ["true", "false", "null"]) (same : value.item = .word w) :
    value = number (.infinite false) ∧ w = "inf" := by
  cases value with
  | number x =>
      obtain rfl : x.text = w := Item.word.inj same
      obtain rfl := Number.Listed.infinite_of_isWord h word
      exact ⟨rfl, rfl⟩
  | string s => cases same
  | boolean b =>
      cases b
      · exact absurd (Item.word.inj same) (fun equal => other (by simp [← equal]))
      · exact absurd (Item.word.inj same) (fun equal => other (by simp [← equal]))
  | null => exact absurd (Item.word.inj same) (fun equal => other (by simp [← equal]))

@[simp] theorem item_ne_list (value : Literal) (is : List Item) : value.item ≠ .list is := by
  cases value with
  | boolean b => cases b <;> simp [item]
  | _ => simp [item]

@[simp] theorem list_ne_item (value : Literal) (is : List Item) : .list is ≠ value.item :=
  (value.item_ne_list is).symm

/-- Literals that are listed alike are the same. -/
theorem Listed.item_injective (h : value.Listed) (h' : value'.Listed)
    (same : value.item = value'.item) : value = value' := by
  cases value with
  | number x =>
      have other := fun {w} => Number.Listed.text_ne h (w := w)
      cases value' with
      | number y => rw [Number.Listed.text_injective h h' (Item.word.inj same)]
      | string s => cases same
      | boolean b => cases b <;> exact (other (by decide) (by decide) (Item.word.inj same)).elim
      | null => exact (other (by decide) (by decide) (Item.word.inj same)).elim
  | string s =>
      cases value' with
      | string t => rw [Item.text.inj same]
      | boolean b => cases b <;> cases same
      | _ => cases same
  | boolean b =>
      cases value' with
      | number y =>
          have other := fun {w} => Number.Listed.text_ne h' (w := w)
          cases b <;> exact (other (by decide) (by decide) (Item.word.inj same.symm)).elim
      | string s => cases b <;> cases same
      | boolean b' => cases b <;> cases b' <;> simp [item] at same ⊢
      | null => cases b <;> simp [item] at same
  | null =>
      cases value' with
      | number y =>
          exact (Number.Listed.text_ne h' (by decide) (by decide) (Item.word.inj same.symm)).elim
      | string s => cases same
      | boolean b => cases b <;> simp [item] at same
      | null => rfl

end Literal

/-! ## Trees whose items are valid -/

/-- The condition on the nodes of a tree that its listing relies on. -/
def listable : Check where
  expr := Expr.Formed
  pattern := Expr.IsPattern
  statement := Statement.WellFormed

theorem grammatical_implies_listable : grammatical.Implies listable where
  expr _ h := h.2
  pattern _ h := h
  statement _ h := h.wellFormed

theorem Literal.Written.listed {value : Literal} (h : value.Written) : value.Listed := by
  cases value with
  | number x => exact .inl h
  | _ => trivial

theorem Expr.IsPattern.exists_literal {e : Expr} (h : e.IsPattern) :
    ∃ s value, e = .literal s value ∧ value.Listed := by
  cases e with
  | literal s value =>
      cases value with
      | number x => exact ⟨s, _, rfl, h⟩
      | _ => exact ⟨s, _, rfl, trivial⟩
  | _ => cases h

theorem isWord_of_isIdentifier {name : String} (h : isIdentifier name = true) :
    isWord name = true := by
  rw [← isName_eq] at h
  exact isWord_of_isName h

theorem BinaryOp.isListedMark (op : BinaryOp) : IsListedMark op.symbol := by
  cases op <;> exact .of_all rfl (by simp [symbol])

theorem AssignOp.isListedMark (op : AssignOp) : IsListedMark op.symbol := by
  cases op <;> exact .of_all rfl (by simp [symbol])

theorem UnaryOp.isListedMark (op : UnaryOp) : IsListedMark op.symbol := by
  cases op <;> exact .of_all rfl (by simp [symbol])

/-- Types that are no words are replaced by one. -/
def Labels.words : Labels where
  span := id
  type name := if isWord name then name else "_"

theorem isWord_words (name : String) : isWord (Labels.words.type name) = true := by
  rw [Labels.words]
  dsimp only
  split
  · assumption
  · decide

theorem isListedWord_typed {name : String} (h : isIdentifier name = true) (type : Option String) :
    IsListedWord (name ++ typeSuffix (type.map Labels.words.type)) := by
  have word := isWord_of_isIdentifier h
  cases type with
  | none => simpa [typeSuffix] using IsListedWord.of_isWord word
  | some type => exact .typed word (isWord_words type)

theorem itemsValid_append {is js : List Item} (h : itemsValid is) (h' : itemsValid js) :
    itemsValid (is ++ js) := by
  induction is with
  | nil => exact h'
  | cons i is ih => exact ⟨h.1, ih h.2⟩

theorem itemsValid_returns (returns : Option String) :
    itemsValid (returnsItems (returns.map Labels.words.type)) := by
  cases returns with
  | none => trivial
  | some type =>
      exact ⟨.of_all rfl (by simp), .of_isWord (isWord_words type), trivial⟩

mutual

theorem Expr.valid_item : ∀ e : Expr, e.Every listable → (e.relabel .words).item.Valid
  | .literal _ _, h => (Literal.Written.listed h).valid
  | .ident _ _, h => .of_isWord (isWord_of_isName h)
  | .assign _ op a b, h =>
    ⟨op.isListedMark, Expr.valid_item a h.2.1, Expr.valid_item b h.2.2, trivial⟩
  | .binary _ op a b, h =>
    ⟨op.isListedMark, Expr.valid_item a h.2.1, Expr.valid_item b h.2.2, trivial⟩
  | .unary _ op a, h => ⟨op.isListedMark, Expr.valid_item a h.2, trivial⟩
  | .group _ a, h => ⟨.of_isWord (by decide), Expr.valid_item a h.2, trivial⟩
  | .call _ callee args, h =>
    ⟨.of_isWord (by decide), Expr.valid_item callee h.2.1, valid_argsItems args h.2.2⟩
  | .member _ object _, h =>
    ⟨.of_all rfl (by simp), Expr.valid_item object h.2, .of_isWord h.1, trivial⟩
  | .await _ a, h => ⟨.of_isWord (by decide), Expr.valid_item a h.2, trivial⟩
  | .select _ subject arms, h =>
    ⟨.of_isWord (by decide), Expr.valid_item subject h.2.1, valid_armsItems arms h.2.2⟩
  | .template _ parts, h => ⟨.of_isWord (by decide), valid_partsItems parts h.2⟩

theorem valid_argsItems : ∀ args : List Expr, argsEvery listable args →
    itemsValid (argsItems (argsRelabel .words args))
  | [], _ => trivial
  | e :: es, h => ⟨Expr.valid_item e h.1, valid_argsItems es h.2⟩

theorem valid_armsItems : ∀ arms : List Arm, armsEvery listable arms →
    itemsValid (armsItems (armsRelabel .words arms))
  | [], _ => trivial
  | ⟨none, body⟩ :: arms, h =>
    ⟨⟨.of_isWord (by decide), Statement.valid_item body h.1, trivial⟩, valid_armsItems arms h.2⟩
  | ⟨some pattern, body⟩ :: arms, h => by
    obtain ⟨s, value, rfl, listed⟩ := Expr.IsPattern.exists_literal h.1
    exact ⟨⟨listed.valid, Statement.valid_item body h.2.1, trivial⟩, valid_armsItems arms h.2.2⟩

theorem valid_partsItems : ∀ parts : List Part, partsEvery listable parts →
    itemsValid (partsItems (partsRelabel .words parts))
  | [], _ => trivial
  | .text _ :: parts, h => ⟨trivial, valid_partsItems parts h⟩
  | .expr e :: parts, h => ⟨Expr.valid_item e h.1, valid_partsItems parts h.2⟩

theorem Statement.valid_item : ∀ s : Statement, s.Every listable →
    (s.relabel .words).item.Valid
  | .function _ routine, h => Routine.valid_item routine h.1 h.2
  | .classDecl _ _ methods, h =>
    ⟨.of_isWord (by decide), .of_isWord (isWord_of_isIdentifier h.1.1),
      valid_routinesItems methods h.1.2 h.2⟩
  | .declare _ constant _ type none, h =>
    ⟨.of_isWord (by cases constant <;> decide), isListedWord_typed h.1 type, trivial⟩
  | .declare _ constant _ type (some initial), h =>
    ⟨.of_isWord (by cases constant <;> decide), isListedWord_typed h.1.1 type,
      Expr.valid_item initial h.2, trivial⟩
  | .conditional _ condition body none, h =>
    ⟨.of_isWord (by decide), Expr.valid_item condition h.2.1,
      ⟨.of_isWord (by decide), valid_bodyItems body h.2.2⟩, trivial⟩
  | .conditional _ condition body (some otherwise), h =>
    ⟨.of_isWord (by decide), Expr.valid_item condition h.2.1,
      ⟨.of_isWord (by decide), valid_bodyItems body h.2.2.1⟩,
      ⟨.of_isWord (by decide), Statement.valid_item otherwise h.2.2.2, trivial⟩, trivial⟩
  | .attempt _ body handler cleanup, h =>
    ⟨.of_isWord (by decide), ⟨.of_isWord (by decide), valid_bodyItems body h.2.1⟩,
      itemsValid_append (valid_handlerItems handler h.1.2 h.2.2.1)
        (valid_cleanupItems cleanup h.2.2.2)⟩
  | .returning _ none, _ => ⟨.of_isWord (by decide), trivial⟩
  | .returning _ (some value), h => ⟨.of_isWord (by decide), Expr.valid_item value h.2, trivial⟩
  | .block _ body, h => ⟨.of_isWord (by decide), valid_bodyItems body h.2⟩
  | .expression _ value, h => Expr.valid_item value h.2
  | .failed _, _ => ⟨.of_isWord (by decide), trivial⟩

theorem valid_handlerItems : ∀ handler : Option Handler,
    (∀ h, handler = some h → ∀ name, h.binding = some name → isIdentifier name = true) →
      handlerEvery listable handler → itemsValid (handlerItems (handlerRelabel .words handler))
  | none, _, _ => trivial
  | some ⟨none, body⟩, _, h => ⟨⟨.of_isWord (by decide), valid_bodyItems body h⟩, trivial⟩
  | some ⟨some name, body⟩, names, h =>
    ⟨⟨.of_isWord (by decide), .of_isWord (isWord_of_isIdentifier (names _ rfl name rfl)),
      valid_bodyItems body h⟩, trivial⟩

theorem valid_cleanupItems : ∀ cleanup : Option (List Statement), cleanupEvery listable cleanup →
    itemsValid (cleanupItems (cleanupRelabel .words cleanup))
  | none, _ => trivial
  | some body, h => ⟨⟨.of_isWord (by decide), valid_bodyItems body h⟩, trivial⟩

theorem valid_bodyItems : ∀ body : List Statement, bodyEvery listable body →
    itemsValid (bodyItems (bodyRelabel .words body))
  | [], _ => trivial
  | s :: ss, h => ⟨Statement.valid_item s h.1, valid_bodyItems ss h.2⟩

theorem Routine.valid_item : ∀ r : Routine, r.WellFormed → r.Every listable →
    (r.relabel .words).item.Valid
  | ⟨_, params, returns, body, async⟩, names, h => by
    have rest : itemsValid (.word "function" :: .word _ :: .list _ :: _) :=
      ⟨.of_isWord (by decide), .of_isWord (isWord_of_isIdentifier names.1),
        valid_paramsItems params names.2 h.1,
        itemsValid_append (itemsValid_returns returns) (valid_bodyItems body h.2)⟩
    cases async with
    | false => exact rest
    | true => exact ⟨.of_isWord (by decide), rest⟩

theorem valid_routinesItems : ∀ rs : List Routine, (∀ r ∈ rs, r.WellFormed) →
    routinesEvery listable rs → itemsValid (routinesItems (routinesRelabel .words rs))
  | [], _, _ => trivial
  | r :: rs, names, h =>
    ⟨Routine.valid_item r (names r (by simp)) h.1,
      valid_routinesItems rs (fun r later => names r (List.mem_cons_of_mem _ later)) h.2⟩

theorem valid_paramsItems : ∀ params : List Parameter,
    (∀ p ∈ params, isIdentifier p.name = true) → paramsEvery listable params →
      itemsValid (paramsItems (paramsRelabel .words params))
  | [], _, _ => trivial
  | ⟨_, type, none⟩ :: params, names, h =>
    ⟨isListedWord_typed (names _ List.mem_cons_self) type,
      valid_paramsItems params (fun p later => names p (List.mem_cons_of_mem _ later)) h⟩
  | ⟨_, type, some value⟩ :: params, names, h =>
    ⟨⟨isListedWord_typed (names _ List.mem_cons_self) type, Expr.valid_item value h.1⟩,
      valid_paramsItems params (fun p later => names p (List.mem_cons_of_mem _ later)) h.2⟩

end

end TwoScript
