import TwoScript.Proofs.Code.Regroup

/-!
# Regrouped trees can be read

Groups around operands loosen no condition on a tree: a regrouped tree stands on the
ladder if the tree does, and it is at most twice as high.
-/

namespace TwoScript

/-! ## Height -/

theorem Expr.height_groupedIf (wrapped : Bool) (e : Expr) :
    (e.groupedIf wrapped).height ≤ e.height + 1 := by
  cases wrapped with
  | false => exact Nat.le_succ _
  | true => exact Nat.le_of_eq (Nat.add_comm _ _)

mutual

theorem Expr.height_regroup : ∀ e : Expr, e.regroup.height ≤ 2 * e.height
  | .literal _ _ | .ident _ _ => by
    simp only [Expr.regroup, Expr.height]
    omega
  | .select _ subject arms => by
    simp only [Expr.regroup]
    omega
  | .assign _ _ target value => by
    have first := Expr.height_regroup target
    have second := Expr.height_regroup value
    simp only [Expr.regroup, Expr.height]
    omega
  | .binary _ op left right => by
    have first := Expr.height_regroup left
    have second := Expr.height_regroup right
    have before := Expr.height_groupedIf (left.needsParens op.strength false) left.regroup
    have behind := Expr.height_groupedIf (right.needsParens op.strength true) right.regroup
    simp only [Expr.regroup, Expr.height]
    omega
  | .unary _ _ operand | .await _ operand => by
    have inner := Expr.height_regroup operand
    have around := Expr.height_groupedIf (operand.needsParens unaryStrength false) operand.regroup
    simp only [Expr.regroup, Expr.height]
    omega
  | .group _ inner => by
    have inside := Expr.height_regroup inner
    simp only [Expr.regroup, Expr.height]
    omega
  | .call _ callee args => by
    have first := Expr.height_regroup callee
    have second := argsHeight_regroup args
    have before := Expr.height_groupedIf callee.isAwaitedSelection callee.regroup
    simp only [Expr.regroup, Expr.height]
    omega
  | .member _ object _ => by
    have inner := Expr.height_regroup object
    have around := Expr.height_groupedIf (object.isAwaitedSelection || object.isNumber)
      object.regroup
    simp only [Expr.regroup, Expr.height]
    omega
  | .template _ parts => by
    have inner := partsHeight_regroup parts
    simp only [Expr.regroup, Expr.height]
    omega

theorem argsHeight_regroup : ∀ args : List Expr,
    argsHeight (argsRegroup args) ≤ 2 * argsHeight args
  | [] => Nat.zero_le _
  | e :: es => by
    have first := Expr.height_regroup e
    have rest := argsHeight_regroup es
    simp only [argsRegroup, argsHeight]
    omega

theorem partsHeight_regroup : ∀ parts : List Part,
    partsHeight (partsRegroup parts) ≤ 2 * partsHeight parts
  | [] => Nat.zero_le _
  | .text _ :: parts => partsHeight_regroup parts
  | .expr e :: parts => by
    have first := Expr.height_regroup e
    have rest := partsHeight_regroup parts
    simp only [partsRegroup, partsHeight]
    omega

theorem Statement.height_regroup : ∀ s : Statement, s.regroup.height ≤ 2 * s.height
  | .function _ routine => by
    have inner := Routine.height_regroup routine
    simp only [Statement.regroup, Statement.height]
    omega
  | .classDecl _ _ methods => by
    have inner := routinesHeight_regroup methods
    simp only [Statement.regroup, Statement.height]
    omega
  | .declare _ _ _ _ none | .returning _ none | .failed _ => by
    simp only [Statement.regroup, Statement.height]
    omega
  | .declare _ _ _ _ (some value) | .returning _ (some value) | .expression _ value => by
    have inner := Expr.height_regroup value
    simp only [Statement.regroup, Statement.height]
    omega
  | .conditional _ condition body none => by
    have first := Expr.height_regroup condition
    have second := bodyHeight_regroup body
    simp only [Statement.regroup, Statement.height]
    omega
  | .conditional _ condition body (some otherwise) => by
    have first := Expr.height_regroup condition
    have second := bodyHeight_regroup body
    have third := Statement.height_regroup otherwise
    simp only [Statement.regroup, Statement.height]
    omega
  | .attempt _ body handler cleanup => by
    have first := bodyHeight_regroup body
    have second := handlerHeight_regroup handler
    have third := cleanupHeight_regroup cleanup
    simp only [Statement.regroup, Statement.height]
    omega
  | .block _ body => by
    have inner := bodyHeight_regroup body
    simp only [Statement.regroup, Statement.height]
    omega

theorem bodyHeight_regroup : ∀ body : List Statement,
    bodyHeight (bodyRegroup body) ≤ 2 * bodyHeight body
  | [] => Nat.zero_le _
  | s :: ss => by
    have first := Statement.height_regroup s
    have rest := bodyHeight_regroup ss
    simp only [bodyRegroup, bodyHeight]
    omega

theorem handlerHeight_regroup : ∀ handler : Option Handler,
    handlerHeight (handlerRegroup handler) ≤ 2 * handlerHeight handler
  | none => Nat.zero_le _
  | some ⟨_, body⟩ => bodyHeight_regroup body

theorem cleanupHeight_regroup : ∀ cleanup : Option (List Statement),
    cleanupHeight (cleanupRegroup cleanup) ≤ 2 * cleanupHeight cleanup
  | none => Nat.zero_le _
  | some body => bodyHeight_regroup body

theorem Routine.height_regroup : ∀ r : Routine, r.regroup.height ≤ 2 * r.height
  | ⟨_, params, _, body, _⟩ => by
    have first := paramsHeight_regroup params
    have second := bodyHeight_regroup body
    simp only [Routine.regroup, Routine.height]
    omega

theorem routinesHeight_regroup : ∀ rs : List Routine,
    routinesHeight (routinesRegroup rs) ≤ 2 * routinesHeight rs
  | [] => Nat.zero_le _
  | r :: rs => by
    have first := Routine.height_regroup r
    have rest := routinesHeight_regroup rs
    simp only [routinesRegroup, routinesHeight]
    omega

theorem paramsHeight_regroup : ∀ params : List Parameter,
    paramsHeight (paramsRegroup params) ≤ 2 * paramsHeight params
  | [] => Nat.zero_le _
  | ⟨_, _, none⟩ :: params => paramsHeight_regroup params
  | ⟨_, _, some value⟩ :: params => by
    have first := Expr.height_regroup value
    have rest := paramsHeight_regroup params
    simp only [paramsRegroup, paramsHeight]
    omega

end

/-! ## The ladder -/

section

variable {e : Expr} {wrapped : Bool}

theorem Expr.le_tail_groupedIf {p : Precedence} (h : p ≤ e.tail) :
    p ≤ (e.groupedIf wrapped).tail := by
  cases wrapped with
  | false => exact h
  | true => exact Precedence.le_postfixed p

theorem Expr.lt_head_groupedIf {p : Precedence} (h : p < e.head) :
    p < (e.groupedIf wrapped).head := by
  cases wrapped with
  | false => exact h
  | true =>
      rw [Precedence.lt_def] at h ⊢
      exact Nat.lt_of_lt_of_le h (Precedence.le_postfixed e.head)

theorem Expr.every_groupedIf (h : e.Every readable) : (e.groupedIf wrapped).Every readable := by
  cases wrapped with
  | false => exact h
  | true => exact ⟨⟨trivial, rfl⟩, h⟩

end

theorem Parameter.formed_regroup {p : Parameter} (h : p.Formed) : p.regroup.Formed := by
  refine ⟨h.1, fun e he => ?_⟩
  obtain ⟨value, given, rfl⟩ := Option.map_eq_some_iff.mp he
  rw [Expr.isAssignment_regroup]
  exact h.2 value given

theorem Routine.formed_regroup {r : Routine} (h : r.Formed) : r.regroup.Formed := by
  obtain ⟨name, params, returns, body, async⟩ := r
  refine ⟨h.1, fun p hp => ?_⟩
  simp only [Routine.regroup, paramsRegroup_eq_map] at hp
  obtain ⟨q, hq, rfl⟩ := List.mem_map.mp hp
  exact Parameter.formed_regroup (h.2 q hq)

theorem Statement.formed_regroup {s : Statement} (h : s.Formed) : s.regroup.Formed := by
  cases s with
  | function _ routine => exact Routine.formed_regroup h
  | classDecl _ name methods =>
      refine ⟨h.1, fun r hr => ?_⟩
      rw [routinesRegroup_eq_map] at hr
      obtain ⟨m, hm, rfl⟩ := List.mem_map.mp hr
      exact Routine.formed_regroup (h.2 m hm)
  | declare _ constant name _ initial => cases initial <;> exact h
  | conditional _ _ _ otherwise =>
      cases otherwise with
      | none => exact h
      | some s =>
          rintro _ ⟨⟩
          rw [isConditional_regroup, isBlock_regroup]
          exact h s rfl
  | attempt _ _ handler cleanup =>
      obtain _ | ⟨binding, body⟩ := handler <;> cases cleanup <;>
        simp [regroup, handlerRegroup, cleanupRegroup, Formed] at h ⊢ <;> exact h
  | returning _ value => cases value <;> exact h
  | block _ _ | expression _ _ => trivial
  | failed _ => exact h

theorem Statement.readable_regroup {s : Statement} (h : readable.statement s) :
    readable.statement s.regroup :=
  formed_regroup h

mutual

theorem Expr.every_regroup : ∀ e : Expr, e.Every readable → e.regroup.Every readable
  | .literal _ _, h | .ident _ _, h => h
  | .select _ _ _, h => nomatch h.1.2
  | .assign _ _ target value, h =>
    ⟨⟨by simpa [Expr.Laddered] using h.1.1, rfl⟩, Expr.every_regroup target h.2.1,
      Expr.every_regroup value h.2.2⟩
  | .binary _ op left right, h => by
    have ladder := Expr.laddered_binary.mp h.1.1
    refine ⟨⟨Expr.laddered_binary.mpr ⟨Expr.le_tail_groupedIf ?_, Expr.lt_head_groupedIf ?_⟩, rfl⟩,
      Expr.every_groupedIf (Expr.every_regroup left h.2.1),
      Expr.every_groupedIf (Expr.every_regroup right h.2.2)⟩
    · rw [Expr.tail_regroup]
      exact ladder.1
    · rw [Expr.head_regroup]
      exact ladder.2
  | .unary _ _ operand, h => by
    have ladder := Expr.laddered_unary.mp h.1.1
    refine ⟨⟨Expr.laddered_unary.mpr (Expr.lt_head_groupedIf ?_), rfl⟩,
      Expr.every_groupedIf (Expr.every_regroup operand h.2)⟩
    rwa [Expr.head_regroup]
  | .await _ operand, h => by
    have ladder := Expr.laddered_await.mp h.1.1
    refine ⟨⟨Expr.laddered_await.mpr (Expr.lt_head_groupedIf ?_), rfl⟩,
      Expr.every_groupedIf (Expr.every_regroup operand h.2)⟩
    rwa [Expr.head_regroup]
  | .group _ inner, h => ⟨⟨trivial, rfl⟩, Expr.every_regroup inner h.2⟩
  | .call _ callee args, h => by
    have ladder := Expr.laddered_call.mp h.1.1
    refine ⟨⟨Expr.laddered_call.mpr (Expr.le_tail_groupedIf ?_), rfl⟩,
      Expr.every_groupedIf (Expr.every_regroup callee h.2.1), argsEvery_regroup args h.2.2⟩
    rwa [Expr.tail_regroup]
  | .member _ object _, h => by
    have ladder := Expr.laddered_member.mp h.1.1
    refine ⟨⟨Expr.laddered_member.mpr (Expr.le_tail_groupedIf ?_), rfl⟩,
      Expr.every_groupedIf (Expr.every_regroup object h.2)⟩
    rwa [Expr.tail_regroup]
  | .template _ parts, h => ⟨⟨trivial, rfl⟩, partsEvery_regroup parts h.2⟩

theorem argsEvery_regroup : ∀ args : List Expr,
    argsEvery readable args → argsEvery readable (argsRegroup args)
  | [], _ => trivial
  | e :: es, h => ⟨Expr.every_regroup e h.1, argsEvery_regroup es h.2⟩

theorem partsEvery_regroup : ∀ parts : List Part,
    partsEvery readable parts → partsEvery readable (partsRegroup parts)
  | [], _ => trivial
  | .text _ :: parts, h => partsEvery_regroup parts h
  | .expr e :: parts, h => ⟨Expr.every_regroup e h.1, partsEvery_regroup parts h.2⟩

theorem Statement.every_regroup : ∀ s : Statement, s.Every readable → s.regroup.Every readable
  | .function _ routine, h => ⟨Statement.readable_regroup h.1, Routine.every_regroup routine h.2⟩
  | .classDecl _ _ methods, h => ⟨Statement.readable_regroup h.1, routinesEvery_regroup methods h.2⟩
  | .declare _ _ _ _ none, h | .returning _ none, h | .failed _, h => Statement.readable_regroup h
  | .declare _ _ _ _ (some value), h | .returning _ (some value), h | .expression _ value, h =>
    ⟨Statement.readable_regroup h.1, Expr.every_regroup value h.2⟩
  | .conditional _ condition body none, h =>
    ⟨Statement.readable_regroup h.1, Expr.every_regroup condition h.2.1, bodyEvery_regroup body h.2.2⟩
  | .conditional _ condition body (some otherwise), h =>
    ⟨Statement.readable_regroup h.1, Expr.every_regroup condition h.2.1,
      bodyEvery_regroup body h.2.2.1,
      Statement.every_regroup otherwise h.2.2.2⟩
  | .attempt _ body handler cleanup, h =>
    ⟨Statement.readable_regroup h.1, bodyEvery_regroup body h.2.1,
      handlerEvery_regroup handler h.2.2.1,
      cleanupEvery_regroup cleanup h.2.2.2⟩
  | .block _ body, h => ⟨Statement.readable_regroup h.1, bodyEvery_regroup body h.2⟩

theorem bodyEvery_regroup : ∀ body : List Statement,
    bodyEvery readable body → bodyEvery readable (bodyRegroup body)
  | [], _ => trivial
  | s :: ss, h => ⟨Statement.every_regroup s h.1, bodyEvery_regroup ss h.2⟩

theorem handlerEvery_regroup : ∀ handler : Option Handler,
    handlerEvery readable handler → handlerEvery readable (handlerRegroup handler)
  | none, _ => trivial
  | some ⟨_, body⟩, h => bodyEvery_regroup body h

theorem cleanupEvery_regroup : ∀ cleanup : Option (List Statement),
    cleanupEvery readable cleanup → cleanupEvery readable (cleanupRegroup cleanup)
  | none, _ => trivial
  | some body, h => bodyEvery_regroup body h

theorem Routine.every_regroup : ∀ r : Routine, r.Every readable → r.regroup.Every readable
  | ⟨_, params, _, body, _⟩, h => ⟨paramsEvery_regroup params h.1, bodyEvery_regroup body h.2⟩

theorem routinesEvery_regroup : ∀ rs : List Routine,
    routinesEvery readable rs → routinesEvery readable (routinesRegroup rs)
  | [], _ => trivial
  | r :: rs, h => ⟨Routine.every_regroup r h.1, routinesEvery_regroup rs h.2⟩

theorem paramsEvery_regroup : ∀ params : List Parameter,
    paramsEvery readable params → paramsEvery readable (paramsRegroup params)
  | [], _ => trivial
  | ⟨_, _, none⟩ :: params, h => paramsEvery_regroup params h
  | ⟨_, _, some value⟩ :: params, h =>
    ⟨Expr.every_regroup value h.1, paramsEvery_regroup params h.2⟩

end

end TwoScript
