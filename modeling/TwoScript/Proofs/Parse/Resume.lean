import TwoScript.Proofs.Parse.Agreement

/-!
# Where reading resumes

The boundary that follows a failed statement is found by the kinds of the tokens alone.
In tokens whose braces are balanced and that end with a semicolon, it lies inside, at
depth zero, whatever follows them.
-/

namespace TwoScript

/-! ## Braces -/

def braceStep (depth : Nat) (t : Token) : Nat :=
  match t.kind with
  | .leftBrace => depth + 1
  | .rightBrace => depth - 1
  | _ => depth

theorem openBraces_eq (ts : List Token) : openBraces ts = ts.foldl braceStep 0 := rfl

theorem openBraces_concat (ts : List Token) (t : Token) :
    openBraces (ts ++ [t]) = braceStep (openBraces ts) t := by
  simp [openBraces_eq]

theorem braceStep_of_ne {t : Token} (depth : Nat) (opening : t.kind ≠ .leftBrace)
    (closing : t.kind ≠ .rightBrace) : braceStep depth t = depth := by
  unfold braceStep
  split <;> simp_all

theorem braceStep_congr {t t' : Token} (depth : Nat) (h : t.kind = t'.kind) :
    braceStep depth t = braceStep depth t' := by
  simp only [braceStep, h]

theorem openBraces_congr {ts ts' : List Token} (h : ts.map Token.kind = ts'.map Token.kind) :
    openBraces ts = openBraces ts' := by
  suffices folds : ∀ depth, ts.foldl braceStep depth = ts'.foldl braceStep depth from folds 0
  induction ts generalizing ts' with
  | nil => cases ts' with
    | nil => exact fun _ => rfl
    | cons => cases h
  | cons t ts ih => cases ts' with
    | nil => cases h
    | cons t' ts' =>
        obtain ⟨first, rest⟩ := List.cons.inj h
        intro depth
        rw [List.foldl_cons, List.foldl_cons, braceStep_congr depth first, ih rest]

/-- Tokens that close `depth` open braces and all their own, and end with a semicolon. -/
def Guarded : Nat → List Token → Prop
  | depth, [] => depth = 0
  | depth, t :: ts => (ts = [] → t.kind = .semicolon) ∧ (t.kind = .rightBrace → 0 < depth) ∧
      Guarded (braceStep depth t) ts

theorem Guarded.append {depth : Nat} {ts us : List Token} (h : Guarded depth (ts ++ us)) :
    Guarded (ts.foldl braceStep depth) us := by
  induction ts generalizing depth with
  | nil => exact h
  | cons t ts ih => exact ih h.2.2

theorem Guarded.ne_nil {depth : Nat} {t : Token} {ts : List Token} (h : Guarded depth (t :: ts))
    (kind : t.kind ≠ .semicolon) : ts ≠ [] :=
  fun ended => kind (h.1 ended)

def countKind (kind : Kind) (ts : List Token) : Nat :=
  ts.countP (fun t => decide (t.kind = kind))

theorem countKind_cons (kind : Kind) (t : Token) (ts : List Token) :
    countKind kind (t :: ts) = countKind kind ts + if t.kind = kind then 1 else 0 := by
  simp [countKind, List.countP_cons]

theorem braceStep_add (depth : Nat) (t : Token) (h : t.kind = .rightBrace → 0 < depth) :
    braceStep depth t + (if t.kind = .rightBrace then 1 else 0) =
      depth + if t.kind = .leftBrace then 1 else 0 := by
  by_cases opening : t.kind = .leftBrace
  · simp [braceStep, opening]
  · by_cases closing : t.kind = .rightBrace
    · have positive := h closing
      simp only [braceStep, closing]
      simp
      omega
    · simp [braceStep_of_ne depth opening closing, opening, closing]

/-- Tokens with balanced braces that end with a semicolon are guarded. -/
theorem guarded_of_counts {depth : Nat} {ts : List Token}
    (last : ∀ t, ts.getLast? = some t → t.kind = .semicolon)
    (never : ∀ us, us <+: ts → countKind .rightBrace us ≤ depth + countKind .leftBrace us)
    (total : depth + countKind .leftBrace ts = countKind .rightBrace ts) : Guarded depth ts := by
  induction ts generalizing depth with
  | nil => exact Nat.add_eq_right.mp total
  | cons t ts ih =>
      have closing : t.kind = .rightBrace → 0 < depth := by
        intro closing
        have first := never [t] (by simp)
        simp only [countKind_cons, closing] at first
        simp [countKind] at first
        omega
      have step := braceStep_add depth t closing
      refine ⟨fun ended => last t (by simp [ended]), closing, ih ?_ ?_ ?_⟩
      · intro u hu
        apply last u
        cases ts with
        | nil => cases hu
        | cons t' ts => simpa using hu
      · intro us hus
        have whole := never (t :: us) (by simpa using hus)
        rw [countKind_cons, countKind_cons] at whole
        omega
      · rw [countKind_cons, countKind_cons] at total
        omega

/-! ## The boundary -/

theorem boundary_congr {ts ts' : List Token} (depth : Nat)
    (h : ts.map Token.kind = ts'.map Token.kind) : boundary depth ts = boundary depth ts' := by
  induction ts generalizing ts' depth with
  | nil => cases ts' with
    | nil => rfl
    | cons => cases h
  | cons t ts ih => cases ts' with
    | nil => cases h
    | cons t' ts' =>
        obtain ⟨first, rest⟩ := List.cons.inj h
        have head : ts.head?.map Token.kind = ts'.head?.map Token.kind := by
          rw [← List.head?_map, rest, List.head?_map]
        have deeper := fun depth => ih depth rest
        simp only [boundary, first, deeper]
        rcases ts with _ | ⟨u, us⟩ <;> rcases ts' with _ | ⟨u', us'⟩ <;> simp_all

theorem boundary_leftBrace {t : Token} (depth : Nat) (ts : List Token)
    (h : t.kind = .leftBrace) : boundary depth (t :: ts) = 1 + boundary (depth + 1) ts := by
  rw [boundary, h]

theorem boundary_semicolon {t : Token} (depth : Nat) (ts : List Token)
    (h : t.kind = .semicolon) :
    boundary depth (t :: ts) = if depth = 0 then 1 else 1 + boundary depth ts := by
  rw [boundary, h]

theorem boundary_other {t : Token} (depth : Nat) (ts : List Token)
    (opening : t.kind ≠ .leftBrace) (closing : t.kind ≠ .rightBrace)
    (semicolon : t.kind ≠ .semicolon) :
    boundary depth (t :: ts) =
      if depth = 0 ∧ t.kind.startsDeclaration then 0 else 1 + boundary depth ts := by
  rw [boundary]
  split <;> simp_all

theorem boundary_rightBrace_deeper {t : Token} {depth : Nat} (ts : List Token)
    (h : t.kind = .rightBrace) (deep : depth ≠ 1) :
    boundary depth (t :: ts) = 1 + boundary (depth - 1) ts := by
  rw [boundary, h]
  simp [deep]

theorem boundary_rightBrace_last {t u : Token} (ts : List Token) (h : t.kind = .rightBrace) :
    boundary 1 (t :: u :: ts) =
      if u.kind = .semicolon then 2
      else if goesOn u.kind then 1 + boundary 0 (u :: ts) else 1 := by
  rw [boundary, h]
  rfl

/-- The boundary lies inside the tokens, at depth zero, and `more` tokens behind them do
not move it. -/
structure StopsInside (depth : Nat) (ts more : List Token) : Prop where
  same : boundary depth (ts ++ more) = boundary depth ts
  inside : boundary depth ts ≤ ts.length
  guarded : Guarded 0 (ts.drop (boundary depth ts))

theorem StopsInside.cons {depth deeper : Nat} {t : Token} {ts more : List Token}
    (h : StopsInside deeper ts more)
    (step : ∀ us, boundary depth (t :: (ts ++ us)) = 1 + boundary deeper (ts ++ us)) :
    StopsInside depth (t :: ts) more := by
  have alone := step []
  rw [List.append_nil] at alone
  refine ⟨?_, ?_, ?_⟩
  · rw [List.cons_append, step, alone, h.same]
  · have inside := h.inside
    rw [alone, List.length_cons]
    omega
  · rw [alone, Nat.add_comm, List.drop_succ_cons]
    exact h.guarded

theorem StopsInside.of_eq {depth n : Nat} {ts more : List Token}
    (stops : ∀ us, boundary depth (ts ++ us) = n) (inside : n ≤ ts.length)
    (guarded : Guarded 0 (ts.drop n)) : StopsInside depth ts more := by
  have alone := stops []
  rw [List.append_nil] at alone
  exact ⟨by rw [stops, alone], by rw [alone]; exact inside, by rw [alone]; exact guarded⟩

/-- Reading resumes inside guarded tokens. -/
theorem Guarded.stopsInside {depth : Nat} {ts : List Token} (h : Guarded depth ts)
    (more : List Token) (nonempty : ts ≠ []) : StopsInside depth ts more := by
  induction ts generalizing depth with
  | nil => exact (nonempty rfl).elim
  | cons t ts ih =>
      have whole := h
      obtain ⟨last, closed, rest⟩ := h
      by_cases opening : t.kind = .leftBrace
      · have deeper : braceStep depth t = depth + 1 := by simp [braceStep, opening]
        rw [deeper] at rest
        exact (ih rest (whole.ne_nil (by simp [opening]))).cons
          fun us => boundary_leftBrace depth _ opening
      by_cases closing : t.kind = .rightBrace
      · have outer : braceStep depth t = depth - 1 := by simp [braceStep, closing]
        have further := whole.ne_nil (by simp [closing])
        rw [outer] at rest
        by_cases deep : depth = 1
        · subst deep
          -- the brace closes the failed statement unless the next token goes on with it
          cases ts with
          | nil => exact (further rfl).elim
          | cons u us =>
              by_cases semicolon : u.kind = .semicolon
              · refine .of_eq (n := 2) (fun vs => ?_) (by simp) ?_
                · rw [List.cons_append, List.cons_append, boundary_rightBrace_last _ closing,
                    if_pos semicolon]
                · have behind := rest.2.2
                  rw [braceStep_of_ne _ (by simp [semicolon]) (by simp [semicolon])] at behind
                  exact behind
              · by_cases goes : goesOn u.kind = true
                · refine (ih rest further).cons fun vs => ?_
                  rw [List.cons_append, boundary_rightBrace_last _ closing, if_neg semicolon,
                    if_pos goes]
                · refine .of_eq (n := 1) (fun vs => ?_) (by simp) rest
                  rw [List.cons_append, List.cons_append, boundary_rightBrace_last _ closing,
                    if_neg semicolon, if_neg goes]
        · exact (ih rest further).cons fun us => boundary_rightBrace_deeper _ closing deep
      have level := braceStep_of_ne depth opening closing
      rw [level] at rest
      by_cases semicolon : t.kind = .semicolon
      · by_cases outermost : depth = 0
        · subst outermost
          refine .of_eq (n := 1) (fun us => ?_) (by simp) rest
          rw [List.cons_append, boundary_semicolon _ _ semicolon, if_pos rfl]
        · have further : ts ≠ [] := by
            rintro rfl
            exact outermost rest
          refine (ih rest further).cons fun us => ?_
          rw [boundary_semicolon _ _ semicolon, if_neg outermost]
      · by_cases declares : depth = 0 ∧ t.kind.startsDeclaration = true
        · obtain ⟨rfl, declares⟩ := declares
          refine .of_eq (n := 0) (fun us => ?_) (by simp) whole
          rw [List.cons_append, boundary_other _ _ opening closing semicolon,
            if_pos ⟨rfl, declares⟩]
        · refine (ih rest (whole.ne_nil semicolon)).cons fun us => ?_
          rw [boundary_other _ _ opening closing semicolon, if_neg declares]

end TwoScript
