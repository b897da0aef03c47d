import Minifier.Proofs.Meaning.Reduction

/-!
# What becomes of a branch

Statements do something and come to an end, normally or with a jump. The meaning of an `if` comes
from its test and its branches, that of a block from its statements in order up to the first jump; an
expression statement evaluates its expression, and declarations without a value do nothing, since
their names are hoisted. All other statements may mean anything.

An `if` and what becomes of it then do the same and end in the same way (`Execution.exec_simplifyIf`),
whichever of the rules apply: deciding a constant test, dropping branches that do nothing, swapping
branches over a negated test, and writing the branches as one expression.
-/

set_option autoImplicit false

namespace Minifier

open List

/-- How a statement ends. -/
inductive Completion (Jump : Type) where
  | normal
  | abrupt (jump : Jump)

/-- A semantics in which constants have their values, with a meaning for all statements that have
none of their own. -/
structure Execution extends Semantics where
  ofNumber : Number → Value
  ofString : String → Value
  nullValue : Value
  undefined : Value
  number_eq : ∀ n, number n = pure (ofNumber n)
  string_eq : ∀ s, string s = pure (ofString s)
  null_eq : null = pure nullValue
  /-- `void` evaluates its operand and forgets the value. -/
  void_eq : ∀ operand, unary .void operand = (do
    let _ ← operand.value
    return undefined)
  isTruthy_ofNumber : ∀ n, isTruthy (ofNumber n) = n.isTruthy
  isTruthy_ofString : ∀ s, isTruthy (ofString s) = !s.isEmpty
  isTruthy_nullValue : isTruthy nullValue = false
  isTruthy_undefined : isTruthy undefined = false
  Jump : Type
  other : Statement → Run (Completion Jump)

namespace Execution

variable {statements : List Statement} {e : Expr} {settings : Settings} {s : Statement} {truth : Bool}

variable (X : Execution)

/-- Evaluates something for what it does. -/
def discard (run : X.Run X.Value) : X.Run (Completion X.Jump) := do
  let _ ← run
  return .normal

/-- Goes on after a normal end. -/
def proceed (next : X.Run (Completion X.Jump)) : Completion X.Jump → X.Run (Completion X.Jump)
  | .normal => next
  | .abrupt jump => return .abrupt jump

mutual

/-- Executes a statement. -/
def exec (X : Execution) : Statement → X.Run (Completion X.Jump)
  | .block ⟨statements, _⟩ => execAll X statements
  | .expr e => X.discard (X.eval e)
  | .ifElse test yes none _ => do
    if ← X.truth test then exec X yes else return .normal
  | .ifElse test yes (some no) _ => do
    if ← X.truth test then exec X yes else exec X no
  | .empty _ => return .normal
  | .function _ => return .normal
  | .var ⟨decls, span⟩ =>
    if decls.all (·.init.isNone) then return .normal else X.other (.var ⟨decls, span⟩)
  | s => X.other s

/-- Executes statements in order. -/
def execAll (X : Execution) : List Statement → X.Run (Completion X.Jump)
  | [] => return .normal
  | s :: rest => exec X s >>= X.proceed (execAll X rest)

end

/-! ## Lists -/

theorem proceed_normal (run : X.Run (Completion X.Jump)) : run >>= X.proceed (return .normal) = run := by
  have same : X.proceed (return .normal) = pure := by
    funext completion
    cases completion <;> rfl
  rw [same, bind_pure]

theorem execAll_singleton (s : Statement) : X.execAll [s] = X.exec s := by
  simp only [execAll, X.proceed_normal]

theorem execAll_append (xs ys : List Statement) :
    X.execAll (xs ++ ys) = X.execAll xs >>= X.proceed (X.execAll ys) := by
  induction xs with
  | nil => simp [execAll, proceed]
  | cons s rest ih =>
    rw [cons_append, execAll, execAll, ih, bind_assoc]
    congr 1
    funext completion
    cases completion <;> simp [proceed]

theorem execAll_idle (idle : ∀ s ∈ statements, X.exec s = return .normal) :
    X.execAll statements = return .normal := by
  induction statements with
  | nil => simp only [execAll]
  | cons s rest ih =>
    rw [forall_mem_cons] at idle
    rw [execAll, idle.1, pure_bind, proceed, ih idle.2]

theorem exec_ofList (span : Span) (statements : List Statement) :
    X.exec (.ofList span statements) = X.execAll statements := by
  match statements with
  | [] => simp only [Statement.ofList, exec, execAll]
  | [only] => simp only [Statement.ofList, execAll_singleton]
  | _ :: _ :: _ => simp only [Statement.ofList, exec]

/-! ## Statements that do nothing -/

mutual

theorem exec_doesNothing : ∀ {s : Statement}, s.doesNothing → X.exec s = return .normal
  | .empty _, _ => by simp only [exec]
  | .block ⟨statements, _⟩, nothing => by
    rw [exec]
    exact execAll_doNothing (by simpa only [Statement.doesNothing] using nothing)

theorem execAll_doNothing : ∀ {statements : List Statement},
    Statement.allDoNothing statements → X.execAll statements = return .normal
  | [], _ => by simp only [execAll]
  | s :: rest, nothing => by
    rw [Statement.allDoNothing, Bool.and_eq_true] at nothing
    rw [execAll, exec_doesNothing nothing.1, pure_bind, proceed, execAll_doNothing nothing.2]

end

private theorem init_addDecl {decls : List VarDecl} {d : VarDecl} (plain : ∀ d ∈ decls, d.init = none)
    (isPlain : d.init = none) : ∀ e ∈ addDecl decls d, e.init = none := by
  unfold addDecl
  split
  · exact plain
  · intro e mem
    obtain old | new := mem_append.1 mem
    · exact plain e old
    · rwa [mem_singleton.1 new]

/-- The names that are left of a statement have no values. -/
private theorem init_foldl_addDecl (decls : List VarDecl) :
    ∀ d ∈ (decls.map VarDecl.nameOnly).foldl addDecl [], d.init = none := by
  refine List.foldlRecOn (motive := fun kept : List VarDecl => ∀ d ∈ kept, d.init = none) _ _
    (by simp) ?_
  intro kept plain d mem
  obtain ⟨old, -, rfl⟩ := mem_map.1 mem
  exact init_addDecl plain rfl

/-- What is left of a statement that is never executed does nothing. -/
theorem execAll_survivors (s : Statement) : X.execAll s.survivors = return .normal := by
  apply X.execAll_idle
  have functions : ∀ f ∈ s.functionDecls.map Statement.function, X.exec f = return .normal := by
    intro f mem
    obtain ⟨fn, -, rfl⟩ := mem_map.1 mem
    simp only [exec]
  have plain := init_foldl_addDecl s.varDecls
  unfold Statement.survivors
  split
  next => exact functions
  next first rest found =>
    rw [found] at plain
    have names : (first :: rest).all (·.init.isNone) :=
      all_eq_true.2 fun d mem => by rw [plain d mem]; rfl
    intro kept mem
    obtain rfl | mem := mem_cons.1 mem
    · rw [exec, if_pos names]
    · exact functions kept mem

/-! ## Tests -/

/-- Constants are evaluated without doing anything. -/
theorem eval_isConstant (constant : e.isConstant) : ∃ v, X.eval e = pure v := by
  obtain ⟨form, span⟩ := e
  cases form
  case number n => exact ⟨_, X.number_eq n⟩
  case string s => exact ⟨_, X.string_eq s⟩
  case boolean b => exact ⟨_, rfl⟩
  case null => exact ⟨_, X.null_eq⟩
  case unary op operand =>
    simp only [Expr.isConstant, Expr.isVoidZero] at constant
    split at constant
    next n span isVoid =>
      cases isVoid
      refine ⟨X.undefined, (X.void_eq _).trans ?_⟩
      show (do let _ ← X.number n; return X.undefined) = _
      rw [X.number_eq, pure_bind]
    next => cases constant
  all_goals exact absurd constant (by simp [Expr.isConstant, Expr.isVoidZero])

theorem truth_truthiness (known : e.truthiness? = some truth) : X.truth e = pure truth := by
  fun_induction Expr.truthiness? e generalizing truth with
  | case1 value span =>
    cases known
    show X.truthOf (pure (X.ofBool value)) = _
    simp [Machine.truthOf]
  | case2 n span =>
    cases known
    show X.truthOf (X.number n) = _
    simp [Machine.truthOf, X.number_eq, X.isTruthy_ofNumber]
  | case3 s span =>
    cases known
    show X.truthOf (X.string s) = _
    simp [Machine.truthOf, X.string_eq, X.isTruthy_ofString]
  | case4 span =>
    cases known
    show X.truthOf X.null = _
    simp [Machine.truthOf, X.null_eq, X.isTruthy_nullValue]
  | case5 operand span constant =>
    cases known
    obtain ⟨v, pure_v⟩ := X.eval_isConstant constant
    show X.truthOf (X.unary .void (X.meaning operand)) = _
    rw [X.void_eq, show (X.meaning operand).value = pure v from pure_v]
    simp [Machine.truthOf, X.isTruthy_undefined]
  | case6 => cases known
  | case7 operand span ih =>
    obtain ⟨inner, found, rfl⟩ := Option.map_eq_some_iff.1 known
    show X.truthOf (X.opposite (X.eval operand)) = _
    rw [X.truthOf_opposite, show X.truthOf (X.eval operand) = pure inner from ih found, map_pure]
  | case8 => cases known

theorem truth_negate (settings : Settings) (e : Expr) :
    X.truth (settings.negate e) = not <$> X.truth e :=
  X.interpretation.opposed_negated settings.shortBooleans .top .top e

/-- An `if` over the opposite test with its branches swapped. -/
theorem branch_not {α : Type} {test test' : X.Run Bool} (opposed : test' = not <$> test)
    (yes no : X.Run α) : (do if ← test' then no else yes) = (do if ← test then yes else no) := by
  subst opposed
  rw [bind_map_left]
  congr 1
  funext truth
  cases truth <;> rfl

/-! ## Expressions for branches -/

theorem discard_both (left right : X.Run X.Value) :
    X.discard (X.both left right) = (do
      if ← X.truthOf left then X.discard right else return .normal) := by
  simp only [discard, Machine.both, Machine.truthOf, bind_assoc, bind_map_left]
  congr 1
  funext v
  cases X.isTruthy v <;> simp

theorem discard_either (left right : X.Run X.Value) :
    X.discard (X.either left right) = (do
      if ← X.truthOf left then return .normal else X.discard right) := by
  simp only [discard, Machine.either, Machine.truthOf, bind_assoc, bind_map_left]
  congr 1
  funext v
  cases X.isTruthy v <;> simp

theorem discard_choose (test yes no : X.Run X.Value) :
    X.discard (X.choose test yes no) = (do
      if ← X.truthOf test then X.discard yes else X.discard no) := by
  simp only [discard, Machine.choose, Machine.truthOf, bind_assoc, bind_map_left]
  congr 1
  funext v
  cases X.isTruthy v <;> rfl

/-- Expression statements in a row evaluate what their expressions do when joined by commas. -/
theorem execAll_sequence (e : Expr) (rest : List Expr) :
    X.execAll ((e :: rest).map .expr) = X.exec (.expr (rest.foldl (Expr.binary .comma) e)) := by
  induction rest generalizing e with
  | nil => exact X.execAll_singleton _
  | cons next rest ih =>
    rw [foldl_cons, ← ih]
    have joined : X.eval (Expr.binary .comma e next) = X.andThen (X.eval e) (X.eval next) := rfl
    simp only [map_cons, execAll, exec, joined, discard, Machine.andThen, bind_assoc, pure_bind,
      proceed]

private theorem exprs_of_mapM {read? : Statement → Option Expr}
    (reads : ∀ s e, read? s = some e → s = .expr e) {es : List Expr}
    (found : statements.mapM read? = some es) : statements = es.map .expr := by
  induction statements generalizing es with
  | nil =>
    cases found
    rfl
  | cons s rest ih =>
    simp only [mapM_cons, Option.bind_eq_bind, Option.bind_eq_some_iff, Option.pure_def,
      Option.some.injEq] at found
    obtain ⟨e, isExpr, more, areExprs, rfl⟩ := found
    rw [reads s e isExpr, ih areExprs, map_cons]

theorem exec_onlyExpr (only : s.onlyExpr? = some e) : X.exec s = X.discard (X.eval e) := by
  unfold Statement.onlyExpr? at only
  split at only
  next =>
    cases only
    simp only [exec]
  next statements span =>
    obtain ⟨es, found, joined⟩ := Option.bind_eq_some_iff.1 only
    have rows : statements = es.map .expr := by
      refine exprs_of_mapM (fun s e isExpr => ?_) found
      cases s <;> simp_all
    rw [exec, rows]
    cases es with
    | nil => cases joined
    | cons first rest =>
      cases joined
      rw [X.execAll_sequence, exec]
  next => cases only

/-! ## The rules -/

theorem exec_decideIf {test : Expr} (known : X.truth test = pure truth) (yes : Statement)
    (no : Option Statement) (span : Span) :
    X.exec (.decideIf truth yes no span) = X.exec (.ifElse test yes no span) := by
  rw [Statement.decideIf, exec_ofList]
  cases truth <;> cases no <;>
    simp only [exec, known, pure_bind, execAll_append, execAll_survivors, Option.toList, if_true,
      Bool.false_eq_true, if_false, Option.map_some, Option.map_none, Option.getD_some,
      Option.getD_none, proceed_normal, execAll, proceed]

theorem exec_dropEmptyBranches (settings : Settings) (s : Statement) :
    X.exec (s.dropEmptyBranches settings).value = X.exec s := by
  unfold Statement.dropEmptyBranches
  split
  next test yes no span =>
    -- A second branch that does nothing is as good as none.
    have trimmed : X.exec (.ifElse test yes (if no.any Statement.doesNothing then none else no) span) =
        X.exec (.ifElse test yes no span) := by
      cases no with
      | none => rfl
      | some no =>
        by_cases idle : no.doesNothing
        · simp only [Option.any_some, idle, if_true, exec, X.exec_doesNothing idle]
        · simp only [Option.any_some, idle, Bool.false_eq_true, if_false]
    rw [← trimmed]
    dsimp only
    generalize (if no.any Statement.doesNothing then none else no) = rest
    split
    next nothing =>
      cases rest with
      | none =>
        simp only [Edited.value_of, exec, X.exec_doesNothing nothing, discard, Semantics.truth,
          Machine.truthOf, bind_map_left, ite_self]
      | some no =>
        simp only [Edited.value_of, exec, X.exec_doesNothing nothing]
        exact X.branch_not (X.truth_negate settings test) _ _
    next => rfl
  next => rfl

theorem exec_swapped {swapped : Statement} (found : s.swapped? settings = some swapped) :
    X.exec swapped = X.exec s := by
  unfold Statement.swapped? at found
  split at found
  next test yes no span =>
    simp only [Option.ite_none_right_eq_some, Option.some.injEq] at found
    rw [← found.2]
    simp only [exec]
    exact X.branch_not (X.truth_negate settings test) _ _
  next => cases found

theorem exec_ifExpr {candidate : Statement} (found : s.ifExpr? settings = some candidate) :
    X.exec candidate = X.exec s := by
  unfold Statement.ifExpr? at found
  split at found
  next test yes no span =>
    obtain ⟨first, isExpr, found⟩ := Option.bind_eq_some_iff.1 found
    have onYes := X.exec_onlyExpr isExpr
    cases no with
    | some no =>
      obtain ⟨second, isExpr, found⟩ := Option.bind_eq_some_iff.1 found
      have onNo := X.exec_onlyExpr isExpr
      simp only [Option.ite_none_left_eq_some, Option.some.injEq] at found
      rw [← found.2]
      simp only [exec, onYes, onNo]
      exact X.discard_choose _ _ _
    | none =>
      simp only [Option.ite_none_left_eq_some, Option.some.injEq] at found
      rw [← found.2]
      simp only [exec, onYes]
      split
      · have opposed : X.truth (test.negated settings.shortBooleans .top (.operand .logicalOr .left)) =
            not <$> X.truth test :=
          X.interpretation.opposed_negated settings.shortBooleans _ _ test
        exact (X.discard_either _ _).trans (X.branch_not opposed _ _)
      · exact X.discard_both _ _
  next => cases found

theorem exec_shorterOf (settings : Settings) {candidate : Option Statement}
    (same : ∀ t, candidate = some t → X.exec t = X.exec s) :
    X.exec (s.shorterOf settings candidate).value = X.exec s := by
  unfold Statement.shorterOf
  split
  next t =>
    split
    · exact same t rfl
    · rfl
  next => rfl

theorem exec_simplifyBranches (settings : Settings) (s : Statement) :
    X.exec (s.simplifyBranches settings).value = X.exec s := by
  simp only [Statement.simplifyBranches, Edited.value_bind]
  rw [X.exec_shorterOf settings fun t => X.exec_ifExpr]
  refine Edited.when_value (fun t => X.exec t = X.exec s) _ _ _ ?_ ?_
  · exact Edited.when_value (fun t => X.exec t = X.exec s) _ _ _ rfl
      (X.exec_dropEmptyBranches settings s)
  · rw [X.exec_shorterOf settings fun t => X.exec_swapped]
    exact Edited.when_value (fun t => X.exec t = X.exec s) _ _ _ rfl
      (X.exec_dropEmptyBranches settings s)

/-- An `if` and what becomes of it have the same effects in the same order and end in the same way,
under every setting. -/
theorem exec_simplifyIf (settings : Settings) (test : Expr) (yes : Statement) (no : Option Statement)
    (span : Span) :
    X.exec (Statement.simplifyIf settings (.ifElse test yes no span)).value =
      X.exec (.ifElse test yes no span) := by
  -- The negations in the test go first; from there on the test stays as it is.
  have reduced : X.truth (settings.reduce .top true test).value = X.truth test :=
    (X.agree_settings_reduce settings .top true test).truthOf
  have tested : X.exec (.ifElse (settings.reduce .top true test).value yes no span) =
      X.exec (.ifElse test yes no span) := by
    cases no <;> simp only [exec, reduced]
  rw [← tested]
  simp only [Statement.simplifyIf, Edited.value_bind]
  split
  next truth known =>
    refine X.exec_decideIf (X.truth_truthiness ?_) yes no span
    exact (Option.ite_none_right_eq_some.1 known).2
  next => exact X.exec_simplifyBranches settings _

/-! ## An execution that can be run -/

/-- Comparing booleans, `false` before `true`. -/
private def compareBools (left right : Bool) : BinaryOp → Bool
  | .equal | .strictEqual => left == right
  | .notEqual | .strictNotEqual => left != right
  | .lessThan => !left && right
  | .greaterThanEqual => left || !right
  | .greaterThan => left && !right
  | .lessThanEqual => !left || right
  | _ => false

/-- All values are booleans. A name is looked up in a table and noted down; one that is not in the
table stops the run. Calls evaluate their parts, and all other statements jump. -/
def noting (table : String → Option Bool) : Execution where
  Run := StateT (List String) Option
  Value := Bool
  isTruthy := id
  ofBool := id
  isTruthy_ofBool _ := rfl
  compare op left right := return compareBools left right op
  compare_inverse {op inverse} isInverse left right := by
    rw [map_pure]
    cases op <;> cases isInverse <;> cases left <;> cases right <;> rfl
  number n := return n.isTruthy
  string s := return !s.isEmpty
  regex _ _ := return true
  null := return false
  this := return true
  ident id := do
    modify (· ++ [id.name])
    return ← (table id.name : Option Bool)
  array items := do
    items.forM fun item => Functor.discard (item.getD (return false))
    return true
  object properties := do
    properties.forM fun property => Functor.discard property.2.2
    return true
  function _ := return true
  member object _ := object
  index object key := do
    let _ ← object
    key
  call callee args := do
    let _ ← callee.value
    args.forM Functor.discard
    return false
  new callee args := do
    let _ ← callee
    (args.getD []).forM Functor.discard
    return true
  unary op operand := do
    let v ← operand.value
    return v && op ≠ .void
  update _ _ operand := operand.value
  binary _ left right := do
    let _ ← left.value
    right.value
  isBoolean_delete _ := ⟨_, (id_map _).symm⟩
  isBoolean_word _ _ _ := ⟨_, (id_map _).symm⟩
  ofNumber n := n.isTruthy
  ofString s := !s.isEmpty
  nullValue := false
  undefined := false
  number_eq _ := rfl
  string_eq _ := rfl
  null_eq := rfl
  void_eq _ := by simp
  isTruthy_ofNumber _ := rfl
  isTruthy_ofString _ := rfl
  isTruthy_nullValue := rfl
  isTruthy_undefined := rfl
  Jump := Unit
  other _ := return .abrupt ()

/-- `if(!(a<b)){}else c` looks at `c` only if `a` comes before `b`. -/
private def sampleIf : Statement :=
  let name (n : String) : Expr := .synthetic (.ident ⟨n, .synthetic, none⟩)
  .ifElse (.unary .not (.binary .lessThan (name "a") (name "b"))) (.block ⟨[], .synthetic⟩)
    (some (.expr (name "c"))) .synthetic

example : ((noting fun n => some (n = "b")).exec sampleIf).run [] = some (.normal, ["a", "b", "c"]) :=
  rfl

example : ((noting fun n => some (n = "b")).exec (sampleIf.simplifyIf {}).value).run [] =
    some (.normal, ["a", "b", "c"]) :=
  rfl

end Execution

end Minifier
