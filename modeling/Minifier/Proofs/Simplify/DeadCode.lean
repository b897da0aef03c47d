import Mathlib.Data.Finset.Dedup
import Mathlib.Data.Finset.Lattice.Lemmas
import Minifier.Proofs.Meaning.Branches
import Minifier.Proofs.Simplify.Hoisted
import Minifier.Proofs.Syntax.Parts

/-!
# What is left of code that never runs

Statements after a jump, the body of a loop whose test is never true, and the branch of an `if` that a
constant test leaves out are never executed. What they declare is in effect all the same, so it has to
stay: the names of their `var` statements, and their functions in order, since of several functions of
one name the last one counts.

Dropping what comes after a jump keeps both (`dropUnreachable_declares`), and so does dropping a loop.
Deciding an `if` keeps the names, but puts the functions of the branch that is left out after those of
the one that stays. Where the first branch is left out and both declare a function of one name, another
function counts in the end (`winner_decideIf_both`); in all other cases the same one does
(`winner_decideIf`).
-/

set_option autoImplicit false

namespace Minifier

open Edited Statement List

variable (statements : List Statement) (s yes : Statement) (functions : List Function) (span : Span)
  (test : Expr) (no : Option Statement) (settings : Settings) (body : Statement)

/-! ## Declaring the same -/

/-- The names that statements declare by `var`, outside nested functions. -/
def varNamesIn (statements : List Statement) : Finset String :=
  ((varsIn statements).map (·.name.name)).toFinset

/-- Statements that declare the same names by `var`, and the same functions in the same order. -/
structure DeclareAlike (a b : List Statement) : Prop where
  names : varNamesIn a = varNamesIn b
  functions : functionsIn a = functionsIn b

@[simp] theorem varNamesIn_append (a b : List Statement) :
    varNamesIn (a ++ b) = varNamesIn a ∪ varNamesIn b := by
  simp [varNamesIn, varsIn, toFinset_append]

@[simp] theorem functionsIn_append (a b : List Statement) :
    functionsIn (a ++ b) = functionsIn a ++ functionsIn b :=
  collect_append ..

theorem varNamesIn_eq :
    varNamesIn statements = ((varDeclsOf statements).map (·.name.name)).toFinset := by
  rw [varNamesIn, varDeclsOf_eq]

namespace DeclareAlike

variable {a a' b b' c : List Statement}

theorem refl (a : List Statement) : DeclareAlike a a := ⟨rfl, rfl⟩

theorem trans (first : DeclareAlike a b) (second : DeclareAlike b c) : DeclareAlike a c :=
  ⟨first.names.trans second.names, first.functions.trans second.functions⟩

theorem append (first : DeclareAlike a a') (second : DeclareAlike b b') :
    DeclareAlike (a ++ b) (a' ++ b') where
  names := by rw [varNamesIn_append, varNamesIn_append, first.names, second.names]
  functions := by rw [functionsIn_append, functionsIn_append, first.functions, second.functions]

theorem flatMap {f : Statement → List Statement} (each : ∀ s, DeclareAlike (f s) [s])
    (statements : List Statement) : DeclareAlike (statements.flatMap f) statements := by
  induction statements with
  | nil => exact .refl []
  | cons s rest ih => exact (each s).append ih

/-- It is enough to compare the declarations that are collected. -/
theorem of_collected
    (names : ((varDeclsOf a).map (·.name.name)).toFinset = ((varDeclsOf b).map (·.name.name)).toFinset)
    (functions : functionDeclsOf a = functionDeclsOf b) : DeclareAlike a b where
  names := by rw [varNamesIn_eq, varNamesIn_eq, names]
  functions := by rw [← functionDeclsOf_eq, ← functionDeclsOf_eq, functions]

end DeclareAlike

/-! ## What survives -/

/-- Statements that are in effect without being executed, or do nothing. -/
def Statement.isInert : Statement → Bool
  | function _ => true
  | var vars => vars.decls.all (·.init.isNone)
  | comment .important _ _ => true
  | _ => false

theorem varDeclsOf_functions : varDeclsOf (functions.map Statement.function) = [] := by
  induction functions with
  | nil => simp [varDeclsOf]
  | cons fn rest ih => simp [varDeclsOf, varDecls, ih]

theorem functionDeclsOf_functions : functionDeclsOf (functions.map Statement.function) = functions := by
  induction functions with
  | nil => simp [functionDeclsOf]
  | cons fn rest ih => simp [functionDeclsOf, functionDecls, ih]

/-- Names that are there already can be left out. -/
theorem toFinset_foldl_addDecl (decls more : List VarDecl) :
    ((more.foldl addDecl decls).map (·.name.name)).toFinset =
      ((decls ++ more).map (·.name.name)).toFinset := by
  ext name
  simp only [mem_toFinset, mem_map]
  constructor
  · rintro ⟨d, mem, rfl⟩
    exact ⟨d, mem_append.mpr (mem_foldl_addDecl mem), rfl⟩
  · rintro ⟨d, mem, rfl⟩
    exact exists_mem_foldl_addDecl mem

/-- The names of a statement, each once and without its initializer. -/
def Statement.bareNames (s : Statement) : List VarDecl := (s.varDecls.map VarDecl.nameOnly).foldl addDecl []

theorem Statement.init_bareNames : ∀ d ∈ s.bareNames, d.init = none := by
  intro d mem
  obtain old | new := mem_foldl_addDecl mem
  · cases old
  · obtain ⟨d, -, rfl⟩ := mem_map.mp new
    rfl

theorem Statement.survivors_eq : s.survivors = (match s.bareNames with
      | [] => []
      | first :: rest => [.var ⟨first :: rest, first.span⟩]) ++ s.functionDecls.map Statement.function := by
  unfold survivors
  rw [← bareNames]
  cases s.bareNames <;> rfl

theorem Statement.survivors_declareAlike : DeclareAlike s.survivors [s] := by
  have kept : (varDeclsOf s.survivors) = s.bareNames := by
    rw [survivors_eq, varDeclsOf_append, varDeclsOf_functions]
    cases s.bareNames <;> simp [varDeclsOf, varDecls]
  have names : (s.bareNames.map (·.name.name)).toFinset = (s.varDecls.map (·.name.name)).toFinset := by
    rw [bareNames, toFinset_foldl_addDecl]
    simp [Function.comp_def, VarDecl.nameOnly]
  refine .of_collected ?_ ?_
  · rw [kept, names]
    simp [varDeclsOf]
  · rw [survivors_eq, functionDeclsOf_append, functionDeclsOf_functions]
    cases s.bareNames <;> simp [functionDeclsOf, functionDecls]

theorem Statement.isInert_survivors : ∀ kept ∈ s.survivors, kept.isInert := by
  have plain := s.init_bareNames
  rw [survivors_eq]
  intro kept mem
  obtain mem | mem := mem_append.mp mem
  · cases names : s.bareNames with
    | nil => simp [names] at mem
    | cons first rest =>
      rw [names] at plain mem
      rw [mem_singleton.mp mem, isInert, all_eq_true]
      intro d mem
      rw [plain d mem]
      rfl
  · obtain ⟨fn, -, rfl⟩ := mem_map.mp mem
    rfl

theorem Statement.afterJump_declareAlike : DeclareAlike s.afterJump [s] := by
  unfold afterJump
  split
  · exact .refl _
  · exact .refl _
  · exact s.survivors_declareAlike

theorem Statement.isInert_afterJump : ∀ kept ∈ s.afterJump, kept.isInert := by
  unfold afterJump
  split
  · simp [isInert]
  · simp [isInert]
  · exact s.isInert_survivors

/-! ## Joined `var` statements -/

theorem joinVars?_eq_some {a b joined : Statement} (found : joinVars? a b = some joined) :
    ∃ first second, a = .var first ∧ b = .var second ∧
      joined = .var ⟨first.decls ++ second.decls, first.span.combine second.span⟩ := by
  unfold joinVars? at found
  split at found
  · exact ⟨_, _, rfl, rfl, (Option.some.inj found).symm⟩
  · cases found

theorem joinVars_declareAlike : DeclareAlike (joinVars statements).value statements := by
  have from_ : ∀ rest s, DeclareAlike (joinFrom joinVars? s rest) (s :: rest) := by
    intro rest s
    fun_induction joinFrom joinVars? s rest with
    | case1 => exact .refl _
    | case2 s next rest joined found ih =>
      obtain ⟨first, second, rfl, rfl, rfl⟩ := joinVars?_eq_some found
      refine ih.trans (.of_collected ?_ ?_)
      · cases first
        cases second
        simp [varDeclsOf, varDecls]
      · simp [functionDeclsOf, functionDecls]
    | case3 s next rest found ih => exact (DeclareAlike.refl [s]).append ih
  cases statements with
  | nil => exact .refl []
  | cons s rest => exact from_ rest s

theorem isInert_joinVars {statements : List Statement} (inert : ∀ s ∈ statements, s.isInert) :
    ∀ s ∈ (joinVars statements).value, s.isInert := by
  have from_ : ∀ rest s, (∀ t ∈ s :: rest, t.isInert) → ∀ t ∈ joinFrom joinVars? s rest, t.isInert := by
    intro rest s inert
    fun_induction joinFrom joinVars? s rest with
    | case1 => exact inert
    | case2 s next rest joined found ih =>
      obtain ⟨first, second, rfl, rfl, rfl⟩ := joinVars?_eq_some found
      simp only [forall_mem_cons, isInert] at inert
      refine ih (forall_mem_cons.mpr ⟨?_, inert.2.2⟩)
      simp only [isInert, all_append, inert.1, inert.2.1, Bool.and_self]
    | case3 s next rest found ih =>
      rw [forall_mem_cons] at inert ⊢
      exact ⟨inert.1, ih inert.2⟩
  cases statements with
  | nil => exact inert
  | cons s rest => exact from_ rest s inert

/-! ## Jumps and loops -/

/-- The part of a list that is reached ends with its first jump. -/
theorem splitAtJump_fst :
    (splitAtJump statements).1 = statements.take (statements.findIdx isJump + 1) := by
  induction statements with
  | nil => rfl
  | cons s rest ih =>
    rw [splitAtJump, findIdx_cons]
    cases isJump s with
    | true => simp
    | false => simp [ih]

/-- What comes after the first jump is replaced by what survives of it. -/
theorem dropUnreachable_value : (dropUnreachable statements).1.value = (splitAtJump statements).1 ++
      (joinVars ((splitAtJump statements).2.flatMap afterJump)).value := by
  have whole := splitAtJump_append statements
  unfold dropUnreachable
  split
  next reached parts =>
    rw [parts] at whole
    simpa [parts, joinVars, joinNeighbours] using whole.symm
  next reached dead _ parts => rw [parts, value_of]

theorem dropUnreachable_declareAlike :
    DeclareAlike (dropUnreachable statements).1.value statements := by
  have dead := (joinVars_declareAlike ((splitAtJump statements).2.flatMap afterJump)).trans
    (.flatMap afterJump_declareAlike _)
  have whole := (DeclareAlike.refl (splitAtJump statements).1).append dead
  rwa [splitAtJump_append, ← dropUnreachable_value] at whole

theorem isInert_dead :
    ∀ s ∈ (joinVars ((splitAtJump statements).2.flatMap afterJump)).value, s.isInert := by
  apply isInert_joinVars
  intro s mem
  obtain ⟨dead, -, mem⟩ := mem_flatMap.mp mem
  exact dead.isInert_afterJump s mem

theorem Statement.ofList_declareAlike (statements : List Statement) :
    DeclareAlike [.ofList span statements] statements := by
  match statements with
  | [] =>
    exact .of_collected (by simp [ofList, varDeclsOf, varDecls])
      (by simp [ofList, functionDeclsOf, functionDecls])
  | [only] => exact .refl _
  | first :: second :: rest =>
    exact .of_collected (by simp [ofList, varDeclsOf, varDecls])
      (by simp [ofList, functionDeclsOf, functionDecls])

/-- A loop declares what its body declares. -/
theorem Statement.whileLoop_declareAlike (span : Span) :
    DeclareAlike [body] [.whileLoop test body span] :=
  .of_collected (by simp [varDeclsOf, varDecls]) (by simp [functionDeclsOf, functionDecls])

theorem Statement.simplifyWhile_declareAlike (test : Expr) (body : Statement) (span : Span) :
    DeclareAlike [(simplifyWhile settings (.whileLoop test body span)).value]
      [.whileLoop test body span] := by
  simp only [simplifyWhile, value_bind]
  split
  · exact ((ofList_declareAlike span body.survivors).trans body.survivors_declareAlike).trans
      (whileLoop_declareAlike test body span)
  · rename_i stays
    generalize (settings.reduce .top true test).value = reduced
    exact .of_collected (by simp [varDeclsOf, varDecls]) (by simp [functionDeclsOf, functionDecls])

/-! ## Constant tests -/

namespace Expr

theorem truthiness?_not (e : Expr) : (unary .not e).truthiness? = e.truthiness?.map not := by
  simp only [unary, truthiness?]

/-- The opposite of a constant is a constant of the opposite truth. -/
theorem truthiness?_negated {e : Expr} {truth : Bool} (known : e.truthiness? = some truth)
    (short : Bool) (old new : Slot) : (e.negated short old new).truthiness? = some !truth := by
  -- Most expressions get a `!`.
  have wrapped : (unary .not e).truthiness? = some !truth := by rw [truthiness?_not, known, Option.map_some]
  obtain ⟨form, span⟩ := e
  cases form
  case boolean value =>
    cases known
    simp [negated, truthiness?]
  case unary op operand =>
    cases op
    case not =>
      obtain ⟨inner, found, rfl⟩ := Option.map_eq_some_iff.mp known
      simp [negated, found]
    all_goals simpa only [negated] using wrapped
  case binary | conditional => cases known
  all_goals simpa only [negated] using wrapped

/-- Constants have no negations to get rid of. -/
theorem value_reduce_of_isConstant {e : Expr} (constant : e.isConstant) (short : Bool) (slot : Slot)
    (condition : Bool) : (e.reduce short slot condition).value = e := by
  obtain ⟨form, span⟩ := e
  cases form
  case unary op operand =>
    simp only [isConstant, isVoidZero] at constant
    split at constant
    next value span isVoid =>
      cases isVoid
      rfl
    next => cases constant
  case number | string | boolean | null => rfl
  all_goals exact absurd constant (by simp [isConstant, isVoidZero])

/-- Getting rid of negations keeps a constant test constant. -/
theorem truthiness?_reduce {e : Expr} {truth : Bool} (known : e.truthiness? = some truth)
    (short : Bool) (slot : Slot) (condition : Bool) :
    (e.reduce short slot condition).value.truthiness? = some truth := by
  fun_induction truthiness? e generalizing truth slot condition with
  | case1 | case2 | case3 | case4 => exact known
  | case5 operand span constant =>
    cases known
    simp only [Expr.reduce, Form.reduceParts, value_bind, value_pure, reduceNot?,
      Edited.orElse, value_reduce_of_isConstant constant, truthiness?, constant, if_true]
  | case7 operand span ih =>
    obtain ⟨inner, found, rfl⟩ := Option.map_eq_some_iff.mp known
    have reduced := ih found .unaryOperand true
    simp only [Expr.reduce, Form.reduceParts, value_bind, value_pure, decide_true]
    generalize (operand.reduce short .unaryOperand true).value = operand' at reduced
    simp only [reduceNot?]
    split
    · simpa [Edited.orElse] using truthiness?_negated reduced short .unaryOperand slot
    · simp [Edited.orElse, truthiness?, reduced]
  | case6 | case8 => cases known

end Expr

/-- Under the settings, which may switch the reduction off. -/
theorem Settings.truthiness?_reduce {e : Expr} {truth : Bool} (known : e.truthiness? = some truth)
    (slot : Slot) (condition : Bool) :
    (settings.reduce slot condition e).value.truthiness? = some truth :=
  when_value (fun reduced : Expr => reduced.truthiness? = some truth) _ _ e known
    (Expr.truthiness?_reduce known settings.shortBooleans slot condition)

/-! ## Dead code -/

/-- A list from which unreachable statements are dropped is the same up to its first jump, and after
that has only statements that need not be executed. It declares the same names by `var` and the same
functions in the same order. A loop and what becomes of it declare the same as well, and a loop whose
test is never true is replaced by statements that need not be executed. -/
theorem dropUnreachable_declares (statements : List Statement) :
    (∃ kept, (dropUnreachable statements).1.value =
        statements.take (statements.findIdx isJump + 1) ++ kept ∧
      (∀ s ∈ kept, s.isInert) ∧ (statements.length ≤ statements.findIdx isJump + 1 → kept = [])) ∧
    DeclareAlike (dropUnreachable statements).1.value statements ∧
    ∀ (settings : Settings) (test : Expr) (body : Statement) (span : Span),
      DeclareAlike [(simplifyWhile settings (.whileLoop test body span)).value]
        [.whileLoop test body span] ∧ (settings.removes .foldTests → test.truthiness? = some false →
        ∃ kept, (simplifyWhile settings (.whileLoop test body span)).value = .ofList span kept ∧
          ∀ s ∈ kept, s.isInert) := by
  refine ⟨⟨_, ?_, isInert_dead statements, ?_⟩, dropUnreachable_declareAlike statements,
    fun settings test body span => ⟨simplifyWhile_declareAlike settings test body span, ?_⟩⟩
  · rw [dropUnreachable_value, splitAtJump_fst]
  · intro short
    have whole := splitAtJump_append statements
    rw [splitAtJump_fst, take_of_length_le short, append_right_eq_self] at whole
    rw [whole]
    rfl
  · intro folds never
    have never := settings.truthiness?_reduce never .top true
    refine ⟨body.survivors, ?_, body.isInert_survivors⟩
    simp only [simplifyWhile, value_bind, folds, never, decide_true, Bool.and_self, if_true,
      value_of]

/-- `f();return;var a=1;{function g(){}}/*!c*/` -/
private def deadSample : List Statement :=
  let name (n : String) : Ident := ⟨n, .synthetic, none⟩
  [.expr (.synthetic (.call (.synthetic (.ident (name "f"))) [])), .returnWith none .synthetic,
    .var ⟨[⟨name "a", some (.number .zero), .synthetic⟩], .synthetic⟩,
    .block ⟨[.function ⟨.declaration, some (name "g"), [], default, none, .synthetic⟩], .synthetic⟩,
    .comment .important "/*!c*/" .synthetic]

/-- The body of a loop with the test `!1` is left out but for its declarations. -/
theorem dropUnreachable_declares_sample :
    DeclareAlike (dropUnreachable deadSample).1.value deadSample ∧
      ∃ kept, (simplifyWhile {} (.whileLoop (.unary .not (.synthetic (.boolean true)))
        (.block ⟨deadSample, .synthetic⟩) .synthetic)).value = .ofList .synthetic kept ∧
          ∀ s ∈ kept, s.isInert :=
  have keeps := dropUnreachable_declares deadSample
  ⟨keeps.2.1, (keeps.2.2 {} _ _ _).2 rfl rfl⟩

example : varNamesIn (dropUnreachable deadSample).1.value = {"a"} := by
  rw [varNamesIn_eq]
  rfl

/-! ## Decided branches -/

/-- The function that a name stands for if functions are declared in this order: the last one of the
name. -/
def winner (name : String) (functions : List Function) : Option Function :=
  functions.reverse.find? fun fn => fn.name.any (·.name = name)

theorem winner_append (name : String) (a b : List Function) :
    winner name (a ++ b) = (winner name b).or (winner name a) := by
  rw [winner, reverse_append, List.find?_append]
  rfl

theorem varNamesIn_ifElse :
    varNamesIn [.ifElse test yes no span] = varNamesIn [yes] ∪ varNamesIn no.toList := by
  rw [← varNamesIn_append, varNamesIn, varNamesIn, varsIn, varsIn, collect_singleton]
  rfl

theorem functionsIn_ifElse :
    functionsIn [.ifElse test yes no span] = functionsIn [yes] ++ functionsIn no.toList := by
  rw [← functionsIn_append, functionsIn, functionsIn, collect_singleton]
  rfl

/-- What becomes of an `if` with a constant test declares what the branch that is taken declares, and
then what the other one declares. -/
theorem Statement.decideIf_declareAlike (truth : Bool) (yes : Statement) (no : Option Statement)
    (span : Span) : DeclareAlike [decideIf truth yes no span]
      (if truth then [yes] ++ no.toList else no.toList ++ [yes]) := by
  refine (ofList_declareAlike span _).trans ?_
  cases truth with
  | true =>
    cases no with
    | none => exact .refl [yes]
    | some no => exact (DeclareAlike.refl [yes]).append no.survivors_declareAlike
  | false => exact (DeclareAlike.refl no.toList).append yes.survivors_declareAlike

/-- Deciding an `if` declares the same names by `var`. A name stands for the same function, unless the
first branch is left out and both branches declare a function of that name. -/
theorem winner_decideIf (truth : Bool) (test : Expr) (yes : Statement) (no : Option Statement)
    (span : Span) (name : String) :
    varNamesIn [decideIf truth yes no span] = varNamesIn [.ifElse test yes no span] ∧
      (truth = true ∨ winner name (functionsIn [yes]) = none ∨
          winner name (functionsIn no.toList) = none →
        winner name (functionsIn [decideIf truth yes no span]) =
          winner name (functionsIn [.ifElse test yes no span])) := by
  have decided := decideIf_declareAlike truth yes no span
  rw [decided.names, decided.functions, functionsIn_ifElse, varNamesIn_ifElse]
  cases truth with
  | true => simp only [if_true, functionsIn_append, varNamesIn_append, implies_true, and_self]
  | false =>
    simp only [Bool.false_eq_true, false_or, if_false, functionsIn_append, varNamesIn_append,
      winner_append]
    refine ⟨Finset.union_comm _ _, fun single => ?_⟩
    obtain none | none := single <;> simp [none]

/-- `{function f(param){}}` -/
private def declaring (param : String) : Statement :=
  let name (n : String) : Ident := ⟨n, .synthetic, none⟩
  .block ⟨[.function ⟨.declaration, some (name "f"), [name param], default, none, .synthetic⟩],
    .synthetic⟩

private def params (fn : Function) : List String := fn.params.map (·.name)

/-- In `if(true){function f(a){}}else{function f(b){}}` the second function counts, and in what becomes
of it as well. -/
theorem winner_decideIf_sample :
    let decided := decideIf true (declaring "a") (some (declaring "b")) .synthetic
    winner "f" (functionsIn [decided]) ≠ winner "f" (functionsIn [declaring "a"]) ∧
      winner "f" (functionsIn [decided]) =
        winner "f" (functionsIn [.ifElse ⟨.boolean true, .synthetic⟩ (declaring "a") (some (declaring "b"))
          .synthetic]) := by
  refine ⟨?_, (winner_decideIf true _ _ _ _ _).2 (.inl rfl)⟩
  rw [← functionDeclsOf_eq, ← functionDeclsOf_eq]
  exact mt (congrArg (Option.map params)) (by decide)

/-- In `if(0){function f(a){}}else{function f(b){}}` the second function counts, and in what becomes
of it the first one. -/
theorem winner_decideIf_both :
    winner "f" (functionsIn [decideIf false (declaring "a") (some (declaring "b")) .synthetic]) ≠
      winner "f" (functionsIn [.ifElse (.number .zero) (declaring "a") (some (declaring "b"))
        .synthetic]) := by
  rw [← functionDeclsOf_eq, ← functionDeclsOf_eq]
  exact mt (congrArg (Option.map params)) (by decide)

end Minifier
