import Mathlib.Data.List.Infix
import Minifier.Proofs.Simplify.Gathered
import Minifier.Proofs.Stages

/-!
# Directives stay

A body may start with directives, such as the one that asks for strict mode. Whatever becomes of a
program, its body and the bodies of its functions still start with the directives they started with,
in their order (`Program.directives_kept`). A directive may be added, if what stood before a string
goes. Only rules that minify code do that: binding a program and choosing its names add none. A
conditional comment ends what is known to stay, since functions are moved in front of it.

All steps look for the first statement that is neither a directive nor an important comment, and leave
what is before it alone. So the head of a list is followed through the rules for lists (`KeepsHead`),
and the heads of all functions through the walks that apply them (`KeepsHeads`). A walk without rules
for lists leaves the head as it is (`Walk.IsMild`).
-/

set_option autoImplicit false

namespace Minifier

open Statement ScopeTree List

/-! ## Heads of lists -/

/-- A list starts with the directives and important comments that another one starts with. -/
def KeepsHead (old new : List Statement) : Prop :=
  old.takeWhile (·.isHead) <+: new.takeWhile (·.isHead)

/-- The head of a list consists of strings and of comments to keep. -/
theorem Statement.isHead_cases {s : Statement} (isHead : s.isHead = true) :
    (∃ value span, s = .expr ⟨.string value, span⟩) ∨ ∃ text span, s = .comment .important text span := by
  match s, isHead with
  | .expr ⟨.string value, span⟩, _ => exact .inl ⟨value, span, rfl⟩
  | .comment .important text span, _ => exact .inr ⟨text, span, rfl⟩

/-- The head may stand before the declarations of a list. -/
theorem Statement.isLeading_of_isHead {s : Statement} (isHead : s.isHead = true) : s.isLeading = true := by
  obtain ⟨_, _, rfl⟩ | ⟨_, _, rfl⟩ := isHead_cases isHead <;> rfl

namespace KeepsHead

variable {s last : Statement} (settings : Settings) (b : Block) (t : ScopeTree)

variable {l l' l'' : List Statement}

theorem refl (l : List Statement) : KeepsHead l l := prefix_rfl

theorem trans (first : KeepsHead l l') (second : KeepsHead l' l'') : KeepsHead l l'' :=
  List.IsPrefix.trans first second

/-- A list that starts with the head of another keeps it. -/
theorem of_starts (starts : l.takeWhile (·.isHead) <+: l') : KeepsHead l l' := by
  obtain ⟨rest, rfl⟩ := starts
  unfold KeepsHead
  rw [takeWhile_append_of_pos (all_eq_true.mp all_takeWhile)]
  exact prefix_append _ _

/-- One statement of a head, and the rest. -/
theorem starts_cons {rest new : List Statement}
    (goes : s.isHead = true → ∃ more, new = s :: more ∧ rest.takeWhile (·.isHead) <+: more) :
    (s :: rest).takeWhile (·.isHead) <+: new := by
  rw [takeWhile_cons]
  split
  · rename_i isHead
    obtain ⟨more, rfl, starts⟩ := goes isHead
    exact (prefix_cons_inj s).mpr starts
  · exact nil_prefix

/-- What comes in the place of a statement outside the head, and of what is after it. -/
theorem replaced (front : List Statement) (other : s.isHead = false) (rest more : List Statement) :
    KeepsHead (front ++ s :: rest) (front ++ more) := by
  refine of_starts (List.IsPrefix.trans ?_ (prefix_append front more))
  induction front with
  | nil => simp [other]
  | cons first front ih => exact starts_cons fun _ => ⟨_, rfl, ih⟩

/-- A rule that goes on after every statement of the head. -/
theorem of_cons {f : List Statement → List Statement}
    (passes : ∀ s rest, s.isHead = true → f (s :: rest) = s :: f rest) (l : List Statement) :
    KeepsHead l (f l) := by
  apply of_starts
  induction l with
  | nil => exact nil_prefix
  | cons s rest ih => exact starts_cons fun isHead => ⟨_, passes s rest isHead, ih⟩

/-! ## Rules for lists -/

variable (l)

/-- Opening blocks. -/
theorem unnestAll : KeepsHead l (unnestAll l) :=
  of_cons (fun _ _ isHead => unnestAll_cons (isLeading_of_isHead isHead)) l

/-- Dropping empty statements. -/
theorem dropEmpty : KeepsHead l (dropEmpty l).value :=
  of_cons (f := fun l => (Minifier.dropEmpty l).value)
    (fun _ _ isHead => dropEmpty_cons (isLeading_of_isHead isHead)) l

/-- Dropping what comes after a jump. -/
theorem dropUnreachable : KeepsHead l (dropUnreachable l).1.value :=
  of_cons (f := fun l => (Minifier.dropUnreachable l).1.value) (fun _ _ isHead =>
    dropUnreachable_cons (isJump_of_isLeading (isLeading_of_isHead isHead))) l

/-- Joining statements, none of which is in the head. -/
theorem joinNeighbours {join? : Statement → Statement → Option Statement}
    (alone : ∀ s next, s.isHead = true → join? s next = none) (l : List Statement) :
    KeepsHead l (joinNeighbours join? l).value := by
  refine of_cons (f := fun l => (Minifier.joinNeighbours join? l).value) (fun s rest isHead => ?_) l
  cases rest with
  | nil => rfl
  | cons next rest => simp only [Minifier.joinNeighbours, joinFrom, alone s next isHead]

/-- Joining `var` statements. -/
theorem joinVars : KeepsHead l (joinVars l).value := by
  refine joinNeighbours (fun s next isHead => ?_) l
  obtain ⟨_, _, rfl⟩ | ⟨_, _, rfl⟩ := isHead_cases isHead <;> rfl

/-- Joining conditional comments. -/
theorem joinComments : KeepsHead l (joinComments l).value := by
  refine joinNeighbours (fun s next isHead => ?_) l
  obtain ⟨_, _, rfl⟩ | ⟨_, _, rfl⟩ := isHead_cases isHead <;> rfl

/-- Dropping functions that nothing calls. -/
theorem dropFunctions : KeepsHead l (t.dropFunctions l).1.value := by
  refine of_cons (f := fun l => (t.dropFunctions l).1.value) (fun s rest isHead => ?_) l
  rcases t.dropFunctions_cons s rest with ⟨_, rfl, -⟩ | ⟨kept, -⟩
  · cases isHead
  · exact kept

/-- Returning a value at once. -/
theorem returnInitializer : KeepsHead l (t.returnInitializer l).1.value := by
  rcases t.returnInitializer_cases l with ⟨same, -⟩ | ⟨r, _, _, rfl, -, value, -⟩
  · rw [same]
    exact refl l
  · rw [value]
    exact replaced r.before rfl _ _

/-- Folding returns. -/
theorem foldReturns : KeepsHead l (foldReturns settings l).value := by
  refine of_cons (f := fun l => (Minifier.foldReturns settings l).value) (fun s rest isHead => ?_) l
  exact foldReturns_cons settings (by rintro _ _ _ _ rfl; cases isHead)

variable {l}

/-- What comes in the place of the last statement, if that is not in the head. -/
theorem dropLast (isLast : l.getLast? = some last) (other : last.isHead = false)
    (more : List Statement) : KeepsHead l (l.dropLast ++ more) := by
  obtain ⟨front, rfl⟩ := List.getLast?_eq_some_iff.mp isLast
  rw [dropLast_concat]
  exact replaced front other [] more

/-- Settling the last statement. -/
theorem settleFinal (folded : Edited (List Statement)) :
    KeepsHead folded.value (settleFinal settings folded).value := by
  unfold Minifier.settleFinal
  split
  · exact refl _
  · rename_i last isLast
    dsimp only
    split
    · rename_i unfolded found
      have other : last.isHead = false := by
        split at found
        · cases last <;> first | rfl | cases found
        · cases found
      split
      · exact dropLast isLast other _
      · exact refl _
    · exact refl _

/-- The whole end of a function. -/
theorem simplifyEnd (l : List Statement) : KeepsHead l (simplifyEnd settings l).value := by
  have dropped : KeepsHead l (dropFinalReturn l).value := by
    unfold dropFinalReturn
    split
    · rename_i isLast
      simpa using dropLast isLast rfl []
    · exact refl l
  have folds (l : List Statement) : KeepsHead l (foldFinalReturn settings l).value := by
    unfold foldFinalReturn
    split
    · exact refl l
    · rename_i folded found
      obtain ⟨last, isLast, isFolded⟩ := Option.bind_eq_some_iff.mp found
      have other : last.isHead = false := by cases last <;> first | rfl | cases isFolded
      exact (dropLast isLast other [folded]).trans ((foldReturns settings _).trans (settleFinal settings _))
  simp only [Minifier.simplifyEnd, Edited.value_bind]
  have first := Edited.when_value (KeepsHead l) (settings.applies .dropFinalReturn) dropFinalReturn l
    (refl l) dropped
  exact Edited.when_value (KeepsHead l) _ _ _ first (first.trans (folds _))

/-- The head of a list is what comes before its insertion point. -/
theorem takeWhile_isHead : b.statements.takeWhile (·.isHead) = b.statements.take b.insertionPoint :=
  prefix_iff_eq_take.mp (List.takeWhile_prefix _)

/-- Ordering the declarations of a block. -/
theorem orderDeclarations : KeepsHead b.statements (b.orderDeclarations settings).value.statements := by
  refine b.orderDeclarations_steps settings (KeepsHead b.statements)
    (fun index l => b.statements.takeWhile (·.isHead) <+: l.take index) _
    (Edited.when_value _ _ _ _ (refl _) (unnestAll _)) (fun l known => known.trans (joinVars l))
    (fun l index isIndex known => ?_) fun index l starts => ⟨of_starts (starts.trans (List.take_prefix _ _)), ?_⟩
  · have head := takeWhile_isHead ⟨l, b.span⟩
    have top := Block.take_hoistFunctions ⟨l, b.span⟩
    rw [isIndex] at head top
    rw [KeepsHead, head] at known
    exact ⟨known, fun _ => top ▸ known⟩
  · apply of_starts
    unfold gatherVars
    split
    · exact starts.trans (List.take_prefix _ _)
    · generalize (l.drop index).span Statement.isFunction = parts
      exact starts.trans ((prefix_append _ _).trans (prefix_append _ _))

/-- A walk over statements that does not change those of a head. -/
theorem walkStatements {σ : Type} {w : Walk σ}
    (still : ∀ (s : Statement) state, s.isHead = true → (s.walk w state).1 = s) (l : List Statement) (state : σ) :
    KeepsHead l (walkStatements w l state).1 := by
  apply of_starts
  induction l generalizing state with
  | nil => exact nil_prefix
  | cons s rest ih =>
    exact starts_cons fun isHead => ⟨_, congrArg (· :: _) (still s state isHead), ih _⟩

/-- A walk through a block, before its rules. -/
theorem walk {σ : Type} {w : Walk σ} (still : ∀ (s : Statement) state, s.isHead = true → (s.walk w state).1 = s)
    (rules : ∀ l state, KeepsHead l (w.block l state).1) (b : Block) (state : σ) :
    KeepsHead b.statements (b.walk w state).1.statements := by
  obtain ⟨statements, span⟩ := b
  exact (walkStatements still statements state).trans (rules _ _)

end KeepsHead

/-- A list keeps its head. If `same`, nothing is added to it. -/
def HoldsHead (same : Prop) (old new : List Statement) : Prop :=
  KeepsHead old new ∧ (same → new.takeWhile (·.isHead) = old.takeWhile (·.isHead))

namespace HoldsHead

variable {same : Prop} {l l' l'' : List Statement}

/-- Heads that are the same. -/
theorem of_eq (isSame : l'.takeWhile (·.isHead) = l.takeWhile (·.isHead)) : HoldsHead same l l' :=
  ⟨by rw [KeepsHead, isSame], fun _ => isSame⟩

/-- Without the condition it is enough to keep the head. -/
theorem of_not (changes : ¬ same) (keeps : KeepsHead l l') : HoldsHead same l l' :=
  ⟨keeps, fun isSame => absurd isSame changes⟩

theorem trans (first : HoldsHead same l l') (second : HoldsHead same l' l'') : HoldsHead same l l'' :=
  ⟨first.1.trans second.1, fun isSame => (second.2 isSame).trans (first.2 isSame)⟩

/-- Declarations come right after the head. -/
theorem declareFirst (b : Block) (decls : List VarDecl) :
    HoldsHead same b.statements (b.declareFirst decls).statements := by
  apply of_eq
  cases decls with
  | nil => rfl
  | cons d decls =>
    have heads : ∀ s ∈ b.statements.take b.insertionPoint, s.isHead = true := by
      rw [← KeepsHead.takeWhile_isHead]
      exact fun _ => mem_takeWhile_imp
    have stops (vars : VarStatement) : (Statement.var vars).isHead = false := rfl
    rw [KeepsHead.takeWhile_isHead b]
    simp only [Block.declareFirst]
    split <;> simp [takeWhile_append_of_pos heads, stops]

end HoldsHead

/-! ## Heads of functions -/

section Functions

variable {same : Prop}

/-- Every function of a tree is one of another tree, and keeps its head. -/
def KeepsHeads (same : Prop) (old new : Multiset Function) : Prop :=
  ∀ fn ∈ new, ∃ before ∈ old, before.span = fn.span ∧
    HoldsHead same before.body.statements fn.body.statements

namespace KeepsHeads

variable {a a' b b' c : Multiset Function}

theorem refl (a : Multiset Function) : KeepsHeads same a a := fun fn mem => ⟨fn, mem, rfl, .of_eq rfl⟩

theorem zero (a : Multiset Function) : KeepsHeads same a 0 := fun _ mem => nomatch mem

theorem trans (first : KeepsHeads same a b) (second : KeepsHeads same b c) : KeepsHeads same a c := by
  intro fn mem
  obtain ⟨between, mem', span, head⟩ := second fn mem
  obtain ⟨before, mem'', span', head'⟩ := first between mem'
  exact ⟨before, mem'', span'.trans span, head'.trans head⟩

theorem add (first : KeepsHeads same a a') (second : KeepsHeads same b b') :
    KeepsHeads same (a + b) (a' + b') := by
  intro fn mem
  rcases Multiset.mem_add.mp mem with mem | mem
  · exact (first fn mem).imp fun _ ⟨mem, known⟩ => ⟨Multiset.mem_add.mpr (.inl mem), known⟩
  · exact (second fn mem).imp fun _ ⟨mem, known⟩ => ⟨Multiset.mem_add.mpr (.inr mem), known⟩

end KeepsHeads

theorem functions_isPlain : functions.IsPlain := {}

/-- Functions may go if the others keep their heads. -/
theorem functions_sheds : functions.Sheds fun new old => KeepsHeads same old new where
  refl := .refl
  trans second first := first.trans second
  add := .add
  expr _ := .zero _
  again _ := .zero _
  handler _ _ _ _ known := known
  withBody _ _ _ known := known
  ofHandler _ _ _ := .refl _
  ofWithBody _ _ _ := .refl _

/-- A function stays the same function, keeps its head, and so do the functions in it. -/
structure Function.KeepsHeads (same : Prop) (fn left : Function) : Prop where
  span : fn.span = left.span
  head : HoldsHead same fn.body.statements left.body.statements
  inside : Minifier.KeepsHeads same (fn.body.census functions) (left.body.census functions)

/-- A function keeps its head along with those inside it. -/
theorem Function.KeepsHeads.census {fn left : Function} (keeps : fn.KeepsHeads same left) :
    Minifier.KeepsHeads same (fn.census functions) (left.census functions) := by
  rw [Function.census_eq, Function.census_eq]
  refine .add (fun fn' mem => ?_) keeps.inside
  obtain rfl := Multiset.mem_singleton.mp mem
  exact ⟨fn, Multiset.mem_singleton_self fn, keeps.span, keeps.head⟩

/-- A walk without rules for statements that keeps heads where functions are entered and left. What is
not given holds of a walk that answers for no expression. -/
structure Walk.IsMild {σ : Type} (same : Prop) (w : Walk σ) : Prop where
  plain : w.statement = pure ∧ w.block = pure ∧ w.switchCase = pure := by exact ⟨rfl, rfl, rfl⟩
  answers : ∀ around e s, ((w.expr? around e s).1 = none ∧ (w.expr? around e s).2 = s) ∨
      ∃ e', (w.expr? around e s).1 = some e' ∧
        (e' = e ∨ e'.isString = false ∧ ∀ around, e'.census functions around = 0) := by
    exact fun _ _ _ => .inl ⟨rfl, rfl⟩
  still : ∀ (st : Statement) s, st.isHead = true → (st.walk w s).1 = st := by
    intro st s isHead
    obtain ⟨_, _, rfl⟩ | ⟨_, _, rfl⟩ := isHead_cases isHead <;> rfl
  enter : ∀ fn s, fn.span = (w.enterFunction fn s).1.span := by exact fun _ _ => rfl
  leave : ∀ (fn : Function) s, fn.KeepsHeads same (w.leaveFunction fn s).1 := by
    exact fun _ _ => ⟨rfl, .of_eq rfl, .refl _⟩

namespace Walk.IsMild

variable {σ : Type} {w : Walk σ} (mild : w.IsMild same)
include mild

/-- What is no string does not become one. -/
theorem isString (e : Expr) (around : Option Form) (s : σ) (isString : (e.walk w around s).1.isString = true) :
    e.isString = true := by
  obtain ⟨form, span⟩ := e
  have answered := mild.answers around ⟨form, span⟩ s
  simp only [Expr.walk, bind, StateT.bind] at isString
  generalize w.expr? around ⟨form, span⟩ s = r at answered isString
  obtain ⟨_ | e', s₁⟩ := r
  · cases form with
    | string value => rfl
    | call callee args => obtain ⟨_ | _, _⟩ := callee <;> cases isString
    | new callee args => cases args <;> cases isString
    | _ => cases isString
  · obtain ⟨⟨⟩, -⟩ | ⟨_, ⟨⟩, rfl | ⟨other, -⟩⟩ := answered
    · exact isString
    · cases other.symm.trans isString

/-- A walk of this kind makes no new heads. -/
theorem isHead (st : Statement) (s : σ) (isHead : (st.walk w s).1.isHead = true) : st.isHead = true := by
  rw [Statement.walk, mild.plain.1] at isHead
  split at isHead
  · exact isHead
  · cases st with
    | expr e =>
      change ((e.walk w none s).1.isString || false) = true at isHead
      show (e.isString || false) = true
      rw [Bool.or_false] at isHead ⊢
      exact mild.isString e none s isHead
    | var vars =>
      obtain ⟨_, _⟩ := vars
      cases isHead
    | ifElse test yes no span => cases no <;> cases isHead
    | tryCatch block handler finalizer span => cases finalizer <;> cases isHead
    | comment kind text span => exact isHead
    | _ => cases isHead

theorem walkStatements (l : List Statement) (s : σ) :
    (walkStatements w l s).1.takeWhile (·.isHead) = l.takeWhile (·.isHead) := by
  induction l generalizing s with
  | nil => rfl
  | cons st rest ih =>
    show ((st.walk w s).1 :: (Minifier.walkStatements w rest _).1).takeWhile (·.isHead) = _
    by_cases isHead : st.isHead = true
    · simp [mild.still st s isHead, isHead, ih]
    · simp [isHead, mt (mild.isHead st s) isHead]

/-- It holds the head of a block. -/
theorem block (b : Block) (s : σ) : HoldsHead same b.statements (b.walk w s).1.statements := by
  obtain ⟨statements, span⟩ := b
  refine .of_eq ?_
  rw [← mild.walkStatements statements s]
  show ((w.block _ _).1).takeWhile _ = _
  rw [mild.plain.2.1]
  rfl

/-- It holds the heads of all functions. -/
theorem tracks : functions.Tracks functions w fun _ a b _ => KeepsHeads same a b where
  zero _ := .refl 0
  add := .add
  answered around around' e s e' _ isAnswer := by
    rcases mild.answers around e s with ⟨isNone, -⟩ | ⟨_, isSome, isSame⟩
    · cases isNone.symm.trans isAnswer
    · obtain rfl := Option.some.inj (isSome.symm.trans isAnswer)
      rcases isSame with rfl | ⟨-, nothing⟩
      · rw [Expr.census_around functions_isPlain, Expr.census_around functions_isPlain around']
        exact .refl _
      · rw [nothing]
        exact .zero _
  unanswered around around' form span s _ isNone := by
    rcases mild.answers around ⟨form, span⟩ s with ⟨-, stays⟩ | ⟨_, isSome, -⟩
    · exact ⟨stays, .inl ⟨rfl, rfl⟩⟩
    · cases isSome.symm.trans isNone
  use _ _ _ := .refl 0
  declare _ _ := .refl 0
  function fn body s s₁ walks known := by
    have head := mild.block fn.body (w.enterFunction fn s).2
    rw [walks] at head
    have entered : fn.KeepsHeads same { (w.enterFunction fn s).1 with body } := ⟨mild.enter fn s, head, known⟩
    exact entered.census.trans (mild.leave _ s₁).census
  handler clause body _ _ _ known := by
    cases clause
    exact known
  withBody _ _ _ _ _ _ known := known
  skipped _ _ _ := .refl _
  statement a st s s₁ known := by
    rw [mild.plain.1]
    exact known
  block a l s s₁ known := by
    rw [mild.plain.2.1]
    exact known
  switchCase a clause s s₁ known := by
    rw [mild.plain.2.2]
    exact known

end Walk.IsMild

/-! ## Heads of programs -/

/-- The body of a program and all of its functions keep their heads. -/
structure Program.KeepsHeads (same : Prop) (p q : Program) : Prop where
  body : HoldsHead same p.body.statements q.body.statements
  functions : Minifier.KeepsHeads same p.functions q.functions

namespace Program.KeepsHeads

variable (settings : Settings)

variable {p q r : Program}

theorem refl (p : Program) : p.KeepsHeads same p := ⟨.of_eq rfl, .refl _⟩

theorem trans (first : p.KeepsHeads same q) (second : q.KeepsHeads same r) : p.KeepsHeads same r :=
  ⟨first.body.trans second.body, first.functions.trans second.functions⟩

theorem walk {σ : Type} {w : Walk σ} (mild : w.IsMild same) (p : Program) (s : σ) :
    p.KeepsHeads same (p.walk w s).1 :=
  ⟨mild.block p.body s, mild.tracks.program p s⟩

/-- Binding changes names only. -/
theorem bind (p : Program) : p.KeepsHeads same (p.bind settings).program := by
  have declarations : Bind.declarations.IsMild same := {
    enter := fun fn s => by
      show _ = (Bind.enterFunction fn s).1.span
      rw [Bind.enterFunction_eq]
      rfl }
  have references : (Bind.references settings).IsMild same := {}
  let declared := Program.walk Bind.declarations { p with scope := some global } ⟨.empty, #[], [global]⟩
  have first : KeepsHeads same _ declared.1 := walk declarations { p with scope := some global } _
  have second := walk references declared.1 declared.2
  exact ⟨first.body.trans second.body, first.functions.trans second.functions⟩

/-- Sharing literals spares strings on their own, and declares behind the head. -/
theorem shareLiterals (shared : List SharedLiteral) (t t' : ScopeTree) (p : Program) : p.KeepsHeads same
    (LiteralWalk.run (SharedLiteral.replace shared) (SharedLiteral.declareIn shared t) p t').1 := by
  refine walk (w := LiteralWalk.steps (SharedLiteral.replace shared) (SharedLiteral.declareIn shared t)) {
    answers := fun around e s => ?_
    leave := fun fn s => ⟨rfl, .declareFirst fn.body _, ?_⟩ } p _
  · show ((LiteralWalk.atExpr _ around e s).1 = _ ∧ (LiteralWalk.atExpr _ around e s).2 = s) ∨ _
    cases isAnswer : (LiteralWalk.atExpr (SharedLiteral.replace shared) around e s).1 with
    | none => exact .inl ⟨rfl, (LiteralWalk.answer_none isAnswer).2.2⟩
    | some e' =>
      refine .inr ⟨e', isAnswer, ?_⟩
      obtain ⟨-, rfl, -⟩ | ⟨-, -, rfl, -⟩ := LiteralWalk.answer_cases isAnswer
      · exact .inl rfl
      · rcases SharedLiteral.visited_cases shared s.around e s.inner with ⟨stays, -⟩ | ⟨o, found, -, -, new⟩
        · exact .inl (by rw [stays])
        · rw [new]
          exact .inr ⟨by unfold SharedLiteral.mentionAt; split <;> rfl, SharedLiteral.census_mentionAt (fun _ _ => rfl) found o e _⟩
  · show Minifier.KeepsHeads same _ ((SharedLiteral.declareIn shared t fn).body.census Minifier.functions)
    rw [SharedLiteral.census_declareIn (fun _ => rfl) fun _ => .inl rfl]
    rw [sum_eq_zero (by simp [Minifier.functions]), zero_add]
    exact .refl _

/-! Only these two add to a head, and only if code is to be minified. -/

variable {settings} (off : same → settings.minifyCode = false)
include off

theorem orderDeclarations (p : Program) : p.KeepsHeads same (p.orderDeclarations settings).value := by
  unfold Program.orderDeclarations
  split
  · rename_i on
    have changes : ¬ same := fun isSame => by simp [off isSame] at on
    have ordered (b : Block) : Minifier.KeepsHeads same (b.census Minifier.functions)
        ((b.orderDeclarations settings).value.census Minifier.functions) :=
      b.census_orderDeclarations_le functions_sheds (fun _ => .refl 0) settings
    have head (b : Block) := HoldsHead.of_not changes (KeepsHead.orderDeclarations settings b)
    have mild : (orderInFunctions settings).IsMild same :=
      { leave := fun fn _ => ⟨rfl, head fn.body, ordered fn.body⟩ }
    exact (walk mild p false).trans ⟨head _, ordered _⟩
  · exact .refl p

/-- Simplification keeps heads, and does nothing if code is not minified. -/
theorem simplify (b : BoundProgram) :
    b.program.KeepsHeads same (b.simplify settings).value.program := by
  unfold BoundProgram.simplify
  split
  case isFalse => exact .refl _
  rename_i on
  have changes : ¬ same := fun isSame => by simp [off isSame] at on
  have still (st : Statement) (s : Simplify.State) (isHead : st.isHead = true) :
      (st.walk (Simplify.rules settings) s).1 = st := by
    obtain ⟨value, span, rfl⟩ | ⟨_, _, rfl⟩ := isHead_cases isHead
    · exact congrArg Statement.expr
        (Edited.when_value (fun e : Expr => e = ⟨.string value, span⟩) _ _ ⟨.string value, span⟩ rfl rfl)
    · rfl
  have rules (l : List Statement) (s : Simplify.State) : KeepsHead l (Simplify.list settings l s).1 :=
    Simplify.list_induct (motive := fun _ l' => KeepsHead l l')
      (fun _ l' known => known.trans (.unnestAll l')) (fun _ l' known => known.trans (.dropEmpty l'))
      (fun _ l' known => known.trans (.dropUnreachable l')) (fun _ l' known => known.trans (.joinVars l'))
      (fun _ l' known => known.trans (.joinComments l'))
      (fun t l' known => known.trans (.dropFunctions t l'))
      (fun t l' known => known.trans (.returnInitializer t l'))
      (fun settings _ l' known => known.trans (.foldReturns settings l')) settings l s (.refl l)
  have fits : Simplify.Fits settings Minifier.functions Minifier.functions
      (fun new old => Minifier.KeepsHeads same old new) fun _ a b _ => Minifier.KeepsHeads same a b := {
    zero := fun _ => .refl 0
    add := .add
    less := fun known less => known.trans less
    use := fun _ _ _ => .refl 0
    declare := fun _ _ => .refl 0
    function := fun fn body s s₁ walks known => by
      have head := KeepsHead.walk still rules fn.body s
      rw [walks] at head
      have inside : fn.KeepsHeads same { fn with body } := ⟨rfl, .of_not changes head, known⟩
      obtain ⟨statements, bodySpan⟩ := body
      obtain ⟨-, params, isEnd, -⟩ := Simplify.functionEnd_cases settings _ s₁
      rw [isEnd]
      refine inside.census.trans
        (Function.KeepsHeads.census ⟨rfl, .of_not changes (.simplifyEnd settings _), ?_⟩)
      show Minifier.KeepsHeads same (statementCensus _ _) (statementCensus _ _)
      rw [census_simplifyEnd functions_isPlain]
      exact .refl _
    handler := fun _ _ _ _ _ _ known => known
    withBody := fun _ _ _ _ _ known => known
    dropFunctions := fun l known => known.trans
      (census_dropFunctions_le functions_sheds (fun _ => .zero _) _ l)
    returnInitializer := fun l known => known.trans
      (census_returnInitializer_le functions_sheds (fun _ => .zero _) _ l) }
  exact ⟨.of_not changes (.walk still rules b.program.body _),
    (fits.tracks functions_isPlain functions_sheds).program b.program _⟩

/-- So do both passes. -/
theorem shrink (b : BoundProgram) : b.program.KeepsHeads same (b.shrink settings).program := by
  unfold BoundProgram.shrink
  split
  · exact (orderDeclarations off b.program).trans (simplify off (b.recount.orderDeclarations settings).value)
  · exact .refl _

omit off in
theorem chooseNames {b named : BoundProgram} (isNamed : b.chooseNames settings = .ok named) :
    b.program.KeepsHeads same named.program := by
  simp only [BoundProgram.chooseNames, bind_eq_ok] at isNamed
  obtain ⟨_, isAnalyzed, _, isReserved, _, isShared, _, isShort, isLast⟩ := isNamed
  obtain ⟨_, -, ⟨⟩⟩ := bind_eq_ok.mp isAnalyzed
  obtain ⟨_, -, ⟨⟩⟩ := bind_eq_ok.mp isReserved
  obtain ⟨_, -, ⟨⟩⟩ := bind_eq_ok.mp isShort
  obtain ⟨_, -, ⟨⟩⟩ := bind_eq_ok.mp isLast
  obtain ⟨_, -, isShared⟩ := bind_eq_ok.mp isShared
  split at isShared <;> cases isShared
  · exact .shareLiterals _ _ _ b.program
  · exact .refl _

end Program.KeepsHeads

end Functions

/-! ## Directives -/

/-- The text of a directive. -/
def Statement.directive? : Statement → Option String
  | .expr ⟨.string value, _⟩ => some value
  | _ => none

/-- The directives before the first statement that is neither a directive nor a comment. -/
def Block.directives (b : Block) : List String :=
  (b.statements.takeWhile fun s => s.isDirective || s.isComment).filterMap Statement.directive?

/-- Those of them before the first conditional comment. -/
def Block.firstDirectives (b : Block) : List String :=
  (b.statements.takeWhile (·.isHead)).filterMap Statement.directive?

/-- A block starts with the directives that another one starts with. If `same`, it starts with no
others. -/
def Block.KeepsDirectives (same : Prop) (b b' : Block) : Prop :=
  b.firstDirectives <+: b'.directives ∧ (same → b'.firstDirectives = b.firstDirectives)

/-- The body of a program and the functions it has left start with the directives that they started
with before. -/
def Program.KeepsDirectives (same : Prop) (p q : Program) : Prop :=
  p.body.KeepsDirectives same q.body ∧ ∀ fn ∈ q.functions, ∃ before ∈ p.functions,
    before.span = fn.span ∧ before.body.KeepsDirectives same fn.body

theorem HoldsHead.directives {same : Prop} {b b' : Block}
    (keeps : HoldsHead same b.statements b'.statements) : b.KeepsDirectives same b' := by
  have within (s : Statement) :
      decide (s.isHead = true ∧ (s.isDirective || s.isComment) = true) = s.isHead := by
    by_cases isHead : s.isHead = true
    · obtain ⟨_, _, rfl⟩ | ⟨_, _, rfl⟩ := isHead_cases isHead <;> rfl
    · simp [isHead]
  refine ⟨List.IsPrefix.filterMap _ (List.IsPrefix.trans keeps.1 ?_), fun isSame => ?_⟩
  · rw [← funext within, ← takeWhile_takeWhile]
    exact takeWhile_prefix _
  · rw [Block.firstDirectives, keeps.2 isSame]
    rfl

theorem Program.KeepsHeads.directives {same : Prop} {p q : Program} (keeps : p.KeepsHeads same q) :
    p.KeepsDirectives same q := by
  refine ⟨keeps.body.directives, fun fn mem => ?_⟩
  obtain ⟨before, mem, span, head⟩ := keeps.functions fn mem
  exact ⟨before, mem, span, head.directives⟩

/-- No directive of a program that can be read is lost or moved, unless a conditional comment stands
before it. None is added if code is not minified, nor when names are chosen. -/
theorem Program.directives_kept (settings : Settings) {source : String} {tokens : List Token} {p : Program}
    (isScanned : Token.scan source = .ok tokens) (isParsed : Program.parse tokens = .ok p) :
    let small := (p.bind settings).shrink settings
    p.KeepsDirectives (settings.minifyCode = false) small.program ∧
      ∃ named, small.chooseNames settings = .ok named ∧ small.program.KeepsDirectives True named.program ∧
        p.KeepsDirectives (settings.minifyCode = false) named.program := by
  intro small
  obtain ⟨named, isNamed, -⟩ := Program.exists_chooseNames settings
    (Program.isUnbound_of_parse isScanned isParsed)
  have shrunk : p.KeepsHeads (settings.minifyCode = false) small.program :=
    (KeepsHeads.bind settings p).trans (.shrink (fun off => off) (p.bind settings))
  exact ⟨shrunk.directives, named, isNamed, (KeepsHeads.chooseNames isNamed).directives,
    (shrunk.trans (.chooseNames isNamed)).directives⟩

/-- Directives with an important comment between them, and code that is not minified. -/
theorem directives_kept_nested : ∃ tokens p,
    Token.scan "'a';/*! b */'c';;'d';function f(a){if(a){}return f}" = .ok tokens ∧
    Program.parse tokens = .ok p ∧
    let settings : Settings := { minifyCode := false }
    let small := (p.bind settings).shrink settings
    p.KeepsDirectives (settings.minifyCode = false) small.program ∧
      ∃ named, small.chooseNames settings = .ok named ∧ small.program.KeepsDirectives True named.program ∧
        p.KeepsDirectives (settings.minifyCode = false) named.program := by
  obtain ⟨tokens, p, isScanned, isParsed⟩ := Program.exists_of_isReadable (by decide +kernel :
    Program.isReadable "'a';/*! b */'c';;'d';function f(a){if(a){}return f}" = true)
  exact ⟨tokens, p, isScanned, isParsed, Program.directives_kept _ isScanned isParsed⟩

/-- A string becomes a directive when the statement before it goes, and a directive after a conditional
comment is none any more when a function is moved in front of both. -/
theorem directives_unkept :
    let read (source : String) := (Token.scan source).toOption.bind fun tokens => (Program.parse tokens).toOption
    let shrunk (p : Program) := ((p.bind {}).shrink {}).program
    ((read ";'use strict';x()").map fun p => (p.body.directives, (shrunk p).body.directives)) =
      some ([], ["use strict"]) ∧
    ((read "/*@cc_on x @*/'use strict';g();function g(){}").map fun p =>
      (p.body.directives, (shrunk p).body.directives)) = some (["use strict"], []) := by
  decide +kernel

end Minifier
