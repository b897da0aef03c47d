import Mathlib.Algebra.BigOperators.Group.List.Basic
import Minifier.Proofs.Literal.Inlined
import Minifier.Proofs.Literal.Inventory
import Minifier.Proofs.Literal.Plan
import Minifier.Proofs.Simplify.Layout

/-!
# Literals replaced by variables

What the walk that puts mentions of variables in the place of literals does to a program. The
constructs that open scopes stay where they are (`SharedLiteral.spots_run`), and so do the
expressions that are spared (`SharedLiteral.sparedExprs_run`). A literal reads like the mention in its
place (`SharedLiteral.inlined_run`).
-/

set_option autoImplicit false

namespace Minifier

open Literal LiteralWalk ScopeTree List

variable {e : Expr}

variable {M : Type}

/-! ## Mentions in the place of literals -/

namespace SharedLiteral

variable {shared : List SharedLiteral}

/-- What is put in the place of an occurrence. -/
def mentionAt (s : SharedLiteral) (o : Occurrence) (e : Expr) (t : ScopeTree) : Expr :=
  let mention : Expr :=
    ⟨.ident (s.ident (t.mention s.field o.scope).2 (t.mention s.field o.scope).1), e.span⟩
  if o.negated = s.negative then mention else .unary .minus mention

/-- A literal stays as it is or becomes a mention of the variable for it. -/
theorem visited_cases (shared : List SharedLiteral) (scopes : List (Option ScopeId)) (e : Expr)
    (t : ScopeTree) : (visited (replace shared) scopes e t = (e, t) ∧
      ∀ o, occurrence? scopes e = some o → ∀ s ∈ shared, s.key ≠ o.key) ∨
    ∃ o s, occurrence? scopes e = some o ∧ shared.find? (·.key = o.key) = some s ∧
      visited (replace shared) scopes e t = (s.mentionAt o e t, (t.mention s.field o.scope).2) := by
  unfold visited
  cases found : occurrence? scopes e with
  | none => exact .inl ⟨rfl, fun _ isSome => nomatch isSome⟩
  | some o =>
    cases isShared : shared.find? (·.key = o.key) with
    | none =>
      refine .inl ⟨replace_of_missing isShared e t, fun o' same s mem => ?_⟩
      cases same
      simpa using List.find?_eq_none.mp isShared s mem
    | some s => exact .inr ⟨o, s, rfl, isShared, replace_of_found isShared e t⟩

theorem census_mentionAt [AddMonoid M] {c : Census M} (quiet : ∀ around e, c.expr? around e = none)
    (s : SharedLiteral) (o : Occurrence) (e : Expr) (t : ScopeTree) (around : Option Form) :
    (s.mentionAt o e t).census c around =
      c.use false (s.ident (t.mention s.field o.scope).2 (t.mention s.field o.scope).1) := by
  unfold mentionAt
  split <;> simp [Expr.unary, quiet]

end SharedLiteral

theorem Literal.form_cases (isLiteral : (Literal.of? e).isSome) :
    (∃ text, e.form = .string text) ∨ (∃ x, e.form = .number x) ∨
      ∃ x span, e.form = .unary .minus ⟨.number x, span⟩ := by
  unfold Literal.of? at isLiteral
  split at isLiteral
  · exact .inl ⟨_, rfl⟩
  · exact .inr (.inl ⟨_, rfl⟩)
  · exact .inr (.inr ⟨_, _, rfl⟩)
  · cases isLiteral

theorem Literal.census_eq_zero [AddMonoid M] {c : Census M}
    (quiet : ∀ around e, c.expr? around e = none) (isLiteral : (Literal.of? e).isSome)
    (around : Option Form) : e.census c around = 0 := by
  obtain ⟨form, span⟩ := e
  obtain ⟨text, rfl⟩ | ⟨x, rfl⟩ | ⟨x, span, rfl⟩ := form_cases isLiteral <;> simp [quiet]

/-! ## Declarations on top -/

/-- Declarations on top of a block are added to what is in it. -/
theorem Block.census_declareFirst [AddCommMonoid M] {c : Census M} (list : ∀ m, c.list m = m)
    (b : Block) (decls : List VarDecl) :
    (b.declareFirst decls).census c = declCensus c decls + b.census c := by
  obtain ⟨statements, span⟩ := b
  cases decls with
  | nil => simp [Block.declareFirst]
  | cons d decls =>
    simp only [Block.declareFirst]
    generalize Block.insertionPoint ⟨statements, span⟩ = index
    have whole := congrArg (statementCensus c) (take_append_drop index statements)
    rw [statementCensus_append] at whole
    rw [Block.census, list, ← whole]
    split
    · rename_i vars rest isRest
      obtain ⟨old, span'⟩ := vars
      rw [isRest, Block.census, list, statementCensus_append]
      simp only [statementCensus, Statement.census, declCensus_append]
      ac_rfl
    · simp only [Block.census, list, statementCensus_append, statementCensus, Statement.census]
      ac_rfl

theorem SharedLiteral.declCensus_map_decl [AddCommMonoid M] {c : Census M}
    (quiet : ∀ e, c.expr? none e = none ∨ (Literal.of? e).isSome = false)
    (owned : List SharedLiteral) (t : ScopeTree) :
    declCensus c (owned.map (·.decl t)) = (owned.map fun s => c.declare (s.ident t s.field)).sum := by
  induction owned with
  | nil => rfl
  | cons s owned ih =>
    have literal : (s.key.literal.expr s.negative).census c none = 0 := by
      have silent := quiet (s.key.literal.expr s.negative)
      cases isLiteral : s.key.literal <;>
        simp_all [Literal.expr, Expr.synthetic, Expr.number, Literal.of?]
    rw [map_cons, map_cons, sum_cons, declCensus, ih]
    simp [SharedLiteral.decl, literal]

/-- What the declarations of a function for its literals add to it. -/
theorem SharedLiteral.census_declareIn [AddCommMonoid M] {c : Census M} (list : ∀ m, c.list m = m)
    (quiet : ∀ e, c.expr? none e = none ∨ (Literal.of? e).isSome = false)
    (shared : List SharedLiteral) (t : ScopeTree) (fn : Function) :
    (declareIn shared t fn).body.census c =
      ((shared.filter fun s => fn.scope = some s.owner).map fun s =>
        c.declare (s.ident t s.field)).sum + fn.body.census c := by
  rw [← declCensus_map_decl quiet]
  exact Block.census_declareFirst list _ _

/-! ## Constructs stay where they are -/

namespace SharedLiteral

variable (shared : List SharedLiteral) (tree : ScopeTree)

theorem follows_layout : Follows layout layout (replace shared) (declareIn shared tree)
    fun _ _ a b _ => ∀ around, b around = a around where
  zero _ _ _ := rfl
  add first second around := by rw [Pi.add_apply, Pi.add_apply, first, second]
  directive _ _ _ _ _ := rfl
  spared around around' e scopes t _ place := by
    obtain ⟨form, span⟩ := e
    rfl
  literal around around' e scopes t _ isLiteral place := by
    rw [census_eq_zero (fun _ _ => rfl) isLiteral]
    obtain ⟨same, -⟩ | ⟨o, s, -, -, mention⟩ := visited_cases shared scopes e t
    · rw [same, census_eq_zero (fun _ _ => rfl) isLiteral]
    · rw [mention, census_mentionAt fun _ _ => rfl]
      rfl
  use _ _ _ _ _ := rfl
  declare _ _ _ _ := rfl
  function fn body scopes t t₁ same around := by
    obtain ⟨kind, name, params, body', scope, span⟩ := fn
    have owned := census_declareIn (c := layout) (fun _ => rfl) (fun _ => .inl rfl) shared tree
      ⟨kind, name, params, body, scope, span⟩
    rw [sum_eq_zero (by simp [layout]), zero_add] at owned
    show _ + (Block.census layout _) (scope :: around) = _ + (body'.census layout) (scope :: around)
    rw [← same]
    exact congrArg (fun m => _ + m (scope :: around)) owned
  handler clause body scopes t t₁ same around := by
    obtain ⟨param, body', scope, span⟩ := clause
    show _ + _ = _ + _
    rw [same]
  withBody scope a b scopes t t₁ same around := by
    show _ + _ = _ + _
    rw [same]

/-- The constructs that open scopes are where they were. -/
theorem spots_run (p : Program) (t : ScopeTree) :
    (run (replace shared) (declareIn shared tree) p t).1.spots = p.spots :=
  (follows_layout shared tree).run p t []

end SharedLiteral

/-! ## Spared expressions stay -/

/-- What decides whether an expression is spared. -/
inductive Shape where
  | text
  | applied (op : UnaryOp)
  | other
deriving DecidableEq

def Form.shape : Form → Shape
  | .string _ => .text
  | .unary op _ => .applied op
  | _ => .other

theorem Form.shape_walk {σ : Type} (w : Walk σ) (form : Form) (s : σ) :
    (form.walk w s).1.shape = form.shape := by
  cases form with
  | call callee args =>
    by_cases isName : ∃ id span, callee = ⟨.ident id, span⟩
    · obtain ⟨id, span, rfl⟩ := isName
      rfl
    · rw [Form.walk_call w callee args (by simpa using isName)]
      rfl
  | new callee args => cases args <;> rfl
  | _ => rfl

/-- A walk has an answer for an expression, or keeps its shape. -/
theorem Expr.walk_cases {σ : Type} (w : Walk σ) (around : Option Form) (e : Expr) (s : σ) :
    (∃ e', (w.expr? around e s).1 = some e' ∧ e.walk w around s = (e', (w.expr? around e s).2)) ∨
      ∃ form, (∃ s', e.walk w around s = (⟨form, e.span⟩, s')) ∧ form.shape = e.form.shape := by
  obtain ⟨form, span⟩ := e
  simp only [Expr.walk, bind, StateT.bind, pure]
  generalize w.expr? around ⟨form, span⟩ s = r
  obtain ⟨answer, s₁⟩ := r
  cases answer with
  | some e' => exact .inl ⟨e', rfl, rfl⟩
  | none => exact .inr ⟨(form.walk w s₁).1, ⟨_, rfl⟩, Form.shape_walk w form s₁⟩

theorem isTypeof_iff (e : Expr) : isTypeof e = true ↔ e.form.shape = .applied .typeof := by
  obtain ⟨form, span⟩ := e
  cases form with
  | unary op operand => cases op <;> simp [isTypeof, Form.shape]
  | _ => simp [isTypeof, Form.shape]

theorem isString_iff (e : Expr) : e.isString = true ↔ e.form.shape = .text := by
  obtain ⟨form, span⟩ := e
  cases form <;> simp [Expr.isString, Form.shape]

theorem isSpared_eq (around : Option Form) (e : Expr) :
    isSpared around e = match e.form.shape with
      | .text => around.any comparesType
      | .applied op => op = .delete
      | .other => false := by
  obtain ⟨form, span⟩ := e
  cases form with
  | unary op operand => cases op <;> rfl
  | _ => rfl

/-- The expressions that stay as they are: directives, what `delete` is applied to, and strings that
are compared with a `typeof`. -/
def spared : Census (Multiset Expr) where
  expr? around e := if isSpared around e then some {e} else none
  use _ _ := 0
  declare _ := 0
  function _ body := body
  handler _ body := body
  withBody _ body := body
  line e m := if e.isString then {e} else m

/-- The expressions that are spared. -/
def Program.sparedExprs (p : Program) : Multiset Expr := p.census spared

namespace SharedLiteral

variable (shared : List SharedLiteral) (tree : ScopeTree)

theorem shape_mentionAt (s : SharedLiteral) (o : Occurrence) (e : Expr) (t : ScopeTree) :
    (s.mentionAt o e t).form.shape = .other ∨ (s.mentionAt o e t).form.shape = .applied .minus := by
  unfold mentionAt
  split
  · exact .inl rfl
  · exact .inr rfl

/-- An expression keeps its shape unless it is a literal, and then it becomes a mention. -/
theorem shape_walk (around : Option Form) (e : Expr) (s : State ScopeTree) :
    let e' := (e.walk (steps (replace shared) (declareIn shared tree)) around s).1
    e'.form.shape = e.form.shape ∨ ((Literal.of? e).isSome ∧
      (e'.form.shape = .other ∨ e'.form.shape = .applied .minus)) := by
  intro e'
  obtain ⟨answer, isAnswer, whole⟩ | ⟨form', ⟨_, whole⟩, sameShape⟩ :=
    Expr.walk_cases (steps (replace shared) (declareIn shared tree)) around e s
  · have isAnswer' : e' = answer := congrArg Prod.fst whole
    obtain ⟨-, rfl, -⟩ | ⟨-, isLiteral, isVisited, -⟩ := answer_cases isAnswer
    · exact .inl (by rw [isAnswer'])
    · rw [isAnswer', isVisited]
      obtain ⟨same, -⟩ | ⟨o, s', -, -, mention⟩ := visited_cases shared s.around e s.inner
      · rw [same]
        exact .inl rfl
      · rw [mention]
        exact .inr ⟨isLiteral, shape_mentionAt s' o _ _⟩
  · have isForm : e'.form = form' := congrArg (fun r => r.1.form) whole
    rw [isForm]
    exact .inl sameShape

theorem isTypeof_walk (around : Option Form) (e : Expr) (s : State ScopeTree) :
    isTypeof (e.walk (steps (replace shared) (declareIn shared tree)) around s).1 = isTypeof e := by
  rw [Bool.eq_iff_iff, isTypeof_iff, isTypeof_iff]
  obtain same | ⟨isLiteral, isMention⟩ := shape_walk shared tree around e s
  · rw [same]
  · have other : e.form.shape ≠ .applied .typeof := by
      obtain ⟨_, isForm⟩ | ⟨_, isForm⟩ | ⟨_, _, isForm⟩ := form_cases isLiteral <;>
        simp [isForm, Form.shape]
    rcases isMention with isMention | isMention <;> simp [isMention, other]

/-- A comparison with a `typeof` stays one. -/
theorem comparesType_walk (form : Form) (s : State ScopeTree) :
    comparesType (form.walk (steps (replace shared) (declareIn shared tree)) s).1 =
      comparesType form := by
  cases form with
  | binary op left right =>
    show (_ && (isTypeof _ || isTypeof _)) = (_ && (isTypeof _ || isTypeof _))
    rw [isTypeof_walk, isTypeof_walk]
  | call callee args =>
    by_cases isName : ∃ id span, callee = ⟨.ident id, span⟩
    · obtain ⟨id, span, rfl⟩ := isName
      rfl
    · rw [Form.walk_call _ callee args (by simpa using isName)]
      rfl
  | new callee args => cases args <;> rfl
  | _ => rfl

theorem isSpared_carries {around around' : Option Form}
    (carries : (steps (replace shared) (declareIn shared tree)).Carries around around') (e : Expr) :
    isSpared around' e = isSpared around e := by
  rw [isSpared_eq, isSpared_eq]
  cases carries with
  | top => rfl
  | within form s => simp only [Option.any_some, comparesType_walk]

theorem spared_tracks : spared.Tracks spared (steps (replace shared) (declareIn shared tree))
    fun _ a b _ => b = a where
  zero _ := rfl
  add first second := congrArg₂ (· + ·) first second
  line e s skips same := by
    have other : e.isString = false := skips
    have other' : (e.walk (steps (replace shared) (declareIn shared tree)) none s).1.isString = false := by
      rw [Bool.eq_false_iff, Ne, isString_iff] at other ⊢
      obtain same | ⟨-, isMention⟩ := shape_walk shared tree none e s
      · rwa [same]
      · rcases isMention with isMention | isMention <;> simp [isMention]
    simp only [spared, other, other'] at same ⊢
    exact same
  answered around around' e s e' carries isAnswer := by
    have around_ := isSpared_carries shared tree carries
    obtain ⟨isSpared, rfl, -⟩ | ⟨notSpared, isLiteral, rfl, -⟩ := answer_cases isAnswer
    · obtain ⟨form, span⟩ := e'
      simp [spared, isSpared, around_]
    · have nothing {around : Option Form} (notSpared : isSpared around e = false) :
          e.census spared around = 0 := by
        obtain ⟨form, span⟩ := e
        have quiet : spared.expr? around ⟨form, span⟩ = none := by simp [spared, notSpared]
        rw [Expr.census, quiet]
        obtain ⟨_, rfl⟩ | ⟨_, rfl⟩ | ⟨_, _, rfl⟩ := form_cases isLiteral
        · rfl
        · rfl
        · simp [spared, isSpared_eq, Form.shape]
      rw [nothing notSpared]
      obtain ⟨same, -⟩ | ⟨o, s', -, -, mention⟩ := visited_cases shared s.around e s.inner
      · rw [same]
        exact nothing (by rw [around_, notSpared])
      · rw [mention]
        unfold mentionAt
        split <;> simp [spared, isSpared_eq, Form.shape, Expr.unary]
  unanswered around around' form span s carries isAnswer := by
    obtain ⟨notSpared, noLiteral, same⟩ := answer_none isAnswer
    have after : isSpared around' ⟨(form.walk (steps (replace shared) (declareIn shared tree)) s).1, span⟩ =
        false := by
      rw [isSpared_eq, Form.shape_walk, ← isSpared_eq around' ⟨form, span⟩,
        isSpared_carries shared tree carries, notSpared]
    exact ⟨same, .inl ⟨by simp [spared, notSpared], by simp [spared, after]⟩⟩
  use _ _ _ := rfl
  declare _ _ := rfl
  function fn body s s₁ _ same := by
    obtain ⟨kind, name, params, body', scope, span⟩ := fn
    have quiet (e : Expr) : spared.expr? none e = none ∨ (Literal.of? e).isSome = false := by
      by_cases isLiteral : (Literal.of? e).isSome
      · left
        obtain ⟨_, isForm⟩ | ⟨_, isForm⟩ | ⟨_, _, isForm⟩ := form_cases isLiteral <;>
          simp [spared, isSpared_eq, isForm, Form.shape]
      · exact .inr (by simpa using isLiteral)
    have owned := census_declareIn (c := spared) (fun _ => rfl) quiet shared tree
      ⟨kind, name, params, body, scope, span⟩
    rw [sum_eq_zero (by simp [spared]), zero_add] at owned
    exact owned.trans same
  handler clause body s s₁ _ same := by
    obtain ⟨param, body', scope, span⟩ := clause
    exact same
  withBody _ _ _ _ _ _ same := same
  skipped _ _ _ := rfl

/-- The spared expressions are there as they were. -/
theorem sparedExprs_run (p : Program) (t : ScopeTree) :
    (run (replace shared) (declareIn shared tree) p t).1.sparedExprs = p.sparedExprs :=
  (spared_tracks shared tree).program p ⟨[p.scope], t⟩

end SharedLiteral

/-! ## Mentions read like literals -/

section Reading

variable {decls : List VarDecl}

variable {value : Ident → Option Expr}

theorem inlinedStatements_append (a b : List Statement) :
    inlinedStatements value (a ++ b) = inlinedStatements value a ++ inlinedStatements value b := by
  induction a with
  | nil => rfl
  | cons s a ih =>
    rw [cons_append, inlinedStatements, inlinedStatements, ih]
    split <;> rfl

theorem inlinedDecls_append (dropped : ∀ d ∈ decls, (value d.name).isSome) (rest : List VarDecl) :
    inlinedDecls value (decls ++ rest) = inlinedDecls value rest := by
  induction decls with
  | nil => rfl
  | cons d decls ih =>
    rw [cons_append, inlinedDecls, if_pos (dropped d mem_cons_self)]
    exact ih fun d mem => dropped d (mem_cons_of_mem _ mem)

/-- Declarations of names that have a value make no difference. -/
theorem Block.inlined_declareFirst (dropped : ∀ d ∈ decls, (value d.name).isSome) (b : Block) :
    (b.declareFirst decls).inlined value = b.inlined value := by
  obtain ⟨statements, span⟩ := b
  cases decls with
  | nil => rfl
  | cons d decls =>
    simp only [Block.declareFirst]
    generalize Block.insertionPoint ⟨statements, span⟩ = index
    have whole := congrArg (inlinedStatements value) (take_append_drop index statements)
    rw [inlinedStatements_append] at whole
    rw [Block.inlined, ← whole]
    split
    · rename_i vars rest isRest
      obtain ⟨old, span'⟩ := vars
      rw [isRest, Block.inlined, inlinedStatements_append, inlinedStatements, inlinedStatements,
        Statement.inlined, Statement.inlined, inlinedDecls_append dropped]
    · have nothing : inlinedDecls value (d :: decls) = [] := by
        have all := inlinedDecls_append dropped []
        rwa [append_nil] at all
      rw [Block.inlined, inlinedStatements_append, inlinedStatements, Statement.inlined, nothing]
      rfl

end Reading

theorem Literal.of?_of_occurrence {scopes : List (Option ScopeId)} {o : Occurrence}
    (found : occurrence? scopes e = some o) : Literal.of? e = some (o.key.literal, o.negated) := by
  simp only [occurrence?, Option.bind_eq_bind, Option.bind_eq_some_iff, Option.pure_def,
    Option.some.injEq] at found
  obtain ⟨⟨literal, negated⟩, isLiteral, _, _, _, _, rfl⟩ := found
  exact isLiteral

/-- A literal as it reads, from what it is and its sign. -/
theorem Literal.inlined_of? {literal : Literal} {negated : Bool}
    (isLiteral : Literal.of? e = some (literal, negated)) (value : Ident → Option Expr) :
    e.inlined value = (literal.expr negated).inlined value ∧
      (∀ text, literal = .string text → negated = false) := by
  unfold Literal.of? at isLiteral
  split at isLiteral <;> cases isLiteral
  · exact ⟨rfl, fun _ _ => rfl⟩
  · exact ⟨rfl, fun _ isString => nomatch isString⟩
  · rename_i x _ _
    exact ⟨x.minus_signed, fun _ isString => nomatch isString⟩

/-- The negative of a literal reads like a minus before it. -/
theorem Literal.minus_inlined (x : Number) (negative : Bool) (value : Ident → Option Expr) :
    (((Literal.number x).expr negative).inlined value).minus =
      ((Literal.number x).expr (!negative)).inlined value := by
  cases negative
  · exact x.minus_signed
  · exact (Number.minus_signed x.negate).trans (congrArg Number.signed x.negate_negate)

namespace SharedLiteral

variable {t : ScopeTree} {s : SharedLiteral}

/-- What a variable for a literal holds, as it reads. -/
def value (s : SharedLiteral) : Expr := (s.key.literal.expr s.negative).inlined fun _ => none

/-- The value of a name that is bound, if it is that of a variable for a literal. -/
def valueNamed (shared : List SharedLiteral) (t : ScopeTree) (id : Ident) : Option Expr :=
  if id.field.isSome then (shared.find? fun s => (t.field s.field).name = id.name).map (·.value)
  else none

variable {shared : List SharedLiteral} {tree : ScopeTree}

theorem valueNamed_ident (distinct : ∀ s ∈ shared, ∀ s' ∈ shared,
      (tree.field s.field).name = (tree.field s'.field).name → s = s')
    {s : SharedLiteral} (mem : s ∈ shared) {t : ScopeTree} {f : FieldId}
    (name : (t.field s.field).name = (tree.field s.field).name) :
    valueNamed shared tree (s.ident t f) = some s.value := by
  cases found : shared.find? fun s' => (tree.field s'.field).name = (s.ident t f).name with
  | none =>
    have other := List.find?_eq_none.mp found s mem
    simp [ident, name] at other
  | some s' =>
    have same : (tree.field s'.field).name = (s.ident t f).name := by simpa using List.find?_some found
    have isOne := distinct s' (mem_of_find?_eq_some found) s mem (same.trans name)
    rw [valueNamed, found, isOne]
    rfl

/-- A literal reads like a mention of the variable for it. -/
theorem inlined_mentionAt {o : Occurrence} {e : Expr} {value : Ident → Option Expr}
    (isValue : value (s.ident (t.mention s.field o.scope).2 (t.mention s.field o.scope).1) = some s.value)
    (isLiteral : Literal.of? e = some (s.key.literal, o.negated))
    (sign : ∀ text, s.key.literal = .string text → s.negative = false) :
    (s.mentionAt o e t).inlined value = e.inlined value := by
  obtain ⟨reads, sign'⟩ := inlined_of? isLiteral value
  have free (literal : Literal) (negative : Bool) (value' : Ident → Option Expr) :
      (literal.expr negative).inlined value' = (literal.expr negative).inlined value := by
    cases literal <;> rfl
  unfold mentionAt
  split
  · rename_i sameSign
    show (value _).getD _ = _
    rw [isValue, reads, sameSign]
    exact free _ _ _
  · rename_i otherSign
    show ((value _).getD _).minus = _
    rw [isValue, reads]
    cases isKey : s.key.literal with
    | string text => exact absurd ((sign' text isKey).trans (sign text isKey).symm) otherSign
    | number x =>
      have other : o.negated = !s.negative := by simpa [Bool.eq_not] using otherSign
      show s.value.minus = _
      rw [SharedLiteral.value, isKey, minus_inlined, other]
      exact free _ _ _

/-- The fields of a tree are there in another one, under their names. -/
def KeepsNames (tree t : ScopeTree) : Prop :=
  ∀ f < tree.fields.size, f < t.fields.size ∧ (t.field f).name = (tree.field f).name

theorem KeepsNames.mention (keeps : KeepsNames tree t) (v : FieldId) (scope : ScopeId) :
    KeepsNames tree (t.mention v scope).2 := by
  intro f bound
  obtain ⟨bound₁, name₁⟩ := keeps f bound
  have aliased := aliased_aliasFor t v scope
  unfold ScopeTree.mention
  generalize t.aliasFor v scope = r at aliased
  obtain ⟨g, t₁⟩ := r
  have bound₂ := Nat.lt_of_lt_of_le bound₁ aliased.size
  have name₂ : (t₁.field f).name = (tree.field f).name := by rw [aliased.field f bound₁, name₁]
  dsimp only
  split
  · have same := trims_addRef t₁ g
    exact ⟨same.fields_size ▸ bound₂, (same.name f).trans name₂⟩
  · have reserved := (reserves_reserveAlias t₁ g).toSameShape
    have same := (trims_addRef (t₁.reserveAlias g) g).toSameShape
    exact ⟨(reserved.trans same).fields_size ▸ bound₂, ((reserved.trans same).name f).trans name₂⟩

/-- The program reads as it did. -/
theorem inlined_run (distinct : ∀ s ∈ shared, ∀ s' ∈ shared,
      (tree.field s.field).name = (tree.field s'.field).name → s = s')
    (bound : ∀ s ∈ shared, s.field < tree.fields.size)
    (sign : ∀ s ∈ shared, ∀ text, s.key.literal = .string text → s.negative = false) (p : Program) :
    (run (replace shared) (declareIn shared tree) p tree).1.inlined (valueNamed shared tree) =
      p.inlined (valueNamed shared tree) := by
  have reads : (steps (replace shared) (declareIn shared tree)).Reads
      (fun s => KeepsNames tree s.inner) (valueNamed shared tree) (valueNamed shared tree) :=
    { expr? := by
        intro around e s keeps _
        refine ⟨?_, fun e' isAnswer => ?_⟩
        · show KeepsNames tree (atExpr (replace shared) around e s).2.inner
          rw [atExpr_apply]
          split
          · exact keeps
          split
          · rename_i o _
            cases isShared : shared.find? (·.key = o.key) with
            | none => rwa [replace_of_missing isShared]
            | some s' =>
              rw [replace_of_found isShared]
              exact keeps.mention _ _
          · exact keeps
        · obtain ⟨-, rfl, -⟩ | ⟨-, -, rfl, -⟩ := answer_cases isAnswer
          · rfl
          obtain ⟨same, -⟩ | ⟨o, s', found, isShared, mention⟩ :=
            visited_cases shared s.around e s.inner
          · rw [same]
          · rw [mention]
            have mem := mem_of_find?_eq_some isShared
            have isKey : s'.key = o.key := by simpa using List.find?_some isShared
            refine inlined_mentionAt (valueNamed_ident distinct mem ?_) ?_ (sign s' mem)
            · exact (keeps.mention _ _ s'.field (bound s' mem)).2
            · rw [isKey]
              exact Literal.of?_of_occurrence found
      enterFunction := fun _ _ keeps => ⟨keeps, rfl⟩
      leaveFunction := by
        intro fn s keeps
        refine ⟨keeps, ?_⟩
        obtain ⟨kind, name, params, body, scope, span⟩ := fn
        have dropped : ∀ d ∈ (shared.filter fun s => scope = some s.owner).map (·.decl tree),
            (valueNamed shared tree d.name).isSome := by
          simp only [mem_map, mem_filter]
          rintro _ ⟨s', ⟨mem, -⟩, rfl⟩
          rw [decl, valueNamed_ident distinct mem rfl]
          rfl
        exact congrArg (fun body => (⟨kind, _, _, body, scope, .synthetic⟩ : Function))
          (body.inlined_declareFirst dropped)
      enterCatch := fun _ _ keeps => ⟨keeps, rfl⟩
      leaveCatch := fun _ keeps => keeps
      enterWith := fun _ _ _ keeps => ⟨keeps, rfl⟩
      leaveWith := fun _ keeps => keeps
      skips := fun _ _ _ => rfl }
  exact reads.program p ⟨[p.scope], tree⟩ (fun f bound => ⟨bound, rfl⟩) fun _ _ => rfl

end SharedLiteral

end Minifier
