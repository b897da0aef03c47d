import Minifier.Proofs.Literal.Replaced
import Minifier.Proofs.Scope.Unknown

/-!
# Direct calls of `eval`

Where a program calls `eval` by its name. Binding makes the scopes around such a call unknown
(`Program.bind_isKnown`), and no later step adds a call: rewriting moves and drops expressions but
makes nothing a name that was none (`BoundProgram.evalScopes_simplify_le`), and the names that stand
for literals are no names of a program (`SharedLiteral.evalScopes_run`).
-/

set_option autoImplicit false

namespace Minifier

open LiteralWalk ScopeTree Multiset

/-- The direct calls of `eval`, each as the scope that it stands in, given the one around. -/
def evalCalls : Census (Option ScopeId → Multiset (Option ScopeId)) where
  use isCallee id around := if isCallee && id.name = "eval" then {around} else 0
  declare _ := 0
  function fn body _ := body fn.scope
  handler clause body _ := body clause.scope
  withBody scope body _ := body scope

theorem evalCalls_use {isCallee : Bool} {id : Ident} (isEval : (isCallee && id.name = "eval") = true)
    (around : Option ScopeId) : evalCalls.use isCallee id around = {around} := if_pos isEval

theorem evalCalls_use_of_ne {isCallee : Bool} {id : Ident}
    (other : (isCallee && id.name = "eval") = false) : evalCalls.use isCallee id = 0 :=
  funext fun _ => if_neg (by simp [other])

/-- The scopes that a program calls `eval` in. -/
def Program.evalScopes (p : Program) : Multiset (Option ScopeId) := p.census evalCalls p.scope

/-! ## Binding -/

namespace Bind

variable {isCallee : Bool}

variable {t : ScopeTree} {s : State}

/-- The calls in a part of a program have been found. They are in the scopes of a tree. -/
structure Marked (t : ScopeTree) (s : State) (part : Option ScopeId → Multiset (Option ScopeId))
    (s' : State) : Prop where
  stack : s'.stack = s.stack
  tree : Blurs s.tree s'.tree
  marked : ∀ around, (∀ x, around = some x → s.current = x) → ∀ x < t.scopes.size,
    some x ∈ part around → ∀ y, InFunction t x y → (s'.tree.scope y).isKnown = false

theorem Marked.zero (t : ScopeTree) (s : State) : Marked t s 0 s :=
  ⟨rfl, .refl _, fun _ _ _ _ mem => by simp at mem⟩

theorem Marked.add {a b : Option ScopeId → Multiset (Option ScopeId)} {s₁ s₂ : State}
    (first : Marked t s a s₁) (second : Marked t s₁ b s₂) : Marked t s (a + b) s₂ where
  stack := second.stack.trans first.stack
  tree := first.tree.trans second.tree
  marked around fits x bound mem y inside := by
    rcases mem_add.mp mem with left | right
    · exact second.tree.unknown y (first.marked around fits x bound left y inside)
    · refine second.marked around (fun x isAround => ?_) x bound right y inside
      rw [State.current, first.stack]
      exact fits x isAround

/-- A construct whose scope is opened again. -/
theorem Marked.opened {scope : Option ScopeId} {body : Option ScopeId → Multiset (Option ScopeId)}
    {s₁ : State} (inBody : Marked t { s with stack := scope.getD s.current :: s.stack } body s₁) :
    Marked t s (fun _ => body scope) (pop s₁).2 where
  stack := by
    show s₁.stack.tail = s.stack
    rw [inBody.stack, List.tail_cons]
  tree := inBody.tree
  marked _ _ x bound mem y inside := by
    refine inBody.marked scope (fun x isScope => ?_) x bound mem y inside
    rw [isScope]
    rfl

theorem blurs_findOrDeclare (scope : ScopeId) (isCallee : Bool) (id : Ident) (s : State) :
    let r := findOrDeclare scope isCallee id s
    r.2.stack = s.stack ∧ Blurs s.tree r.2.tree := by
  cases visible : s.tree.findVisible scope id.name with
  | some found =>
    rw [findOrDeclare_of_visible visible]
    exact ⟨rfl, .refl _⟩
  | none =>
    obtain ⟨kind, report, -, answer⟩ := findOrDeclare_of_missing visible isCallee
    rw [answer]
    exact ⟨rfl, .declare _ _ _ _ _⟩

theorem blurs_resolve (isCallee : Bool) (id : Ident) (s : State) :
    let r := resolve isCallee id s
    r.1.name = id.name ∧ r.2.stack = s.stack ∧ Blurs s.tree r.2.tree := by
  obtain ⟨stack, blurs⟩ := blurs_findOrDeclare (s.stack.headD global) isCallee id s
  rcases resolve_cases isCallee id s with ⟨-, answer⟩ | ⟨-, t, trims, -, answer⟩
  · rw [answer]
    exact ⟨rfl, stack, blurs⟩
  · rw [answer]
    refine ⟨rfl, stack, (blurs.trans ?_).trans (.createAlias _ _ _)⟩
    exact .of_sameMarks trims.toSameShape trims.toSameMarks

variable (settings : Settings)

theorem use_of_eval {id : Ident} (isEval : (isCallee && id.name = "eval") = true) (s : State) :
    use settings isCallee id s =
      resolve isCallee id { s with tree := evalMarked settings.evalTreatment s.current s.tree } := by
  unfold use
  rw [if_pos isEval]
  rfl

theorem use_of_ne {id : Ident} (other : (isCallee && id.name = "eval") = false) (s : State) :
    use settings isCallee id s = resolve isCallee id s := by
  unfold use
  rw [if_neg (by simp [other])]

theorem Marked.use (isTreated : settings.evalTreatment ≠ .ignore) (formed : t.WellFormed)
    (blurs : Blurs t s.tree) (isCallee : Bool) (id : Ident) :
    let r := Bind.use settings isCallee id s
    Marked t s (evalCalls.use isCallee r.1) r.2 := by
  intro r
  cases isEval : (isCallee && id.name = "eval") with
  | true =>
    let s₁ : State := { s with tree := evalMarked settings.evalTreatment s.current s.tree }
    obtain ⟨name, stack, resolved⟩ := blurs_resolve isCallee id s₁
    rw [show r = _ from use_of_eval settings isEval s]
    refine ⟨stack, (blurs_evalMarked _ _ _).trans resolved, fun around fits x bound mem y inside => ?_⟩
    rw [evalCalls_use (by rw [name]; exact isEval), mem_singleton] at mem
    rw [← fits x mem.symm] at bound inside
    exact resolved.unknown y (isKnown_evalMarked isTreated formed blurs bound inside)
  | false =>
    obtain ⟨name, stack, resolved⟩ := blurs_resolve isCallee id s
    rw [show r = _ from use_of_ne settings isEval s]
    rw [evalCalls_use_of_ne (by rw [name]; exact isEval)]
    exact ⟨stack, resolved, fun _ _ _ _ mem => by simp at mem⟩

/-- The second walk marks the scopes around each call, whatever it has marked before. -/
theorem references_marked (isTreated : settings.evalTreatment ≠ .ignore) (formed : t.WellFormed) :
    evalCalls.Tracks evalCalls (references settings) fun s _ part s' =>
      Blurs t s.tree → Marked t s part s' where
  zero s _ := .zero t s
  add first second blurs :=
    have left := first blurs
    left.add (second (blurs.trans left.tree))
  use isCallee id _ blurs := .use settings isTreated formed blurs isCallee id
  declare _ s _ := .zero t s
  function fn body s s₁ _ inBody := by
    intro left blurs
    obtain ⟨kind, name, params, old, scope, span⟩ := fn
    exact (inBody blurs).opened
  handler clause body s s₁ _ inBody blurs := by
    obtain ⟨param, old, scope, span⟩ := clause
    exact (inBody blurs).opened
  withBody scope span s s₁ a b inBody blurs := (inBody blurs).opened

theorem blurs_checkFunctionNames (s : State) : Blurs s.tree (checkFunctionNames s).2.tree := by
  have keeps (f : FieldId) (s : State) : Blurs s.tree (keepAmbiguous f s).2.tree := by
    unfold keepAmbiguous
    simp only [Bind.bind, StateT.bind, get, getThe, MonadStateOf.get, StateT.get, pure]
    cases namesake? s.tree (s.tree.field f) with
    | none => exact .refl _
    | some outer => exact ⟨rfl, fun _ => rfl, fun _ => rfl, fun _ unknown => unknown⟩
  have each (fields : List FieldId) : ∀ s : State,
      Blurs s.tree ((fields.forM keepAmbiguous : Step Unit) s).2.tree := by
    induction fields with
    | nil => exact fun s => .refl _
    | cons f rest ih => exact fun s => (keeps f s).trans (ih _)
  exact each _ s

end Bind

/-- The scopes in the function of a call are unknown. -/
theorem Program.bind_isKnown {settings : Settings} (isTreated : settings.evalTreatment ≠ .ignore)
    (p : Program) {s x : ScopeId} (bound : s < (p.bind settings).tree.scopes.size)
    (isCalled : some s ∈ (p.bind settings).program.evalScopes)
    (inside : InFunction (p.bind settings).tree s x) :
    ((p.bind settings).tree.scope x).isKnown = false := by
  let p₀ : Program := { p with scope := some global }
  let r₁ := p₀.walk Bind.declarations Bind.start
  obtain ⟨declared, -⟩ := Bind.declarations_declared.program p₀ Bind.start Bind.isDeclaring_start
  have formed : r₁.2.tree.WellFormed := declared.tree.bare.formed
  have marked := (Bind.references_marked settings isTreated formed).program r₁.1 r₁.2 (.refl _)
  have checked := Bind.blurs_checkFunctionNames (r₁.1.walk (Bind.references settings) r₁.2).2
  have blurs : Blurs r₁.2.tree (p.bind settings).tree := marked.tree.trans checked
  refine checked.unknown x (marked.marked (some global) (fun y isTop => ?_) s ?_ isCalled x ?_)
  · obtain rfl := Option.some.inj isTop
    rw [Bind.State.current, declared.stack]
    rfl
  · rwa [← blurs.scopes_size]
  · exact blurs.inFunction inside

/-! ## Rewriting -/

theorem evalCalls_survivors (decls : List VarDecl) (functions : List Function)
    (around around' : Option ScopeId) : survivorCensus evalCalls decls functions around =
      survivorCensus evalCalls decls functions around' := by
  have names : declCensus evalCalls (decls.map VarDecl.nameOnly) = 0 := by
    induction decls with
    | nil => rfl
    | cons d rest ih => exact congrArg₂ (· + ·) (add_zero _) ih
  have inside : statementCensus evalCalls (functions.map Statement.function) around =
      statementCensus evalCalls (functions.map Statement.function) around' := by
    induction functions with
    | nil => rfl
    | cons fn rest ih =>
      cases fn
      exact congrArg₂ (· + ·) rfl ih
  rw [survivorCensus, names, zero_add, inside]

theorem evalCalls_sheds : evalCalls.ShedsWithin fun a b => ∀ around, a around ≤ b around where
  refl _ _ := le_refl _
  trans first second around := le_trans (first around) (second around)
  add first second around := add_le_add (first around) (second around)
  expr _ _ := zero_le _
  again _ _ := zero_le _
  function fn _ _ _ _ less _ := less fn.scope
  handler clause _ _ _ less _ := less clause.scope
  withBody scope _ _ less _ := less scope
  ofHandler _ _ _ _ := le_of_eq (evalCalls_survivors _ _ _ _)
  ofWithBody _ _ _ _ := le_of_eq (evalCalls_survivors _ _ _ _)

namespace BoundProgram

variable (settings : Settings) (p : BoundProgram)

theorem evalScopes_simplify_le :
    (p.simplify settings).value.program.evalScopes ≤ p.program.evalScopes := by
  have fewer := p.census_simplify_le evalCalls_sheds (fun _ _ => zero_le _)
    (fun _ _ => zero_le _) settings p.program.scope
  have scope : (p.simplify settings).value.program.scope = p.program.scope := by
    unfold BoundProgram.simplify
    split <;> rfl
  rw [Program.evalScopes, scope]
  exact fewer

theorem evalScopes_orderDeclarations_le :
    (p.orderDeclarations settings).value.program.evalScopes ≤ p.program.evalScopes := by
  have scope : (p.orderDeclarations settings).value.program.scope = p.program.scope := by
    unfold BoundProgram.orderDeclarations Program.orderDeclarations
    split <;> rfl
  rw [Program.evalScopes, scope]
  exact p.program.census_orderDeclarations_le evalCalls_sheds (fun _ _ => le_refl _) settings _

theorem evalScopes_shrink_le : (p.shrink settings).program.evalScopes ≤ p.program.evalScopes := by
  unfold BoundProgram.shrink
  split
  · exact le_trans (evalScopes_simplify_le settings _) (evalScopes_orderDeclarations_le settings p.recount)
  · exact le_refl _

end BoundProgram

/-! ## Literals -/

namespace SharedLiteral

variable {shared : List SharedLiteral} {tree : ScopeTree}

/-- A variable for a literal is not called `eval`. -/
theorem follows_evalCalls
    (others : ∀ s ∈ shared, s.field < tree.fields.size ∧ (tree.field s.field).name ≠ "eval") :
    Follows evalCalls evalCalls (replace shared) (declareIn shared tree) fun _ t a b t₁ =>
      KeepsNames tree t → KeepsNames tree t₁ ∧ ∀ around, b around = a around where
  zero _ _ keeps := ⟨keeps, fun _ => rfl⟩
  add first second keeps := by
    obtain ⟨keeps₁, same⟩ := first keeps
    obtain ⟨keeps₂, same'⟩ := second keeps₁
    exact ⟨keeps₂, fun around => by rw [Pi.add_apply, Pi.add_apply, same, same']⟩
  directive _ _ _ _ keeps := ⟨keeps, fun _ => rfl⟩
  spared around around' e scopes t _ keeps := by
    obtain ⟨form, span⟩ := e
    exact ⟨keeps, fun _ => rfl⟩
  literal around around' e scopes t _ isLiteral keeps := by
    rw [Literal.census_eq_zero (fun _ _ => rfl) isLiteral]
    obtain ⟨same, -⟩ | ⟨o, s, -, -, mention⟩ := visited_cases shared scopes e t
    · rw [same, Literal.census_eq_zero (fun _ _ => rfl) isLiteral]
      exact ⟨keeps, fun _ => rfl⟩
    · rw [mention, census_mentionAt fun _ _ => rfl]
      exact ⟨keeps.mention _ _, fun _ => rfl⟩
  called around e scopes t id span isLiteral isName related keeps := by
    obtain ⟨keeps₁, same⟩ := related keeps
    refine ⟨keeps₁, fun place => ?_⟩
    rw [← same]
    have other : id.name ≠ "eval" := by
      obtain ⟨stays, -⟩ | ⟨o, s, -, isShared, mention⟩ := visited_cases shared scopes e t
      · rw [stays] at isName
        obtain rfl : e = ⟨.ident id, span⟩ := isName
        cases isLiteral
      · have mem := List.mem_of_find?_eq_some isShared
        rw [mention] at isName keeps₁
        have isIdent : s.ident (t.mention s.field o.scope).2 (t.mention s.field o.scope).1 = id := by
          unfold mentionAt at isName
          split at isName
          · exact Form.ident.inj (congrArg Expr.form isName)
          · cases isName
        rw [← isIdent]
        show ((t.mention s.field o.scope).2.field s.field).name ≠ "eval"
        rw [(keeps₁ s.field (others s mem).1).2]
        exact (others s mem).2
    simp [evalCalls, other]
  use _ _ _ _ keeps := ⟨keeps, fun _ => rfl⟩
  declare _ _ _ keeps := ⟨keeps, fun _ => rfl⟩
  function fn body scopes t t₁ related keeps := by
    obtain ⟨keeps₁, same⟩ := related keeps
    obtain ⟨kind, name, params, body', scope, span⟩ := fn
    have owned := census_declareIn (c := evalCalls) (fun _ => rfl) (fun _ => .inl rfl) shared tree
      ⟨kind, name, params, body, scope, span⟩
    rw [List.sum_eq_zero (by simp [evalCalls]), zero_add] at owned
    exact ⟨keeps₁, fun _ => (congrFun owned scope).trans (same scope)⟩
  handler clause body scopes t t₁ related keeps := by
    obtain ⟨keeps₁, same⟩ := related keeps
    obtain ⟨param, body', scope, span⟩ := clause
    exact ⟨keeps₁, fun _ => same scope⟩
  withBody scope a b scopes t t₁ related keeps := by
    obtain ⟨keeps₁, same⟩ := related keeps
    exact ⟨keeps₁, fun _ => same scope⟩

/-- The calls are where they were. -/
theorem evalScopes_run
    (others : ∀ s ∈ shared, s.field < tree.fields.size ∧ (tree.field s.field).name ≠ "eval") (p : Program) :
    (run (replace shared) (declareIn shared tree) p tree).1.evalScopes = p.evalScopes :=
  ((follows_evalCalls others).run p tree fun _ bound => ⟨bound, rfl⟩).2 p.scope

end SharedLiteral

end Minifier
