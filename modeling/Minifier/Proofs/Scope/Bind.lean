import Minifier.Proofs.Scope.Lexical
import Minifier.Proofs.Syntax.Walk
import Minifier.Scope.Bind

/-!
# Binding is lexical

Binding leaves a fresh tree, in which every alias stands for the innermost variable of its name, and
a program all of whose names and scopes are in that tree (`Program.bind_isBound`).

Both walks keep one invariant, a bond in the sense of walks in step. While declarations are made
there is no alias yet, so no variable can get in the way of one; while names are looked up, variables
are made in the global scope only.
-/

set_option autoImplicit false

namespace Minifier

open ScopeTree

open List hiding get

/-- A mark that is in order in a tree: a name has the field it is bound to, if any, and a scope is
there. -/
def Mark.Valid (t : ScopeTree) : Mark → Prop
  | .name id | .use id => ∀ f, id.field = some f → t.HasNamed f id.name
  | .scope s => s < t.scopes.size

/-- Whether the name of a mark is one that a program can have. -/
def Mark.IsPlain : Mark → Prop
  | .name id | .use id => ScopeTree.IsPlain id.name
  | .scope _ => True

theorem Mark.Valid.extends {t t' : ScopeTree} {mark : Mark} (valid : mark.Valid t)
    (grown : Extends t t') : mark.Valid t' := by
  cases mark with
  | name id => exact fun f bound => grown.hasNamed (valid f bound)
  | use id => exact fun f bound => grown.hasNamed (valid f bound)
  | scope s => exact Nat.lt_of_lt_of_le valid grown.scopes_size

namespace Bind

open Bond

variable {scope : ScopeId} {id : Ident} {s : State}

/-! ## Laws

What a walk keeps of the tree, and that the changes it makes do. The open scopes are in range by any
law. -/

/-- What holds of the tree all along, how it grows, and when a mark is in order. -/
structure Law where
  holds : ScopeTree → Prop
  grows : ScopeTree → ScopeTree → Prop
  fits : ScopeTree → Mark → Prop
  refl : ∀ t, grows t t
  trans : ∀ {t t₁ t₂}, grows t t₁ → grows t₁ t₂ → grows t t₂
  mono : ∀ {t t₁ mark}, grows t t₁ → fits t mark → fits t₁ mark
  sizes : ∀ {t t₁}, grows t t₁ → t.scopes.size ≤ t₁.scopes.size
  scope : ∀ {t s}, fits t (.scope s) ↔ s < t.scopes.size
  root : ∀ {t}, holds t → global < t.scopes.size
  hoist : ∀ {t s}, holds t → s < t.scopes.size → t.functionScopeOf s < t.scopes.size

namespace Law

variable (law : Law) {before : List Mark}

/-- The law as a bond of a walk. -/
def bond : Bond Unit State :=
  .alone (fun s => law.holds s.tree ∧ ∀ scope ∈ s.stack, scope < s.tree.scopes.size)
    (fun s s' => law.grows s.tree s'.tree) (fun s => law.fits s.tree) (fun s => law.refl s.tree)
    law.trans law.mono

/-- A change to the tree is within the law. -/
def Allows {α : Type} (before : List Mark) (change : ScopeTree → α × ScopeTree)
    (after : α → List Mark) : Prop :=
  ∀ t, law.holds t → (∀ mark ∈ before, law.fits t mark) → law.holds (change t).2 ∧
    law.grows t (change t).2 ∧ ∀ mark ∈ after (change t).1, law.fits (change t).2 mark

variable {law}

theorem runs_onTree {α : Type} {change : ScopeTree → α × ScopeTree} {after : α → List Mark}
    (allows : law.Allows before change after) : law.bond.Runs before (onTree change) after := by
  rintro _ s ⟨holds, open_⟩ fits
  obtain ⟨holds', grows, fits'⟩ := allows s.tree holds fits
  exact ⟨⟨holds', fun scope mem => Nat.lt_of_lt_of_le (open_ scope mem) (law.sizes grows)⟩, grows, fits'⟩

theorem runs_modifyTree {change : ScopeTree → ScopeTree}
    (allows : law.Allows before (fun t => ((), change t)) fun _ => []) :
    law.bond.Runs before (modifyTree change) fun _ => [] :=
  runs_onTree allows

theorem runs_currentScope : law.bond.Runs before currentScope fun s => [.scope s] := by
  refine Runs.read (fun s => [.scope (s.stack.headD global)]) ?_ fun s => Runs.pure (by simp)
  rintro s ⟨holds, open_⟩ _ mark mem
  obtain rfl := mem_singleton.mp mem
  refine law.scope.mpr ?_
  cases stack : s.stack with
  | nil => exact law.root holds
  | cons scope rest => exact open_ scope (by simp [stack])

theorem runs_push (scope : ScopeId) : law.bond.Runs [.scope scope] (push scope) fun _ => [] := by
  rintro _ s ⟨holds, open_⟩ fits
  refine ⟨⟨holds, fun other mem => ?_⟩, law.refl s.tree, fun _ mem => (nomatch mem)⟩
  rcases mem_cons.mp mem with rfl | old
  · exact law.scope.mp (fits _ mem_cons_self)
  · exact open_ other old

theorem runs_pop : law.bond.Runs before pop fun _ => [] := by
  rintro _ s ⟨holds, open_⟩ _
  exact ⟨⟨holds, fun other mem => open_ other (mem_of_mem_tail mem)⟩, law.refl s.tree,
    fun _ mem => (nomatch mem)⟩

theorem runs_tell (finding : Finding) (span : Span) (message : String) :
    law.bond.Runs before (tell finding span message) fun _ => [] := by
  rintro _ s holds _
  exact ⟨holds, law.refl s.tree, fun _ mem => (nomatch mem)⟩

theorem runs_leave {fn : Function} : law.bond.Runs fn.marks (do pop; return fn) Function.marks :=
  runs_pop.bind fun _ => Runs.pure (by simp)

/-- The nearest function of a scope that is there. -/
theorem fits_hoist {s : State} {scope : ScopeId} (holds : law.bond.holds () s)
    (fits : ∀ mark ∈ before, law.bond.fits () s mark) (known : .scope scope ∈ before) :
    ∀ mark ∈ [Mark.scope (s.tree.functionScopeOf scope)], law.bond.fits () s mark := by
  intro mark mem
  obtain rfl := mem_singleton.mp mem
  exact law.scope.mpr (law.hoist holds.1 (law.scope.mp (fits _ known)))

end Law

/-! ## Declarations -/

/-- The changes by which names are declared are within a law. -/
structure Law.Declares (law : Law) : Prop where
  declareIn : ∀ scope id kind isFunction position,
    law.bond.Runs [.scope scope, .name id] (declareIn scope id kind isFunction position)
      fun f => [.name { id with field := some f }]
  arguments : ∀ scope span, law.Allows [.scope scope]
    (·.declare scope "arguments" .argumentsObject span) fun _ => []
  createScope : ∀ kind around span, kind ≠ .global →
    law.Allows [.scope around] (·.createScope kind around span) fun s => [.scope s]
  functionField : ∀ scope (field : Option FieldId) (declared : Option Ident),
    (∀ f ∈ field, declared.bind (·.field) = some f) →
    law.Allows (.scope scope :: declared.toList.map .name)
      (fun t => ((), t.modifyScope scope fun s => { s with functionField := field })) fun _ => []

namespace Law.Declares

variable {law : Law} {before : List Mark} (declares : law.Declares)
include declares

theorem runs_declareFunction (scope : ScopeId) (id : Ident) :
    law.bond.Runs [.scope scope, .name id] (declareFunction scope id) fun id => [.name id] := by
  refine Runs.read (fun s => [.scope (s.tree.functionScopeOf scope)])
    (fun s holds fits => fits_hoist holds fits mem_cons_self) fun s => ?_
  have declareIn := declares.declareIn (s.tree.functionScopeOf scope) id .declared true none
  simp only
  split
  · exact (runs_tell _ _ _).bind fun _ => declareIn.last
  · exact declareIn.last

theorem runs_declareParams (scope : ScopeId) (params : List Ident) (position : Nat) :
    law.bond.Runs (.scope scope :: params.map .name) (declareParams scope params position)
      fun params => params.map .name := by
  induction params generalizing position with
  | nil => exact Runs.pure (by simp)
  | cons id rest ih =>
    refine Runs.read (fun _ => []) (fun _ _ _ _ mem => (nomatch mem)) fun s => ?_
    have declareIn := declares.declareIn scope id .parameter false (some position)
    have others := ih (position + 1)
    simp only
    split
    · exact (runs_tell _ _ _).bind fun _ => declareIn.next fun _ => others.last
    · exact declareIn.next fun _ => others.last

theorem runs_declareOwnName (scope : ScopeId) (id : Ident) :
    law.bond.Runs [.scope scope, .name id] (declareOwnName scope id) fun id => [.name id] := by
  refine Runs.read (fun _ => []) (fun _ _ _ _ mem => (nomatch mem)) fun s => ?_
  split
  · exact Runs.pure (by simp)
  · exact (declares.declareIn scope id .functionName true none).last

theorem runs_createInside {kind : ScopeKind} (notGlobal : kind ≠ .global) (span : Span) :
    law.bond.Runs before (createInside kind span) fun s => [.scope s] :=
  runs_currentScope.bind fun around =>
    (runs_onTree (declares.createScope kind around span notGlobal)).of_subset (by simp)

theorem runs_declareVar (id : Ident) :
    law.bond.Runs [.name id] (declareVar id) fun id => [.name id] := by
  refine runs_currentScope.bind fun around => ?_
  refine Runs.read (fun s => [.scope (s.tree.functionScopeOf around)])
    (fun s holds fits => fits_hoist holds fits (by simp)) fun s => ?_
  exact (declares.declareIn (s.tree.functionScopeOf around) id .declared false none).last

theorem runs_enterFunction (fn : Function) :
    law.bond.Runs fn.marks (enterFunction fn) Function.headMarks := by
  obtain ⟨kind, name, params, body, scope, span⟩ := fn
  refine runs_currentScope.bind fun around => ?_
  extract_lets isDeclaration enter
  have enters : ∀ declared : Option Ident,
      law.bond.Runs (params.map .name ++ declared.toList.map .name) (enter declared)
        Function.headMarks := by
    intro declared
    refine (declares.runs_createInside (by decide) span).bind fun scope => ?_
    extract_lets functionField
    have owns := runs_modifyTree (declares.functionField scope functionField declared fun f isField =>
      (Option.ite_none_right_eq_some.mp isField).2)
    refine (owns.of_subset (by simp; grind)).bind fun _ => ?_
    have declareParams := declares.runs_declareParams scope params 0
    refine (declareParams.of_subset (by simp; grind)).bind fun params => ?_
    extract_lets finish
    have finishes : ∀ name : Option Ident,
        law.bond.Runs (.scope scope :: (params.map .name ++ name.toList.map .name)) (finish name)
          Function.headMarks := by
      intro name
      refine (runs_onTree (declares.arguments scope span)).next fun _ => ?_
      refine (runs_push scope).next fun _ => Runs.pure ?_
      simp [Function.headMarks, scopeMarks]
      grind
    cases declared with
    | none => exact (finishes none).of_subset (by simp; grind)
    | some id =>
      simp only
      split
      · exact (finishes (some id)).of_subset (by simp; grind)
      · have declareOwnName : law.bond.Runs [.scope scope, .name id]
            (some <$> declareOwnName scope id) fun name => name.toList.map .name :=
          (declares.runs_declareOwnName scope id).map (by simp)
        refine (declareOwnName.of_subset (by simp)).bind fun name => ?_
        exact (finishes name).of_subset (by simp; grind)
  cases name with
  | none => exact (enters none).of_subset (by simp; grind)
  | some id =>
    simp only
    split
    · have declareFunction : law.bond.Runs [.scope around, .name id]
          (some <$> declareFunction around id) fun name => name.toList.map .name :=
        (declares.runs_declareFunction around id).map (by simp)
      refine (declareFunction.of_subset (by simp)).bind fun declared => ?_
      exact (enters declared).of_subset (by simp; grind)
    · exact (enters (some id)).of_subset (by simp; grind)

theorem runs_enterCatch (clause : CatchClause) :
    law.bond.Runs (handlerMarks (some clause)) (enterCatch clause) CatchClause.headMarks := by
  obtain ⟨param, body, scope, span⟩ := clause
  refine (declares.runs_createInside (by decide) span).bind fun s => ?_
  refine (declares.declareIn s param .declared false none).next fun f => ?_
  refine (runs_push s).next fun _ => Runs.pure ?_
  simp [CatchClause.headMarks, scopeMarks]

theorem runs_enterWith (span : Span) : law.bond.Runs before (enterWith span) scopeMarks := by
  refine (declares.runs_createInside (by decide) span).bind fun s => ?_
  exact (runs_push s).next fun _ => Runs.pure (by simp [scopeMarks])

theorem inStep : InStep law.bond {} declarations where
  declare id := (declares.runs_declareVar id).keeps id
  enterFunction fn := (declares.runs_enterFunction fn).keeps fn
  leaveFunction fn _ := runs_leave.keeps fn
  enterCatch clause := (declares.runs_enterCatch clause).keeps clause
  leaveCatch := runs_pop.keeps ()
  enterWith scope span := (declares.runs_enterWith span).keeps scope
  leaveWith := runs_pop.keeps ()

end Law.Declares

/-! ## Names in use -/

/-- The changes by which names in use are bound are within a law. -/
structure Law.Refers (law : Law) : Prop where
  resolve : ∀ isCallee id,
    law.bond.Runs [.use id, .name id] (resolve isCallee id) fun id => [.use id, .name id]
  evalMarked : ∀ treatment scope,
    law.Allows [.scope scope] (fun t => ((), evalMarked treatment scope t)) fun _ => []

namespace Law.Refers

variable {law : Law} (refers : law.Refers)
include refers

theorem runs_use (settings : Settings) (isCallee : Bool) (id : Ident) :
    law.bond.Runs [.use id, .name id] (use settings isCallee id) fun id => [.use id, .name id] := by
  unfold use
  split
  · refine runs_currentScope.bind fun scope => ?_
    refine (runs_modifyTree (refers.evalMarked settings.evalTreatment scope)).next fun _ => ?_
    exact (refers.resolve isCallee id).of_subset (by simp)
  · exact refers.resolve isCallee id

omit refers in
theorem runs_reenter (scope : Option ScopeId) :
    law.bond.Runs (scopeMarks scope) (reenter scope) fun _ => [] := by
  refine runs_currentScope.bind fun around => ?_
  refine (runs_push (scope.getD around)).of_subset ?_
  cases scope <;> simp [scopeMarks]

omit refers in
/-- Opening the scope of a tree again, for the marks of the tree that are not in its body. -/
theorem runs_reopen {α : Type} {a : α} {scope : Option ScopeId} {marks : List Mark}
    {head : α → List Mark} (isScope : ∀ mark ∈ scopeMarks scope, mark ∈ head a)
    (known : ∀ mark ∈ head a, mark ∈ marks) :
    law.bond.Runs marks (do reenter scope; return a) head :=
  (runs_reenter scope).next
    (fun _ => Runs.pure fun mark mem => mem_append_left _ (known mark mem))
    fun mark mem => known mark (isScope mark mem)

theorem inStep (settings : Settings) : InStep law.bond {} (references settings) where
  use isCallee id := (refers.runs_use settings isCallee id).keeps id
  enterFunction fn := (runs_reopen (fun _ => mem_append_left _) Function.headMarks_subset).keeps fn
  leaveFunction fn _ := runs_leave.keeps fn
  enterCatch clause :=
    (runs_reopen (fun _ => mem_append_left _) CatchClause.headMarks_subset).keeps clause
  leaveCatch := runs_pop.keeps ()
  enterWith scope _ := (runs_reopen (fun _ mem => mem) fun _ mem => mem).keeps scope
  leaveWith := runs_pop.keeps ()

end Law.Refers

/-! ## The lexical law -/

/-- The nearest function of a scope is there if the scope is. -/
theorem fits_functionScopeOf {t : ScopeTree} (formed : t.WellFormed) (bound : scope < t.scopes.size) :
    t.functionScopeOf scope < t.scopes.size :=
  Nat.lt_of_le_of_lt ((within_functionScopeOf formed.parentsFirst scope).le formed.parentsFirst) bound

/-- What both walks keep. There are no aliases while declarations are made. -/
def lexical (declaring : Bool) : Law where
  holds t := t.Fresh ∧ (declaring = true → t.HasNoAlias)
  grows := Extends
  fits t mark := mark.Valid t ∧ mark.IsPlain
  refl := .refl
  trans first second := first.trans second
  mono grown fits := ⟨fits.1.extends grown, fits.2⟩
  sizes grown := grown.scopes_size
  scope := and_iff_left trivial
  root holds := holds.1.formed.nonempty
  hoist holds bound := fits_functionScopeOf holds.1.formed bound

variable {declaring : Bool} {before : List Mark}

theorem allows_tended {change : ScopeTree → ScopeTree} (tended : ∀ t, Tended t (change t)) :
    (lexical declaring).Allows before (fun t => ((), change t)) fun _ => [] := by
  rintro t ⟨fresh, noAlias⟩ _
  have same := (tended t).toSameShape
  refine ⟨⟨(tended t).fresh fresh, fun isDeclaring f => ?_⟩, .of_sameShape same, fun _ mem => (nomatch mem)⟩
  exact (same.outer f).trans (noAlias isDeclaring f)

theorem allows_declare (scope : ScopeId) (id : Ident) (kind : FieldKind) (span : Span) :
    (lexical true).Allows [.scope scope, .name id] (·.declare scope id.name kind span)
      fun f => [.name { id with field := some f }] := by
  rintro t ⟨fresh, noAlias⟩ fits
  have bound : scope < t.scopes.size := (fits (.scope scope) (by simp)).1
  have plain : ScopeTree.IsPlain id.name := (fits (.name id) (by simp)).2
  obtain ⟨fresh', grown, named⟩ := fresh.declare bound plain (.inl (noAlias rfl)) kind span
  refine ⟨⟨fresh', fun isDeclaring => (noAlias isDeclaring).declare scope id.name kind span⟩, grown, ?_⟩
  intro mark mem
  obtain rfl := mem_singleton.mp mem
  refine ⟨?_, plain⟩
  rintro f ⟨⟩
  exact named

theorem lexical_declares : (lexical true).Declares where
  declareIn scope id kind isFunction position := by
    refine (Law.runs_onTree (allows_declare scope id kind id.span)).bind fun f => ?_
    refine Runs.bind (Law.runs_modifyTree (allows_tended fun t => ?_)) fun _ => Runs.pure (by simp_all)
    exact tended_modifyField t f _ fun _ => ⟨rfl, rfl, rfl, rfl, rfl⟩
  arguments scope span t holds fits := by
    have isPlain : ScopeTree.IsPlain "arguments" := by decide
    have known : ∀ mark ∈ [Mark.scope scope, .name ⟨"arguments", .synthetic, none⟩],
        (lexical true).fits t mark := by
      simp only [forall_mem_cons] at fits ⊢
      exact ⟨fits.1, ⟨fun f isField => (nomatch isField), isPlain⟩, fits.2⟩
    obtain ⟨holds', grown, -⟩ := allows_declare scope _ .argumentsObject span t holds known
    exact ⟨holds', grown, fun _ mem => (nomatch mem)⟩
  createScope kind around span notGlobal := by
    rintro t ⟨fresh, noAlias⟩ fits
    have bound : around < t.scopes.size := (fits (.scope around) mem_cons_self).1
    refine ⟨⟨fresh.createScope bound notGlobal span, noAlias⟩, .createScope t kind around span, ?_⟩
    intro mark mem
    obtain rfl := mem_singleton.mp mem
    refine ⟨?_, trivial⟩
    show t.scopes.size < (t.createScope kind around span).2.scopes.size
    rw [scopes_size_createScope]
    exact Nat.lt_succ_self _
  functionField scope field _ _ :=
    allows_tended fun t => tended_modifyScope t scope _ fun _ => ⟨rfl, rfl, rfl, rfl, rfl⟩

theorem findOrDeclare_of_visible {found : ScopeId × FieldId}
    (visible : s.tree.findVisible scope id.name = some found) (isCallee : Bool) :
    findOrDeclare scope isCallee id s = (found, s) := by
  simp only [findOrDeclare, bind, StateT.bind, get, getThe, MonadStateOf.get, StateT.get, pure,
    visible]
  rfl

theorem findOrDeclare_of_missing (missing : s.tree.findVisible scope id.name = none) (isCallee : Bool) :
    ∃ kind report, (kind = .predefined ∨ kind = .undeclared) ∧ findOrDeclare scope isCallee id s =
      ((global, (s.tree.declare global id.name kind id.span).1),
        ⟨(s.tree.declare global id.name kind id.span).2, report, s.stack⟩) := by
  refine ⟨if predefinedGlobals.contains id.name then .predefined else .undeclared,
    (findOrDeclare scope isCallee id s).2.report, by split <;> simp, ?_⟩
  simp only [findOrDeclare, bind, StateT.bind, get, getThe, MonadStateOf.get, StateT.get, pure,
    missing]
  by_cases isPredefined : predefinedGlobals.contains id.name = true
  · simp only [isPredefined]
    rfl
  · simp only [isPredefined]
    cases isCallee <;> rfl

/-- What a name in use is found to stand for is what is visible, once the name is declared. -/
theorem findOrDeclare_visible (fresh : s.tree.Fresh) (bound : scope < s.tree.scopes.size)
    (plain : ScopeTree.IsPlain id.name) (isCallee : Bool) :
    (findOrDeclare scope isCallee id s).2.tree.Fresh ∧
      Extends s.tree (findOrDeclare scope isCallee id s).2.tree ∧
      (findOrDeclare scope isCallee id s).2.stack = s.stack ∧
      (findOrDeclare scope isCallee id s).2.tree.findVisible scope id.name =
        some (findOrDeclare scope isCallee id s).1 := by
  cases visible : s.tree.findVisible scope id.name with
  | some found =>
    rw [findOrDeclare_of_visible visible]
    exact ⟨fresh, .refl _, rfl, visible⟩
  | none =>
    obtain ⟨kind, report, -, answer⟩ := findOrDeclare_of_missing visible isCallee
    rw [answer]
    obtain ⟨fresh', grown, _⟩ := fresh.declare fresh.formed.nonempty plain (.inr rfl) kind id.span
    exact ⟨fresh', grown, rfl, findVisible_declare_global fresh.formed bound visible kind id.span⟩

/-- How a name in use is bound: directly in its own scope, else through an alias to what is
visible, after a change of marks. -/
theorem resolve_cases (isCallee : Bool) (id : Ident) (s : State) :
    let scope := s.stack.headD global
    let r := findOrDeclare scope isCallee id s
    (r.1.1 = scope ∧ resolve isCallee id s = ({ id with field := some r.1.2 }, r.2)) ∨
      (r.1.1 ≠ scope ∧ ∃ t, Trims r.2.tree t ∧
        (∀ f, (t.field f).kind = (r.2.tree.field f).kind) ∧ resolve isCallee id s =
        ({ id with field := some (t.createAlias scope r.1.2).1 },
          { r.2 with tree := (t.createAlias scope r.1.2).2 })) := by
  intro scope r
  have start : resolve isCallee id s = (do
      if r.1.1 = scope then return { id with field := some r.1.2 }
      let tree := (← get).tree
      let crossed := tree.chainUpTo scope r.1.1
      if crossed.any fun s => (tree.scope s).kind = .withBody then
        modifyTree (·.modifyField (tree.ultimate r.1.2) fun f => { f with canCrunch := false })
      return { id with field := some (← onTree (·.createAlias scope r.1.2)) } : Step Ident) r.2 := rfl
  rw [start]
  by_cases same : r.1.1 = scope
  · refine .inl ⟨same, ?_⟩
    rw [if_pos same]
    rfl
  · refine .inr ⟨same, ?_⟩
    rw [if_neg same]
    by_cases crosses : (r.2.tree.chainUpTo scope r.1.1).any fun s =>
        (r.2.tree.scope s).kind = .withBody
    · refine ⟨r.2.tree.modifyField (r.2.tree.ultimate r.1.2) fun f => { f with canCrunch := false },
        .modifyField _ _ _ fun _ => ⟨rfl, rfl, rfl, rfl, rfl⟩, fun f => ?_, ?_⟩
      · rw [field_modifyField]
        split <;> rfl
      simp only [bind, StateT.bind, get, getThe, MonadStateOf.get, StateT.get, pure, crosses]
      rfl
    · refine ⟨r.2.tree, .refl _, fun _ => rfl, ?_⟩
      simp only [bind, StateT.bind, get, getThe, MonadStateOf.get, StateT.get, pure, crosses]
      rfl

theorem runs_resolve (isCallee : Bool) (id : Ident) :
    (lexical false).bond.Runs [.use id, .name id] (resolve isCallee id) fun id => [.use id, .name id] := by
  rintro _ s ⟨⟨fresh, -⟩, open_⟩ fits
  have plain : ScopeTree.IsPlain id.name := (fits (.name id) (by simp)).2
  have bound : s.stack.headD global < s.tree.scopes.size := by
    cases stack : s.stack with
    | nil => exact fresh.formed.nonempty
    | cons scope rest => exact open_ scope (by simp [stack])
  obtain ⟨fresh₁, grown₁, stack₁, visible⟩ := findOrDeclare_visible fresh bound plain isCallee
  have cases_ := resolve_cases isCallee id s
  simp only at cases_
  generalize findOrDeclare (s.stack.headD global) isCallee id s = r at fresh₁ grown₁ stack₁ visible cases_
  obtain ⟨within, isField, _⟩ := findVisible_eq_some fresh₁.formed.parentsFirst visible
  have bound₁ := Nat.lt_of_lt_of_le bound grown₁.scopes_size
  have marked {t : ScopeTree} {f : FieldId} (named : t.HasNamed f id.name) :
      ∀ mark ∈ [Mark.use { id with field := some f }, .name { id with field := some f }],
        mark.Valid t ∧ mark.IsPlain := by
    have valid : ∀ g, some f = some g → t.HasNamed g id.name := by
      rintro g ⟨⟩
      exact named
    intro mark mem
    simp only [mem_cons, not_mem_nil, or_false] at mem
    rcases mem with rfl | rfl <;> exact ⟨valid, plain⟩
  rcases cases_ with ⟨same, answer⟩ | ⟨ne, t, tended, -, answer⟩
  · rw [answer]
    have known := fresh₁.formed.lookup_eq_some.mp isField
    refine ⟨⟨⟨fresh₁, fun isDeclaring => (nomatch isDeclaring)⟩, fun scope mem => ?_⟩, grown₁,
      marked ⟨known.1, known.2.2⟩⟩
    exact Nat.lt_of_lt_of_le (open_ scope (stack₁ ▸ mem)) grown₁.scopes_size
  · rw [answer]
    rw [← tended.findVisible] at visible
    obtain ⟨fresh₂, grown₂, named⟩ :=
      (tended.fresh fresh₁).createAlias (tended.scopes_size ▸ bound₁) visible ne
    have grown := (grown₁.trans (.of_sameShape tended.toSameShape)).trans grown₂
    refine ⟨⟨⟨fresh₂, fun isDeclaring => (nomatch isDeclaring)⟩, fun scope mem => ?_⟩, grown,
      marked named⟩
    exact Nat.lt_of_lt_of_le (open_ scope (stack₁ ▸ mem)) grown.scopes_size

theorem tended_evalMarked (treatment : EvalTreatment) (scope : ScopeId) (t : ScopeTree) :
    Tended t (evalMarked treatment scope t) := by
  refine relates_foldl .refl .trans (fun t id => ?_) _ t
  exact tended_modifyScope t id _ fun _ => ⟨rfl, rfl, rfl, rfl, rfl⟩

theorem lexical_refers : (lexical false).Refers where
  resolve := runs_resolve
  evalMarked treatment scope := allows_tended (tended_evalMarked treatment scope)

/-! ## Names of function expressions -/

theorem tended_keepName (t : ScopeTree) (f : FieldId) :
    Tended t (t.modifyField f fun f => { f with isAmbiguous := true, canCrunch := false }) :=
  tended_modifyField t f _ fun _ => ⟨rfl, rfl, rfl, rfl, rfl⟩

theorem runs_keepAmbiguous (f : FieldId) :
    (lexical false).bond.Runs before (keepAmbiguous f) fun _ => [] := by
  refine Runs.read (fun _ => []) (fun _ _ _ _ mem => (nomatch mem)) fun s => ?_
  simp only
  split
  · exact Runs.pure (by simp)
  · refine (Law.runs_tell _ _ _).bind fun _ => Law.runs_modifyTree (allows_tended fun t => ?_)
    exact (tended_keepName t f).trans (tended_keepName _ _)

theorem runs_checkFunctionNames : (lexical false).bond.Runs before checkFunctionNames fun _ => [] := by
  refine Runs.read (fun _ => []) (fun _ _ _ _ mem => (nomatch mem)) fun s => ?_
  generalize s.tree.fieldIds = fields
  generalize before ++ [] = before
  induction fields generalizing before with
  | nil => exact Runs.pure (by simp)
  | cons f rest ih => exact (runs_keepAmbiguous f).bind fun _ => ih _

end Bind

/-- A mark as it is read: a plain name that is bound to nothing. -/
def Mark.IsUnbound : Mark → Prop
  | .name id | .use id => id.field = none ∧ ScopeTree.IsPlain id.name
  | .scope _ => False

/-- A program as it is read: its names are plain, and nothing is bound. -/
def Program.IsUnbound (p : Program) : Prop := ∀ mark ∈ p.marks, mark.IsUnbound

/-- A program whose names and scopes are in its tree, which is fresh. -/
structure BoundProgram.IsBound (p : BoundProgram) : Prop where
  fresh : p.tree.Fresh
  scope : p.program.scope = some ScopeTree.global
  valid : ∀ mark ∈ p.program.marks, mark.Valid p.tree

/-- Binding leaves a fresh tree that all names and scopes of the program are in. -/
theorem Program.bind_isBound (settings : Settings) {p : Program} (unbound : p.IsUnbound) :
    (p.bind settings).IsBound := by
  let start : Bind.State := ⟨.empty, #[], [ScopeTree.global]⟩
  have marks : ∀ mark ∈ p.marks, mark.Valid start.tree ∧ mark.IsPlain := by
    intro mark mem
    have known := unbound mark mem
    cases mark with
    | name id => exact ⟨fun f isField => (nomatch known.1.symm.trans isField), known.2⟩
    | use id => exact ⟨fun f isField => (nomatch known.1.symm.trans isField), known.2⟩
    | scope s => exact known.elim
  obtain ⟨holds₁, grown₁, fits₁⟩ :=
    Bind.lexical_declares.inStep.program { p with scope := some ScopeTree.global } () start
      ⟨⟨fresh_empty, fun _ f => by rw [field_empty]; rfl⟩, by simp [start, ScopeTree.global, empty]⟩
      marks
  obtain ⟨holds₂, grown₂, fits₂⟩ :=
    (Bind.lexical_refers.inStep settings).program _ () _
      ⟨⟨holds₁.1.1, fun isDeclaring => (nomatch isDeclaring)⟩, holds₁.2⟩ fits₁
  have checked : (Bind.lexical false).bond.Runs [] Bind.checkFunctionNames fun _ => [] :=
    Bind.runs_checkFunctionNames
  obtain ⟨holds₃, grown₃, _⟩ := checked () _ holds₂ fun _ mem => (nomatch mem)
  exact ⟨holds₃.1.1, rfl, fun mark mem => (fits₂ mark mem).1.extends grown₃⟩

end Minifier
