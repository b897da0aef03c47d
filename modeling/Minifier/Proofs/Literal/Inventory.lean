import Mathlib.Algebra.Group.Pi.Basic
import Minifier.Proofs.SharedLiteral
import Minifier.Proofs.Syntax.Related

/-!
# What a walk over literals finds

A walk over literals stops at literals and at expressions that stay as they are, and follows the
scopes around the place where it is. `LiteralWalk.Follows` says of a relation what it has to satisfy
at the places that matter, for the walk as a whole to satisfy it.

The inventory of a program lists the literals that such a walk comes to, as occurrences, and all
names. The occurrences that are collected are those of the inventory (`Program.coe_occurrences`).
-/

set_option autoImplicit false

namespace Minifier

open Multiset

variable {around : Option Form} {e : Expr}

/-! ## Following a walk -/

namespace LiteralWalk

variable {σ M N : Type} [AddMonoid M] [AddMonoid N]

/-- What becomes of a literal at a place. -/
def visited (visit : Occurrence → Expr → StateM σ Expr) (scopes : List (Option ScopeId)) (e : Expr)
    (s : σ) : Expr × σ :=
  match occurrence? scopes e with
  | some o => visit o e s
  | none => (e, s)

/-- An answer that a walk over literals has. -/
theorem answer_cases {visit : Occurrence → Expr → StateM σ Expr} {around : Option Form} {e e' : Expr}
    {s : State σ} (isAnswer : (atExpr visit around e s).1 = some e') :
    (isSpared around e = true ∧ e' = e ∧ (atExpr visit around e s).2 = s) ∨
      (isSpared around e = false ∧ (Literal.of? e).isSome ∧ e' = (visited visit s.around e s.inner).1 ∧
        (atExpr visit around e s).2 = { s with inner := (visited visit s.around e s.inner).2 }) := by
  rw [atExpr_apply] at isAnswer ⊢
  cases spared : isSpared around e with
  | true =>
    simp only [spared, if_true, Option.some.injEq] at isAnswer ⊢
    exact .inl ⟨trivial, isAnswer.symm, trivial⟩
  | false =>
    refine .inr ⟨rfl, ?_⟩
    simp only [spared, Bool.false_eq_true, if_false, visited] at isAnswer ⊢
    cases found : occurrence? s.around e with
    | some o =>
      have isLiteral : (Literal.of? e).isSome := by
        simp only [occurrence?, Option.bind_eq_bind, Option.bind_eq_some_iff] at found
        obtain ⟨literal, isLiteral, -⟩ := found
        simp [isLiteral]
      simp only [found, Option.some.injEq] at isAnswer
      exact ⟨isLiteral, isAnswer.symm, rfl⟩
    | none =>
      simp only [found] at isAnswer
      split at isAnswer
      · exact ⟨‹_›, (Option.some.inj isAnswer).symm, rfl⟩
      · cases isAnswer

theorem answer_none {visit : Occurrence → Expr → StateM σ Expr} {around : Option Form} {e : Expr}
    {s : State σ} (isAnswer : (atExpr visit around e s).1 = none) :
    isSpared around e = false ∧ Literal.of? e = none ∧ (atExpr visit around e s).2 = s := by
  rw [atExpr_apply] at isAnswer ⊢
  cases spared : isSpared around e with
  | true => simp [spared] at isAnswer
  | false =>
    refine ⟨rfl, ?_⟩
    simp only [spared, Bool.false_eq_true, if_false] at isAnswer ⊢
    cases found : occurrence? s.around e with
    | some o => simp [found] at isAnswer
    | none =>
      simp only [found] at isAnswer
      split at isAnswer
      · cases isAnswer
      · rename_i noLiteral
        exact ⟨by simpa using noLiteral, rfl⟩

/-- A relation that every step of a walk over literals fits into, given the scopes around it. -/
structure Follows (c : Census M) (c' : Census N) (visit : Occurrence → Expr → StateM σ Expr)
    (finish : Function → Function) (P : List (Option ScopeId) → σ → M → N → σ → Prop) : Prop where
  zero : ∀ scopes s, P scopes s 0 0 s
  add : ∀ {scopes s s₁ s₂ a a₁ b b₁}, P scopes s a a₁ s₁ → P scopes s₁ b b₁ s₂ →
    P scopes s (a + b) (a₁ + b₁) s₂
  /-- A census has no answers but where the walk has. -/
  quiet : ∀ around e, isSpared around e = false → Literal.of? e = none → c.expr? around e = none := by
    intros; rfl
  quiet' : ∀ around e, c'.expr? around e = none := by intros; rfl
  line : ∀ e, e.isString = false → ∀ m, c.line e m = m := by intros; rfl
  line' : ∀ e m, c'.line e m = m := by intros; rfl
  inner : ∀ m, c.inner m = m := by intros; rfl
  inner' : ∀ m, c'.inner m = m := by intros; rfl
  list : ∀ m, c.list m = m := by intros; rfl
  list' : ∀ m, c'.list m = m := by intros; rfl
  directive : ∀ (e : Expr) scopes s, e.isString = true →
    P scopes s (c.line e (e.census c none)) (c'.line e (e.census c' none)) s
  spared : ∀ around around' (e : Expr) scopes s, isSpared around e = true →
    P scopes s (e.census c around) (e.census c' around') s
  literal : ∀ around around' (e : Expr) scopes s, isSpared around e = false → (Literal.of? e).isSome →
    P scopes s (e.census c around) ((visited visit scopes e s).1.census c' around')
      (visited visit scopes e s).2
  /-- A variable in the place of a literal may be called. -/
  called : ∀ around (e : Expr) scopes s id span, (Literal.of? e).isSome →
    (visited visit scopes e s).1 = ⟨.ident id, span⟩ →
    P scopes s (e.census c around) (c'.use false id) (visited visit scopes e s).2 →
    P scopes s (e.census c around) (c'.use true id) (visited visit scopes e s).2 := by
    intro _ _ _ _ _ _ _ _ h; exact h
  use : ∀ isCallee id scopes s, P scopes s (c.use isCallee id) (c'.use isCallee id) s
  declare : ∀ id scopes s, P scopes s (c.declare id) (c'.declare id) s
  function : ∀ (fn : Function) (body : Block) scopes s s₁,
    P (fn.scope :: scopes) s (fn.body.census c) (body.census c') s₁ →
    P scopes s (fn.census c) ((finish { fn with body }).census c') s₁
  handler : ∀ (clause : CatchClause) (body : Block) scopes s s₁,
    P (clause.scope :: scopes) s (clause.body.census c) (body.census c') s₁ →
    P scopes s (handlerCensus c (some clause)) (handlerCensus c' (some { clause with body })) s₁
  withBody : ∀ scope a b scopes s s₁, P (scope :: scopes) s a b s₁ →
    P scopes s (c.withBody scope a) (c'.withBody scope b) s₁

namespace Follows

variable {c : Census M} {c' : Census N} {visit : Occurrence → Expr → StateM σ Expr}
  {finish : Function → Function} {P : List (Option ScopeId) → σ → M → N → σ → Prop}

theorem tracks (h : Follows c c' visit finish P) : c.Tracks c' (steps visit finish) fun s a b s₁ =>
      s₁.around = s.around ∧ P s.around s.inner a b s₁.inner where
  zero s := ⟨rfl, h.zero s.around s.inner⟩
  add := by
    intro s s₁ s₂ a a₁ b b₁ ⟨same, first⟩ ⟨same', second⟩
    exact ⟨same'.trans same, h.add first (same ▸ second)⟩
  line e s skips related := by
    rw [h.line e skips, h.line']
    exact related
  inner := by
    intro s s₁ a a₁ related
    rw [h.inner, h.inner']
    exact related
  list := by
    intro s s₁ a a₁ related
    rw [h.list, h.list']
    exact related
  answered around around' e s e' _ isAnswer := by
    obtain ⟨spared, rfl, same⟩ | ⟨notSpared, isLiteral, rfl, after⟩ := answer_cases isAnswer
    · have same : ((steps visit finish).expr? around e' s).2 = s := same
      rw [same]
      exact ⟨rfl, h.spared around around' e' s.around s.inner spared⟩
    · have after : ((steps visit finish).expr? around e s).2 = _ := after
      rw [after]
      exact ⟨rfl, h.literal around around' e s.around s.inner notSpared isLiteral⟩
  unanswered around around' form span s _ isAnswer := by
    obtain ⟨notSpared, noLiteral, same⟩ := answer_none isAnswer
    exact ⟨same, .inl ⟨h.quiet around ⟨form, span⟩ notSpared noLiteral, h.quiet' _ _⟩⟩
  called around e s id span isAnswer := by
    obtain ⟨spared, rfl, -⟩ | ⟨-, isLiteral, isName, after⟩ := answer_cases isAnswer
    · cases spared
    · have after : ((steps visit finish).expr? around e s).2 = _ := after
      rw [after]
      exact fun ⟨same, related⟩ =>
        ⟨same, h.called around e s.around s.inner id span isLiteral isName.symm related⟩
  quiet around id span := by
    rw [Expr.census, h.quiet']
    rfl
  use isCallee id s := ⟨rfl, h.use isCallee id s.around s.inner⟩
  declare id s := ⟨rfl, h.declare id s.around s.inner⟩
  function := by
    intro fn body s s₁ _ ⟨same, related⟩
    exact ⟨congrArg List.tail same, h.function fn body s.around s.inner s₁.inner related⟩
  handler := by
    intro clause body s s₁ _ ⟨same, related⟩
    exact ⟨congrArg List.tail same, h.handler clause body s.around s.inner s₁.inner related⟩
  withBody := by
    intro scope span s s₁ a b ⟨same, related⟩
    exact ⟨congrArg List.tail same, h.withBody scope a b s.around s.inner s₁.inner related⟩
  skipped st s skips := by
    cases st with
    | expr e => exact ⟨rfl, h.directive e s.around s.inner skips⟩
    | _ => cases skips

/-- What every step of a walk over literals fits into, the walk does. -/
theorem run (h : Follows c c' visit finish P) (p : Program) (s : σ) :
    P [p.scope] s (p.census c) ((LiteralWalk.run visit finish p s).1.census c')
      (LiteralWalk.run visit finish p s).2 :=
  (h.tracks.program p ⟨[p.scope], s⟩).2

end Follows

end LiteralWalk

/-! ## The inventory -/

/-- Something that a walk over literals comes to. -/
inductive Found where
  | literal (o : Occurrence)
  | name (id : Ident)

def Found.literal? : Found → Option Occurrence
  | .literal o => some o
  | .name _ => none

/-- The names among some marks. -/
def namesAmong (marks : List Mark) : Multiset Found :=
  Multiset.ofList (marks.filterMap fun
    | .name id => some (Found.name id)
    | _ => none)

@[simp] theorem mem_namesAmong {marks : List Mark} {found : Found} :
    found ∈ namesAmong marks ↔ ∃ id, .name id ∈ marks ∧ found = .name id := by
  simp only [namesAmong, mem_coe, List.mem_filterMap]
  constructor
  · rintro ⟨mark, mem, isName⟩
    cases mark with
    | name id => exact ⟨id, mem, (Option.some.inj isName).symm⟩
    | _ => cases isName
  · rintro ⟨id, mem, rfl⟩
    exact ⟨.name id, mem, rfl⟩

theorem filterMap_namesAmong (marks : List Mark) : (namesAmong marks).filterMap Found.literal? = 0 := by
  refine eq_zero_of_forall_notMem fun o mem => ?_
  obtain ⟨found, isFound, isLiteral⟩ := (mem_filterMap _ _).mp mem
  obtain ⟨id, -, rfl⟩ := mem_namesAmong.mp isFound
  cases isLiteral

open LiteralWalk

/-- The occurrence that an expression is, if it is one. -/
def occurrenceAt (scopes : List (Option ScopeId)) (e : Expr) : Multiset Found :=
  Multiset.ofList ((occurrence? scopes e).map Found.literal).toList

theorem filterMap_occurrenceAt (scopes : List (Option ScopeId)) (e : Expr) :
    (occurrenceAt scopes e).filterMap Found.literal? = Multiset.ofList (occurrence? scopes e).toList := by
  unfold occurrenceAt
  cases occurrence? scopes e <;> rfl

/-- What a walk over literals comes to, given the scopes around. -/
def inventory : Census (List (Option ScopeId) → Multiset Found) where
  expr? around e :=
    if isSpared around e then some fun _ => namesAmong e.marks
    else if (Literal.of? e).isSome then some fun scopes => occurrenceAt scopes e
    else none
  use _ id _ := namesAmong [.name id]
  declare id _ := namesAmong [.name id]
  function fn body scopes := namesAmong fn.headMarks + body (fn.scope :: scopes)
  handler clause body scopes := namesAmong clause.headMarks + body (clause.scope :: scopes)
  withBody scope body scopes := body (scope :: scopes)
  line e m := if e.isString then 0 else m

theorem inventory_spared (spared : isSpared around e = true) :
    e.census inventory around = fun _ => namesAmong e.marks := by
  cases e
  simp [inventory, spared]

theorem inventory_literal (notSpared : isSpared around e = false) (isLiteral : (Literal.of? e).isSome) :
    e.census inventory around = fun scopes => occurrenceAt scopes e := by
  cases e
  simp [inventory, notSpared, isLiteral]

theorem inventory_quiet (notSpared : isSpared around e = false) (noLiteral : Literal.of? e = none) :
    inventory.expr? around e = none := by
  simp [inventory, notSpared, noLiteral]

theorem inventory_directive (isString : e.isString = true)
    (m : List (Option ScopeId) → Multiset Found) : inventory.line e m = 0 := if_pos isString

theorem inventory_line (e : Expr) (other : e.isString = false)
    (m : List (Option ScopeId) → Multiset Found) : inventory.line e m = m :=
  if_neg (by simp [other])

/-- What is found is written somewhere: a name is among some marks, an occurrence is an expression. -/
def Found.IsWritten (marks : Multiset Mark) : Found → Prop
  | .name id => .name id ∈ marks
  | .literal o => ∃ scopes e, occurrence? scopes e = some o

theorem Found.IsWritten.mono {marks more : Multiset Mark} (subset : marks ⊆ more) :
    ∀ {found : Found}, found.IsWritten marks → found.IsWritten more
  | .name _, written => subset written
  | .literal _, written => written

theorem isWritten_namesAmong {names : List Mark} {marks : Multiset Mark}
    (subset : ∀ mark ∈ names, mark ∈ marks) : ∀ found ∈ namesAmong names, found.IsWritten marks := by
  intro found mem
  obtain ⟨id, isName, rfl⟩ := mem_namesAmong.mp mem
  exact subset _ isName

theorem inventory_relates_marks : inventory.Relates markCensus
    fun a b => ∀ scopes, ∀ found ∈ a scopes, found.IsWritten b where
  zero _ _ mem := by simp at mem
  add first second scopes found mem := by
    rcases mem_add.mp mem with left | right
    · exact (first scopes found left).mono (subset_of_le (le_add_right _ _))
    · exact (second scopes found right).mono (subset_of_le (le_add_left _ _))
  line e related scopes found mem := by
    cases isString : e.isString
    · rw [inventory_line e isString] at mem
      exact related scopes found mem
    · simp [inventory_directive isString] at mem
  expr around e := by
    cases spared : isSpared around e with
    | true =>
      refine .inr fun scopes found mem => ?_
      rw [inventory_spared spared] at mem
      refine isWritten_namesAmong (fun mark isMark => ?_) found mem
      rw [← Expr.coe_marks]
      exact mem_coe.mpr isMark
    | false =>
      cases isLiteral : Literal.of? e with
      | none => exact .inl ⟨inventory_quiet spared isLiteral, rfl⟩
      | some _ =>
        refine .inr fun scopes found mem => ?_
        rw [inventory_literal spared (by simp [isLiteral])] at mem
        simp only [occurrenceAt, mem_coe, Option.mem_toList, Option.map_eq_some_iff] at mem
        obtain ⟨o, isOccurrence, rfl⟩ := mem
        exact ⟨scopes, e, isOccurrence⟩
  use _ id scopes := isWritten_namesAmong fun mark mem => by
    show mark ∈ ([.use id, .name id] : List Mark)
    simp_all
  declare id scopes := isWritten_namesAmong fun mark mem => mem
  function fn related scopes found mem := by
    rcases mem_add.mp mem with head | inBody
    · exact isWritten_namesAmong (fun mark isMark => mem_add.mpr (.inl isMark)) found head
    · exact (related _ found inBody).mono (subset_of_le (le_add_left _ _))
  handler clause related scopes found mem := by
    rcases mem_add.mp mem with head | inBody
    · exact isWritten_namesAmong (fun mark isMark => mem_add.mpr (.inl isMark)) found head
    · exact (related _ found inBody).mono (subset_of_le (le_add_left _ _))
  withBody scope related scopes found mem :=
    (related _ found mem).mono (subset_of_le (le_add_left _ _))

namespace Program

/-- What a walk over the literals of a program comes to. -/
def found (p : Program) : Multiset Found := p.census inventory [p.scope]

theorem isWritten_of_found (p : Program) : ∀ found ∈ p.found, found.IsWritten p.marks := by
  intro found mem
  rw [p.coe_marks]
  exact inventory_relates_marks.related p _ found mem

/-- The occurrences that are collected are those in the inventory. -/
theorem coe_occurrences (p : Program) :
    (p.occurrences : Multiset Occurrence) = p.found.filterMap Found.literal? := by
  let note (o : Occurrence) (e : Expr) : StateM (Array Occurrence) Expr := do
    modify (·.push o)
    return e
  have follows : Follows inventory markCensus note id fun scopes s a _ s₁ =>
      (s₁.toList : Multiset Occurrence) = s.toList + (a scopes).filterMap Found.literal? :=
    { zero := by simp
      add := by
        intro scopes s s₁ s₂ a _ b _ first second
        rw [second, first, Pi.add_apply, filterMap_add, add_assoc]
      quiet := fun _ _ => inventory_quiet
      line := inventory_line
      directive := by
        intro e scopes s isString
        simp [inventory_directive isString]
      spared := by
        intro around _ e scopes s spared
        rw [inventory_spared spared, filterMap_namesAmong, add_zero]
      literal := by
        intro around _ e scopes s notSpared isLiteral
        rw [inventory_literal notSpared isLiteral, filterMap_occurrenceAt]
        unfold visited
        cases occurrence? scopes e with
        | none => exact (add_zero _).symm
        | some o => exact congrArg Multiset.ofList Array.toList_push
      use := fun _ _ _ => by simp [inventory, filterMap_namesAmong]
      declare := fun _ _ _ => by simp [inventory, filterMap_namesAmong]
      function := by
        intro fn body scopes s s₁ related
        obtain ⟨kind, name, params, body', scope, span⟩ := fn
        rw [related, Function.census]
        simp [inventory, filterMap_namesAmong]
      handler := by
        intro clause body scopes s s₁ related
        obtain ⟨param, body', scope, span⟩ := clause
        rw [related, handlerCensus]
        simp [inventory, filterMap_namesAmong]
      withBody := fun _ _ _ _ _ _ related => related }
  have whole := follows.run p #[]
  rw [coe_nil, zero_add] at whole
  exact whole

end Program

end Minifier
