import Mathlib.Algebra.FreeMonoid.Basic
import Minifier.Proofs.Scope.Lookup

/-!
# Names that nothing declares

A name in use that nothing around it declares becomes a variable of the global scope, and only the
first mention of it does. What binding has to say about such names follows from the text of a
program alone: its free mentions are listed in the order of the text (`freeUses`), and what is
reported are the first ones of their names (`Program.bind_undeclared`).
-/

set_option autoImplicit false

namespace Minifier

open List hiding get

variable {t : ScopeTree}

/-- A name in use: whether it is what a call calls, and where it stands. -/
structure Mention where
  isCallee : Bool
  name : String
  span : Span

namespace Mention

variable (isKnown : String → Bool)

/-- The first mention of each name. -/
def firsts : List Mention → List Mention
  | [] => []
  | m :: rest => m :: (firsts rest).filter (·.name ≠ m.name)

/-- What is said about a name that nothing declares. -/
def diagnostic (m : Mention) : Diagnostic :=
  if m.isCallee then .of .undeclaredFunction m.span s!"Undeclared function '{m.name}'"
  else .of .undeclaredVariable m.span s!"Undeclared variable '{m.name}'"

theorem nodup_firsts (ms : List Mention) : ((firsts ms).map (·.name)).Nodup := by
  induction ms with
  | nil => exact .nil
  | cons m rest ih =>
    refine nodup_cons.mpr ⟨by simp, ?_⟩
    exact ih.sublist (filter_sublist.map _)

theorem firsts_append (a b : List Mention) :
    firsts (a ++ b) = firsts a ++ (firsts b).filter fun m => !a.any (·.name = m.name) := by
  induction a with
  | nil => simp [firsts]
  | cons m a ih =>
    simp only [cons_append, firsts, ih, filter_append, filter_filter, any_cons,
      Bool.not_or, ne_eq, decide_not, eq_comm]

/-- What is reported about some mentions, given the names that need no report. -/
def reports (isKnown : String → Bool) (ms : List Mention) : List Diagnostic :=
  ((firsts ms).filter fun m => !isKnown m.name && !predefinedGlobals.contains m.name).map diagnostic

theorem reports_append (a b : List Mention) : reports isKnown (a ++ b) =
    reports isKnown a ++ reports (fun name => isKnown name || a.any (·.name = name)) b := by
  unfold reports
  rw [firsts_append, filter_append, filter_filter, map_append]
  congr 3
  funext m
  rw [Bool.not_or, Bool.and_right_comm]

theorem reports_singleton (m : Mention) : reports isKnown [m] =
    if isKnown m.name || predefinedGlobals.contains m.name then [] else [m.diagnostic] := by
  simp only [reports, firsts, filter_nil, filter_singleton, ← Bool.not_or]
  cases isKnown m.name || predefinedGlobals.contains m.name <;> rfl

end Mention

/-- The names that a part of a program hoists, and the names in use that nothing in it declares, in
the order of the text. -/
abbrev FreeUses := Multiset String × FreeAddMonoid Mention

/-- The mentions of other names than some. -/
def FreeUses.besides (names : Multiset String) (ms : FreeAddMonoid Mention) :
    FreeAddMonoid Mention :=
  .ofList (ms.toList.filter (·.name ∉ names))

theorem FreeUses.besides_zero (ms : FreeAddMonoid Mention) : FreeUses.besides 0 ms = ms :=
  filter_eq_self.mpr fun _ _ => by simp

/-- The free uses of a tree. -/
def freeUses : Census FreeUses where
  use isCallee id := (0, .of ⟨isCallee, id.name, id.span⟩)
  declare id := ({id.name}, 0)
  function fn body :=
    (fn.hoistedName.map (·.name), FreeUses.besides (fn.opening body.1).names body.2)
  handler clause body := (body.1, FreeUses.besides clause.opening.names body.2)
  withBody _ body := body

/-- The first mentions of the names that a program uses but neither declares nor is given. -/
def Program.undeclared (p : Program) : List Mention :=
  (Mention.firsts (p.census freeUses).2.toList).filter fun m =>
    m.name ∉ p.hoisted ∧ m.name ∉ predefinedGlobals

/-- A diagnostic about a name that nothing declares. -/
def Diagnostic.isUndeclared (d : Diagnostic) : Bool :=
  d.finding = .undeclaredVariable || d.finding = .undeclaredFunction

namespace Bind

/-! ## Steps that are silent about undeclared names -/

/-- What has been reported about undeclared names. -/
def State.undeclared (s : State) : List Diagnostic := s.report.toList.filter (·.isUndeclared)

/-- A step reports no undeclared name, and what is known of its answer. -/
def Minds {α : Type} (m : Step α) (good : α → Prop) : Prop :=
  ∀ s, good (m s).1 ∧ (m s).2.undeclared = s.undeclared

section

variable {α β : Type} {m : Step α} {f : α → Step β} {good : α → Prop} {good' : β → Prop}

theorem Minds.pure {a : α} (known : good a) : Minds (Pure.pure a) good := fun _ => ⟨known, rfl⟩

theorem Minds.bind (first : Minds m good) (next : ∀ a, good a → Minds (f a) good') :
    Minds (m >>= f) good' := fun s =>
  have known := next _ (first s).1 (m s).2
  ⟨known.1, known.2.trans (first s).2⟩

theorem Minds.quiet (same : ∀ s, (m s).2.report = s.report) : Minds m fun _ => True := fun s =>
  ⟨trivial, by rw [State.undeclared, same, State.undeclared]⟩

end

theorem minds_tell {finding : Finding} (span : Span) (message : String)
    (other : (Diagnostic.of finding span message).isUndeclared = false) :
    Minds (tell finding span message) fun _ => True := fun s => by
  refine ⟨trivial, ?_⟩
  show (s.report.push _).toList.filter _ = s.report.toList.filter _
  rw [Array.toList_push, filter_append, filter_singleton, other]
  exact append_nil _

theorem minds_tellDuplicate (id : Ident) (what : String) :
    Minds (tellDuplicate id what) fun _ => True := minds_tell _ _ rfl

theorem minds_declareFunction (scope : ScopeId) (id : Ident) :
    Minds (declareFunction scope id) fun id' => id'.name = id.name := by
  refine Minds.bind (.quiet fun _ => rfl) fun s _ => ?_
  have rest (scope : ScopeId) : Minds (do
      return { id with field := some (← declareIn scope id .declared true none) })
        fun id' : Ident => id'.name = id.name :=
    Minds.bind (.quiet fun _ => rfl) fun _ _ => .pure rfl
  dsimp only
  split
  · exact (minds_tellDuplicate _ _).bind fun _ _ => rest _
  · exact rest _

theorem minds_declareParams (scope : ScopeId) : ∀ (params : List Ident) (position : Nat),
    Minds (declareParams scope params position) fun params' =>
      params'.map (·.name) = params.map (·.name)
  | [], _ => .pure rfl
  | id :: params, position => by
    refine Minds.bind (.quiet fun _ => rfl) fun s _ => ?_
    have rest : Minds (do
        let field ← declareIn scope id .parameter false (some position)
        return { id with field := some field } :: (← declareParams scope params (position + 1)))
          fun params' => params'.map (·.name) = (id :: params).map (·.name) :=
      Minds.bind (.quiet fun _ => rfl) fun field _ =>
        (minds_declareParams scope params (position + 1)).bind fun params' same =>
          .pure (congrArg (id.name :: ·) same)
    split
    · exact (minds_tellDuplicate _ _).bind fun _ _ => rest
    · exact rest

theorem minds_declareOwnName (scope : ScopeId) (id : Ident) :
    Minds (declareOwnName scope id) fun id' => id'.name = id.name := by
  refine Minds.bind (.quiet fun _ => rfl) fun s _ => ?_
  split
  · exact .pure rfl
  · exact Minds.bind (.quiet fun _ => rfl) fun _ _ => .pure rfl

/-- A function is entered under the names it has. -/
theorem minds_enterFunction (fn : Function) : Minds (enterFunction fn) fun fn' =>
    fn'.hoistedName.map (·.name) = fn.hoistedName.map (·.name) ∧
      ∀ hoisted, (fn'.opening hoisted).names = (fn.opening hoisted).names := by
  have around (scope : ScopeId) : Minds (nameAround fn scope) fun name =>
      name.map (·.name) = fn.name.map (·.name) := by
    unfold nameAround
    split
    · rename_i id isName
      split
      · exact (minds_declareFunction scope id).bind fun _ same => .pure (by simp [isName, same])
      · exact .pure (by rw [isName])
    · exact .pure (by rw [‹fn.name = none›])
  have inside (declared : Option Ident) (scope : ScopeId) : Minds (nameInside fn declared scope)
      fun name => name.map (·.name) = declared.map (·.name) := by
    unfold nameInside
    split
    · rename_i id
      split
      · exact .pure rfl
      · exact (minds_declareOwnName scope id).bind fun _ same => .pure (by simp [same])
    · exact .pure rfl
  rw [enterFunction_eq]
  refine Minds.bind (.quiet fun _ => rfl) fun scope _ => ?_
  refine (around scope).bind fun declared isName => ?_
  have opens (functionField : Option FieldId) : Minds (openFunction fn functionField) fun r =>
      r.2.map (·.name) = fn.params.map (·.name) :=
    Minds.bind (.quiet fun _ => rfl) fun scope _ => Minds.bind (.quiet fun _ => rfl) fun _ _ =>
      (minds_declareParams scope fn.params 0).bind fun _ same => .pure same
  refine (opens _).bind fun r sameParams => (inside declared r.1).bind fun name sameName => ?_
  refine Minds.bind (.quiet fun _ => rfl) fun _ _ => Minds.bind (.quiet fun _ => rfl) fun _ _ => ?_
  refine .pure ⟨?_, fun hoisted => ?_⟩
  · rw [Function.map_hoistedName, Function.map_hoistedName, sameName.trans isName]
  · simp only [Function.opening, map_append, Function.map_ownName, sameParams,
      sameName.trans isName]

/-- The first walk reports no undeclared name, and leaves the free mentions as they are. -/
theorem declarations_minds : freeUses.Tracks freeUses declarations fun s before after s' =>
    before = after ∧ s'.undeclared = s.undeclared where
  zero _ := ⟨rfl, rfl⟩
  add first second := ⟨by rw [first.1, second.1], second.2.trans first.2⟩
  use _ _ _ := ⟨rfl, rfl⟩
  declare _ _ := ⟨rfl, rfl⟩
  function fn body s s₁ _ inBody := by
    intro left
    obtain ⟨⟨hoisted, names⟩, silent⟩ := minds_enterFunction fn s
    have whole : freeUses.function fn (fn.body.census freeUses) =
        freeUses.function { (enterFunction fn s).1 with body } (body.census freeUses) := by
      rw [inBody.1]
      exact Prod.ext (congrArg Multiset.ofList hoisted.symm)
        (congrArg (FreeUses.besides · _) (names _).symm)
    obtain ⟨kind, name, params, old, scope, span⟩ := fn
    exact ⟨whole, inBody.2.trans silent⟩
  handler clause body s s₁ _ inBody := by
    obtain ⟨param, old, scope, span⟩ := clause
    exact ⟨congrArg (freeUses.handler _) inBody.1, inBody.2⟩
  withBody _ _ _ _ _ _ inBody := inBody

theorem minds_keepAmbiguous (f : FieldId) : Minds (keepAmbiguous f) fun _ => True := by
  refine Minds.bind (.quiet fun _ => rfl) fun s _ => ?_
  dsimp only
  split
  · exact .pure trivial
  · exact (minds_tell _ _ rfl).bind fun _ _ => .quiet fun _ => rfl

theorem undeclared_checkFunctionNames (s : State) :
    (checkFunctionNames s).2.undeclared = s.undeclared := by
  have all (fields : List FieldId) :
      Minds (fields.forM keepAmbiguous : Step Unit) fun _ => True := by
    induction fields with
    | nil => exact .pure trivial
    | cons f rest ih => exact (minds_keepAmbiguous f).bind fun _ _ => ih
  exact (all _ s).2

end Bind

/-! ## Names in use -/

open ScopeTree

/-- The global scope has a name. -/
def ScopeTree.knows (t : ScopeTree) (name : String) : Bool := ((t.scope global).lookup name).isSome

theorem ScopeTree.knows_addField (nonempty : 0 < t.scopes.size) (field : Field) (name : String) :
    (t.addField field).2.knows name =
      (t.knows name || (field.scope = global && name = field.name)) := by
  unfold knows Scope.lookup
  rw [scope_addField]
  by_cases isGlobal : field.scope = global
  · rw [if_pos ⟨isGlobal, nonempty⟩, lookup_append]
    by_cases same : name = field.name
    · simp [isGlobal, same]
    · simp [isGlobal, same, lookup_cons, beq_false_of_ne same]
  · simp [isGlobal]

theorem ScopeTree.knows_declare (nonempty : 0 < t.scopes.size) (declared : String) (kind : FieldKind)
    (span : Span) (name : String) :
    (t.declare global declared kind span).2.knows name = (t.knows name || name = declared) := by
  unfold declare
  split
  · by_cases same : name = declared <;> simp_all [knows]
  · rw [knows_addField nonempty]
    simp

theorem ScopeTree.knows_createAlias (nonempty : 0 < t.scopes.size) {scope : ScopeId}
    (inner : scope ≠ global) (outer : FieldId) (name : String) :
    (t.createAlias scope outer).2.knows name = t.knows name := by
  unfold createAlias
  dsimp only
  split
  · rfl
  · rw [knows_addField nonempty]
    simp [inner]

namespace Bind

variable {part : Survey} {o : Opening} {scope : ScopeId} (settings : Settings)

variable {s s' : State} {around : List Opening}

/-- A construct has a scope, with the variables that it declares. -/
def Opens (t : ScopeTree) (o : Opening) (scope : ScopeId) : Prop :=
  o.scope = some scope ∧ scope ≠ global ∧ ∀ name, t.hasVariable scope name = true ↔ name ∈ o.names

theorem Finds.opens (finds : Finds s s') (formed : s.tree.WellFormed) (opens : Opens s.tree o scope) :
    Opens s'.tree o scope :=
  ⟨opens.1, opens.2.1, fun name =>
    (finds.tree.hasVariable formed opens.2.1 name).trans (opens.2.2 name)⟩

/-- A place in a program when the walk comes to it: the scopes around it are those of the constructs
around it. -/
structure Stands (around : List Opening) (s : State) (part : Survey) : Prop where
  referring : s.IsReferring
  fits : innermost around = s.current
  chain : s.tree.chain s.current = scopesAround around
  names : ∀ o ∈ around, ∃ scope, Opens s.tree o scope
  openings : ∀ site ∈ part.2 around, ∀ o, site.item = .opening o → ∃ scope, Opens s.tree o scope ∧
    scope < s.tree.scopes.size ∧ (s.tree.scope scope).parent = some (innermost site.around)

/-- A name is visible if something around it declares it, or if the global scope has it. -/
theorem Stands.visible (stands : Stands around s part) (name : String) :
    s.tree.findVisible s.current name = none ↔
      (∀ o ∈ around, name ∉ o.names) ∧ s.tree.knows name = false := by
  have formed := stands.referring.formed
  constructor
  · intro missing
    have none (scope : ScopeId) (isAround : scope ∈ scopesAround around) :
        (s.tree.scope scope).lookup name = none := by
      rw [← stands.chain, mem_chain_iff formed.parentsFirst] at isAround
      exact findVisible_eq_none formed.parentsFirst missing isAround
    refine ⟨fun o mem declares => ?_, by rw [knows, none _ (by simp [scopesAround])]; rfl⟩
    obtain ⟨scope, isScope, -, names⟩ := stands.names o mem
    have has := (names name).mpr declares
    rw [hasVariable, none scope (by simp [scopesAround]; exact .inl ⟨o, mem, isScope⟩)] at has
    cases has
  · rintro ⟨free, unknown⟩
    -- the variable behind whatever is found is in one of the scopes around
    refine Option.eq_none_iff_forall_ne_some.mpr ?_
    rintro ⟨x, f⟩ found
    obtain ⟨within, isField, -⟩ := findVisible_eq_some formed.parentsFirst found
    obtain ⟨bound, isScope, isName⟩ := formed.lookup_eq_some.mp isField
    have isVariable : s.tree.IsVariable (s.tree.ultimate f) _ name :=
      ⟨Nat.lt_of_le_of_lt (formed.ultimate_le f) bound, rfl, (formed.ultimate_name f).trans isName,
        outer_ultimate formed.outersFirst f⟩
    have isAround := (mem_chain_iff formed.parentsFirst).mpr
      (within.trans (isScope ▸ formed.within_ultimate f))
    rw [stands.chain, scopesAround, mem_append, mem_filterMap, mem_singleton] at isAround
    rcases isAround with ⟨o, mem, isScope⟩ | isGlobal
    · obtain ⟨scope, isScope', -, names⟩ := stands.names o mem
      obtain rfl := Option.some.inj (isScope'.symm.trans isScope)
      exact free o mem ((names name).mp (formed.hasVariable_iff.mpr ⟨_, isVariable⟩))
    · rw [isGlobal] at isVariable
      have known := formed.lookup_eq_some.mpr ⟨isVariable.1, isVariable.2.1, isVariable.2.2.1⟩
      rw [knows, known] at unknown
      cases unknown

theorem Stands.finds (stands : Stands around s part) (finds : Finds s s') : Stands around s' part := by
  have formed := stands.referring.formed
  have current : s'.current = s.current := by rw [State.current, finds.stack, State.current]
  refine ⟨finds.isReferring stands.referring, stands.fits.trans current.symm, ?_, ?_, ?_⟩
  · rw [current, finds.tree.grown.chain formed.parentsFirst finds.tree.formed.parentsFirst
      stands.referring.current_lt, stands.chain]
  · exact fun o mem => (stands.names o mem).imp fun _ => finds.opens formed
  · intro site mem o isOpening
    obtain ⟨scope, opens, bound, parent⟩ := stands.openings site mem o isOpening
    refine ⟨scope, finds.opens formed opens, finds.tree.scopes ▸ bound, ?_⟩
    rw [finds.tree.grown.parent scope bound, parent]

theorem Stands.left {a b : Survey} (stands : Stands around s (a + b)) : Stands around s a :=
  { stands with openings := fun site mem => stands.openings site (Multiset.mem_add.mpr (.inl mem)) }

theorem Stands.right {a b : Survey} (stands : Stands around s (a + b)) : Stands around s b :=
  { stands with openings := fun site mem => stands.openings site (Multiset.mem_add.mpr (.inr mem)) }

theorem Stands.inside {body : Survey} {outer inner : List Ident} {hoisted : Multiset String}
    (stands : Stands around s (hoisted, opened o outer inner body.2)) :
    Stands (o :: around) { s with stack := o.scope.getD s.current :: s.stack } body := by
  obtain ⟨scope, opens, bound, parent⟩ := stands.openings _ (mem_opened.mpr (.inl rfl)) o rfl
  have isScope := opens.1
  rw [isScope, Option.getD_some]
  refine ⟨⟨stands.referring.formed, forall_mem_cons.mpr ⟨bound, stands.referring.isOpen⟩⟩,
    innermost_cons isScope around, ?_, forall_mem_cons.mpr ⟨⟨scope, opens⟩, stands.names⟩, ?_⟩
  · show s.tree.chain scope = _
    rw [chain_of_parent stands.referring.formed.parentsFirst parent, stands.fits, stands.chain]
    simp [scopesAround, isScope]
  · exact fun site mem => stands.openings site (mem_opened.mpr (.inr (.inr (.inr mem))))

/-- The mentions of names that no construct around declares. -/
def unseen (around : List Opening) (ms : FreeAddMonoid Mention) : List Mention :=
  ms.toList.filter fun m => ∀ o ∈ around, m.name ∉ o.names

theorem unseen_besides (o : Opening) (around : List Opening) (ms : FreeAddMonoid Mention) :
    unseen around (FreeUses.besides o.names ms) = unseen (o :: around) ms := by
  simp only [unseen, FreeUses.besides, FreeAddMonoid.toList_ofList, filter_filter,
    forall_mem_cons, Bool.decide_and, Bool.and_comm]

/-- Some mentions have been looked up: the global scope has their names, and the first ones of those
that it did not have are reported. -/
structure Told (around : List Opening) (s : State) (ms : FreeAddMonoid Mention) (s' : State) :
    Prop where
  finds : Finds s s'
  report : s'.report.toList = s.report.toList ++ Mention.reports s.tree.knows (unseen around ms)
  knows : ∀ name, s'.tree.knows name = (s.tree.knows name || (unseen around ms).any (·.name = name))

theorem Told.zero (referring : s.IsReferring) : Told around s 0 s :=
  ⟨⟨rfl, .refl referring.formed⟩, (append_nil _).symm, fun _ => (Bool.or_false _).symm⟩

theorem Told.add {a b : FreeAddMonoid Mention} {s₁ : State} (first : Told around s a s₁)
    (second : Told around s₁ b s') : Told around s (a + b) s' := by
  have whole : unseen around (a + b) = unseen around a ++ unseen around b := filter_append ..
  refine ⟨first.finds.trans second.finds, ?_, fun name => ?_⟩
  · rw [second.report, first.report, whole, Mention.reports_append, append_assoc,
      funext first.knows]
  · rw [second.knows, first.knows, whole, any_append, Bool.or_assoc]

/-- A construct whose scope is opened again. -/
theorem Told.opened {ms : FreeAddMonoid Mention} {s₁ : State}
    (told : Told (o :: around) { s with stack := o.scope.getD s.current :: s.stack } ms s₁) :
    Told around s (FreeUses.besides o.names ms) (pop s₁).2 := by
  refine ⟨⟨?_, told.finds.tree⟩, ?_, ?_⟩
  · show s₁.stack.tail = s.stack
    rw [told.finds.stack, tail_cons]
  · rw [unseen_besides]
    exact told.report
  · rw [unseen_besides]
    exact told.knows

theorem report_findOrDeclare {id : Ident} (missing : s.tree.findVisible scope id.name = none)
    (isCallee : Bool) : (findOrDeclare scope isCallee id s).2.report =
      if predefinedGlobals.contains id.name then s.report
      else s.report.push (Mention.diagnostic ⟨isCallee, id.name, id.span⟩) := by
  simp only [findOrDeclare, bind, StateT.bind, get, getThe, MonadStateOf.get, StateT.get, pure,
    missing]
  by_cases isPredefined : predefinedGlobals.contains id.name = true
  · simp only [isPredefined]
    rfl
  · simp only [isPredefined]
    cases isCallee <;> rfl

/-- Once a name is found, its alias is no matter of the global scope. -/
theorem resolve_silent (referring : s.IsReferring) (isCallee : Bool) (id : Ident) :
    let r := findOrDeclare s.current isCallee id s
    (resolve isCallee id s).2.report = r.2.report ∧
      ∀ name, (resolve isCallee id s).2.tree.knows name = r.2.tree.knows name := by
  intro r
  obtain ⟨finds, visible⟩ := finds_findOrDeclare referring isCallee id
  have ordered := finds.tree.formed.parentsFirst
  rcases resolve_cases isCallee id s with ⟨-, answer⟩ | ⟨ne, t, trims, -, answer⟩
  · rw [answer]
    exact ⟨rfl, fun _ => rfl⟩
  · rw [answer]
    obtain ⟨within, -⟩ := findVisible_eq_some ordered visible
    have inner : s.current ≠ global :=
      Nat.ne_of_gt (Nat.zero_lt_of_lt (Nat.lt_of_le_of_ne (within.le ordered) ne))
    refine ⟨rfl, fun name => (knows_createAlias ?_ inner _ name).trans ?_⟩
    · exact trims.scopes_size ▸ finds.tree.formed.nonempty
    · rw [knows, trims.lookup]
      rfl

/-- A name in use is reported if nothing around it declares it and it is the first of its name. -/
theorem Told.resolve (stands : Stands around s part) (isCallee : Bool) (id : Ident) :
    Told around s (.of ⟨isCallee, id.name, id.span⟩) (Bind.resolve isCallee id s).2 := by
  have visible := stands.visible id.name
  obtain ⟨report, knows⟩ := resolve_silent stands.referring isCallee id
  have alone : unseen around (.of ⟨isCallee, id.name, id.span⟩) =
      if ∀ o ∈ around, id.name ∉ o.names then [⟨isCallee, id.name, id.span⟩] else [] := by
    simp [unseen, filter_singleton]
  cases isVisible : s.tree.findVisible s.current id.name with
  | some found =>
    have known (free : ∀ o ∈ around, id.name ∉ o.names) : s.tree.knows id.name = true := by
      refine eq_true_of_ne_false fun unknown => ?_
      rw [visible.mpr ⟨free, unknown⟩] at isVisible
      cases isVisible
    rw [findOrDeclare_of_visible isVisible] at report knows
    refine ⟨(finds_resolve stands.referring isCallee id).1, ?_, fun name => ?_⟩
    · rw [report, alone]
      split
      · rw [Mention.reports_singleton, known ‹_›]
        exact (append_nil _).symm
      · exact (append_nil _).symm
    · rw [knows, alone]
      split
      · by_cases same : id.name = name
        · rw [← same, known ‹_›, Bool.true_or]
        · simp [same]
      · simp
  | none =>
    obtain ⟨free, unknown⟩ := visible.mp isVisible
    refine ⟨(finds_resolve stands.referring isCallee id).1, ?_, fun name => ?_⟩
    · rw [report, report_findOrDeclare isVisible, alone, if_pos free, Mention.reports_singleton,
        unknown, Bool.false_or]
      split <;> simp
    · obtain ⟨kind, _, -, answer⟩ := findOrDeclare_of_missing isVisible isCallee
      rw [knows, answer, alone, if_pos free, knows_declare stands.referring.formed.nonempty]
      simp [eq_comm]

theorem Told.use (stands : Stands around s part) (isCallee : Bool) (id : Ident) :
    Told around s (.of ⟨isCallee, id.name, id.span⟩) (Bind.use settings isCallee id s).2 := by
  rcases use_cases settings isCallee id s with same | marks
  · rw [same]
    exact .resolve stands isCallee id
  · have marked := finds_evalMarked settings stands.referring
    have told := Told.resolve (stands.finds marked) isCallee id
    have knows : (evalMarked settings.evalTreatment s.current s.tree).knows = s.tree.knows := by
      funext name
      rw [ScopeTree.knows, (tended_evalMarked _ _ _).lookup]
      rfl
    rw [marks]
    refine ⟨marked.trans told.finds, ?_, fun name => ?_⟩
    · rw [told.report, knows]
    · rw [told.knows, knows]

/-- The second walk reports the undeclared names of a program part by part. -/
theorem references_told : freeUses.Tracks survey (references settings) fun s before part s' =>
      before.1 = part.1 ∧ ∀ around, Stands around s part → Told around s before.2 s' where
  zero s := ⟨rfl, fun around stands => .zero stands.referring⟩
  add first second := by
    refine ⟨congrArg₂ (· + ·) first.1 second.1, fun around stands => ?_⟩
    have left := first.2 around stands.left
    exact left.add (second.2 around (stands.right.finds left.finds))
  use isCallee id s := ⟨rfl, fun around stands => .use settings stands isCallee id⟩
  declare id s := ⟨rfl, fun around stands => .zero stands.referring⟩
  function fn body s s₁ _ inBody := by
    intro left
    obtain ⟨kind, name, params, old, scope, span⟩ := fn
    refine ⟨rfl, fun around stands => ?_⟩
    show Told around s (FreeUses.besides (Function.opening _ (old.census freeUses).1).names _) _
    rw [inBody.1]
    exact (inBody.2 _ stands.inside).opened
  handler clause body s s₁ _ inBody := by
    obtain ⟨param, old, scope, span⟩ := clause
    exact ⟨inBody.1, fun around stands => (inBody.2 _ stands.inside).opened⟩
  withBody scope span s s₁ a b inBody := by
    refine ⟨inBody.1, fun around stands => ?_⟩
    show Told around s a.2 _
    rw [← FreeUses.besides_zero a.2]
    exact (inBody.2 _ stands.inside).opened

/-- The program as a whole, when the second walk comes to it. -/
theorem Declared.stands {before : Survey} {s₂ : State} (declared : Declared start before s)
    (referred : Referred [] s before part s₂) : Stands [] s part := by
  have ready := declared.ready
  refine ⟨ready.referring, ready.fits, ?_, by simp, fun site mem o isOpening => ?_⟩
  · have isGlobal : s.current = global := ready.fits.symm
    have isTop : (s.tree.scope global).parent = none :=
      declared.tree.grown.parent global (by decide)
    rw [isGlobal, chain_of_no_parent isTop]
    rfl
  · have noUse (id : Ident) : site.item ≠ .use id := by simp [isOpening]
    have mem := (referred.others site noUse).mp mem
    obtain ⟨scope, isScope, new, bound, -, parent, names⟩ :=
      declared.openings [] fits_start site mem o isOpening
    exact ⟨scope, ⟨isScope, Nat.ne_of_gt new, names⟩, bound, parent⟩

/-- After the first walk the global scope has what the program hoists, and nothing else. -/
theorem Declared.knows_eq (declared : Declared start part s) (name : String) :
    s.tree.knows name = decide (name ∈ part.1) := by
  have formed := declared.tree.bare.formed
  rw [Bool.eq_iff_iff, decide_eq_true_iff, declared.global_iff, ScopeTree.knows,
    Option.isSome_iff_exists]
  refine exists_congr fun f => ?_
  simp [formed.lookup_eq_some, IsVariable, declared.tree.bare.noAlias f]

end Bind

theorem Mention.filter_reports (isKnown : String → Bool) (ms : List Mention) :
    (reports isKnown ms).filter (·.isUndeclared) = reports isKnown ms := by
  refine filter_eq_self.mpr fun d mem => ?_
  obtain ⟨m, -, rfl⟩ := mem_map.mp mem
  unfold diagnostic
  split <;> rfl

/-- What binding has to say about names that nothing declares: one diagnostic for each of them, at
its first mention, in the order of these mentions. -/
theorem Program.bind_undeclared (settings : Settings) (p : Program) :
    (p.bind settings).report.toList.filter (·.isUndeclared) = p.undeclared.map Mention.diagnostic ∧
      (p.undeclared.map (·.name)).Nodup := by
  let p₀ : Program := { p with scope := some global }
  let r₁ := p₀.walk Bind.declarations Bind.start
  let r₂ := r₁.1.walk (Bind.references settings) r₁.2
  obtain ⟨declared, alike⟩ :=
    Bind.declarations_declared.program p₀ Bind.start Bind.isDeclaring_start
  obtain ⟨same, silent⟩ := Bind.declarations_minds.program p₀ Bind.start
  have referred := (Bind.references_referred settings).program r₁.1 r₁.2 [] declared.ready
  have told := ((Bind.references_told settings).program r₁.1 r₁.2).2 [] (declared.stands referred)
  have knows (name : String) : r₁.2.tree.knows name = decide (name ∈ p.hoisted) := by
    rw [declared.knows_eq, ← alike.hoisted]
    rfl
  have free : Bind.unseen [] (r₁.1.census freeUses).2 = (p.census freeUses).2.toList := by
    rw [← same]
    exact filter_eq_self.mpr (by simp)
  refine ⟨?_, (Mention.nodup_firsts _).sublist (filter_sublist.map _)⟩
  calc (p.bind settings).report.toList.filter (·.isUndeclared)
    _ = r₂.2.undeclared := Bind.undeclared_checkFunctionNames r₂.2
    _ = r₁.2.undeclared ++ Mention.reports r₁.2.tree.knows (p.census freeUses).2.toList := by
      rw [Bind.State.undeclared, told.report, filter_append, Mention.filter_reports, free]
      rfl
    _ = Mention.reports r₁.2.tree.knows (p.census freeUses).2.toList := by
      rw [silent]
      rfl
    _ = p.undeclared.map Mention.diagnostic := by
      unfold Mention.reports undeclared
      congr 2
      funext m
      rw [knows, Bool.decide_and, decide_not, decide_not, contains_eq_mem]

end Minifier
