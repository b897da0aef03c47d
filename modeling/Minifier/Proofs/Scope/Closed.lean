import Minifier.Proofs.Scope.Edits
import Minifier.Proofs.Stages

/-!
# No number out of range

Binding makes its tree by edits from the empty one, and every step after it goes on by edits, at all
stages of a program (`Program.Reaches.isInside`). So every scope and field that is read or written on
the way is there: the numbers come from the records of the tree, from the open scopes, or from the
marks of the program, and all of these are in range at every moment.
-/

set_option autoImplicit false

namespace Minifier

open ScopeTree List

theorem Mark.Valid.isIn {t : ScopeTree} {mark : Mark} (valid : mark.Valid t) : mark.IsIn t := by
  cases mark with
  | name id => exact fun f isField => (valid f isField).1
  | use id => exact fun f isField => (valid f isField).1
  | scope s => exact valid

/-! ## Binding -/

namespace Bind

open Bond

variable {t : ScopeTree}

/-- What both walks preserve: the tree is closed and changed by edits, and the open scopes are in
range. -/
def inside : Bond Unit State :=
  .alone (fun s => s.tree.IsClosed ∧ ∀ scope ∈ s.stack, scope < s.tree.scopes.size)
    (fun s s' => Edits s.tree s'.tree) (fun s mark => mark.IsIn s.tree)
    (fun s => .refl s.tree) (fun first second => first.trans second)
    (fun edits isIn => isIn.edits edits)

/-- The law by which they do. -/
def editing : Law where
  holds := IsClosed
  grows := Edits
  fits t mark := mark.IsIn t
  refl := .refl
  trans first second := first.trans second
  mono edits isIn := isIn.edits edits
  sizes edits := edits.sizes.1
  scope := Iff.rfl
  root closed := closed.root
  hoist closed bound := closed.functionScopeOf_lt bound

variable {before : List Mark}

theorem allows_edits {α : Type} {change : ScopeTree → α × ScopeTree} {after : α → List Mark}
    (edits : ∀ t, t.IsClosed → (∀ mark ∈ before, mark.IsIn t) →
      Edits t (change t).2 ∧ ∀ mark ∈ after (change t).1, mark.IsIn (change t).2) :
    editing.Allows before change after := by
  intro t closed fits
  obtain ⟨changes, isIn⟩ := edits t closed fits
  exact ⟨changes.closed closed, changes, isIn⟩

theorem allows_modify {change : ScopeTree → ScopeTree}
    (edits : ∀ t, t.IsClosed → (∀ mark ∈ before, mark.IsIn t) → Edits t (change t)) :
    editing.Allows before (fun t => ((), change t)) fun _ => [] :=
  allows_edits fun t closed fits => ⟨edits t closed fits, fun _ mem => (nomatch mem)⟩

theorem editing_declares : editing.Declares where
  declareIn scope id kind isFunction position := by
    have declares : editing.Allows [.scope scope, .name id] (·.declare scope id.name kind id.span)
        fun f => [.name { id with field := some f }] := by
      refine allows_edits fun t closed fits => ?_
      obtain ⟨edits, bound⟩ := closed.edits_declare (fits (.scope scope) (by simp)) id.name kind id.span
      refine ⟨edits, fun mark mem => ?_⟩
      obtain rfl := mem_singleton.mp mem
      rintro f ⟨⟩
      exact bound
    refine (Law.runs_onTree declares).bind fun f => ?_
    refine (Law.runs_modifyTree (allows_modify fun t _ fits => ?_)).bind fun _ => Runs.pure (by simp_all)
    exact .modifyField (fits (.name { id with field := some f }) (by simp) f rfl) fun _ => ⟨rfl, rfl⟩
  arguments scope span := allows_edits fun t closed fits =>
    ⟨(closed.edits_declare (fits (.scope scope) (by simp)) _ _ span).1, fun _ mem => (nomatch mem)⟩
  createScope kind around span _ := by
    refine allows_edits fun t _ fits =>
      ⟨.single (.createScope kind span (fits (.scope around) (by simp))), fun mark mem => ?_⟩
    obtain rfl := mem_singleton.mp mem
    show t.scopes.size < (t.createScope kind around span).2.scopes.size
    rw [scopes_size_createScope]
    exact Nat.lt_succ_self _
  functionField scope field declared known := by
    refine allows_modify fun t _ fits => .single (.modifyScope (fits (.scope scope) (by simp)) ?_)
    refine fun s isIn => { isIn with functionField := fun f isField => ?_ }
    obtain ⟨id, rfl, isId⟩ := Option.bind_eq_some_iff.mp (known f isField)
    exact fits (.name id) (by simp) f isId

theorem declarations_inside : InStep inside {} declarations := editing_declares.inStep

/-! ### Names in use -/

/-- A mark that says no more than that a field is in range. -/
def fieldMark (f : FieldId) : Mark := .name ⟨"", .synthetic, some f⟩

@[simp] theorem isIn_fieldMark {f : FieldId} : (fieldMark f).IsIn t ↔ f < t.fields.size := by
  simp [fieldMark, Mark.IsIn]

/-- The scope and the field of a name that is found, as marks. -/
def foundMarks (id : Ident) (found : ScopeId × FieldId) : List Mark :=
  [.scope found.1, .name { id with field := some found.2 }, .use { id with field := some found.2 }]

theorem inside_findOrDeclare (scope : ScopeId) (isCallee : Bool) (id : Ident) :
    editing.bond.Runs [.scope scope] (findOrDeclare scope isCallee id) (foundMarks id) := by
  rintro _ s ⟨closed, open_⟩ fits
  have bound : scope < s.tree.scopes.size := fits (.scope scope) mem_cons_self
  have marked {t : ScopeTree} {found : ScopeId × FieldId} (isScope : found.1 < t.scopes.size)
      (isField : found.2 < t.fields.size) : ∀ mark ∈ foundMarks id found, mark.IsIn t := by
    intro mark mem
    simp only [foundMarks, mem_cons, not_mem_nil, or_false] at mem
    rcases mem with rfl | rfl | rfl
    · exact isScope
    all_goals
      rintro f ⟨⟩
      exact isField
  cases visible : s.tree.findVisible scope id.name with
  | some found =>
    rw [findOrDeclare_of_visible visible]
    obtain ⟨isScope, isField⟩ := closed.findVisible_lt bound visible
    exact ⟨⟨closed, open_⟩, .refl _, marked isScope isField⟩
  | none =>
    obtain ⟨kind, report, -, answer⟩ := findOrDeclare_of_missing visible isCallee
    rw [answer]
    obtain ⟨edits, isField⟩ := closed.edits_declare closed.root id.name kind id.span
    exact ⟨⟨edits.closed closed, fun s mem => edits.scope_lt (open_ s mem)⟩, edits,
      marked (edits.scope_lt closed.root) isField⟩

theorem inside_resolve (isCallee : Bool) (id : Ident) :
    editing.bond.Runs before (resolve isCallee id) fun id => [.use id, .name id] := by
  refine Law.runs_currentScope.bind fun scope => ?_
  refine ((inside_findOrDeclare scope isCallee id).of_subset (by simp)).bind fun found => ?_
  obtain ⟨foundScope, field⟩ := found
  dsimp only
  split
  · exact Runs.pure (by simp [foundMarks])
  refine Runs.read (fun s => [fieldMark (s.tree.ultimate field)]) ?_ fun s => ?_
  · rintro s ⟨closed, _⟩ fits mark mem
    obtain rfl := mem_singleton.mp mem
    refine isIn_fieldMark.mpr (closed.ultimate_lt ?_)
    exact (fits (.name { id with field := some field }) (by simp [foundMarks]) _ rfl)
  have aliases {before : List Mark} (isScope : .scope scope ∈ before)
      (isField : .name { id with field := some field } ∈ before) :
      editing.bond.Runs before (do
        return { id with field := some (← onTree (·.createAlias scope field)) })
        fun id => [.use id, .name id] := by
    have creates : editing.bond.Runs before (onTree (·.createAlias scope field)) fun f =>
        [.use { id with field := some f }, .name { id with field := some f }] := by
      refine Law.runs_onTree <| allows_edits fun t closed fits => ?_
      obtain ⟨edits, bound⟩ := closed.edits_createAlias (fits _ isScope) (fits _ isField field rfl)
      refine ⟨edits, fun mark mem => ?_⟩
      simp only [mem_cons, not_mem_nil, or_false] at mem
      rcases mem with rfl | rfl
      all_goals
        rintro f ⟨⟩
        exact bound
    exact creates.bind fun _ => Runs.pure (by simp_all)
  split
  · refine Runs.bind (Law.runs_modifyTree <| allows_modify fun t _ fits => ?_) fun _ => aliases ?_ ?_
    · have bound := fits (fieldMark (s.tree.ultimate field)) (by simp)
      exact .modifyField (isIn_fieldMark.mp bound) fun _ => ⟨rfl, rfl⟩
    · simp [foundMarks]
    · simp [foundMarks]
  · exact aliases (by simp [foundMarks]) (by simp [foundMarks])

theorem edits_evalMarked (treatment : EvalTreatment) {scope : ScopeId} (closed : t.IsClosed)
    (bound : scope < t.scopes.size) : Edits t (evalMarked treatment scope t) := by
  refine .foldl _ t fun s mem t' edits => .modifyScope (edits.scope_lt ?_) fun _ =>
    ⟨rfl, rfl, rfl, rfl, rfl⟩
  rcases mem_append.mp mem with between | last
  · exact closed.chainUpTo_lt bound _ s between
  · rw [mem_singleton.mp last]
    exact closed.functionScopeOf_lt bound

theorem editing_refers : editing.Refers where
  resolve isCallee id := inside_resolve isCallee id
  evalMarked treatment scope := allows_modify fun _ closed fits =>
    edits_evalMarked treatment closed (fits (.scope scope) (by simp))

theorem references_inside (settings : Settings) : InStep inside {} (references settings) :=
  editing_refers.inStep settings

/-! ### Names of function expressions -/

theorem namesake_lt (closed : t.IsClosed) {field : Field} {outer : FieldId}
    (found : namesake? t field = some outer) : outer < t.fields.size := by
  unfold namesake? at found
  split at found
  · cases found
  simp only [bind, Option.bind_eq_some_iff] at found
  obtain ⟨parent, isParent, ⟨scope, f⟩, visible, found⟩ := found
  dsimp only at found
  split at found
  · obtain rfl := Option.some.inj found
    have bound := (closed.scopes field.scope).parent parent isParent
    exact closed.ultimate_lt (closed.findVisible_lt bound visible).2
  · cases found

theorem inside_keepAmbiguous (f : FieldId) :
    editing.bond.Runs [fieldMark f] (keepAmbiguous f) fun _ => [] := by
  refine Runs.read (fun s => (namesake? s.tree (s.tree.field f)).toList.map fieldMark) ?_ fun s => ?_
  · rintro s ⟨closed, _⟩ fits mark mem
    obtain ⟨outer, isOuter, rfl⟩ := mem_map.mp mem
    exact isIn_fieldMark.mpr (namesake_lt closed (Option.mem_toList.mp isOuter))
  cases isNamesake : namesake? s.tree (s.tree.field f) with
  | none =>
    simp only [isNamesake]
    exact Runs.pure (by simp)
  | some outer =>
    simp only [isNamesake]
    refine (Law.runs_tell _ _ _).bind fun _ => Law.runs_modifyTree <| allows_modify fun t _ fits => ?_
    have isField := isIn_fieldMark.mp (fits (fieldMark f) (by simp))
    have isOuter := isIn_fieldMark.mp (fits (fieldMark outer) (by simp))
    have first : Edits t (t.modifyField f fun f => { f with isAmbiguous := true, canCrunch := false }) :=
      .modifyField isField fun _ => ⟨rfl, rfl⟩
    exact first.trans (.modifyField (first.field_lt isOuter) fun _ => ⟨rfl, rfl⟩)

theorem inside_checkFunctionNames : editing.bond.Runs before checkFunctionNames fun _ => [] := by
  refine Runs.read (fun s => s.tree.fieldIds.map fieldMark) ?_ fun s => ?_
  · rintro s - - mark mem
    obtain ⟨f, isField, rfl⟩ := mem_map.mp mem
    exact isIn_fieldMark.mpr (mem_range.mp isField)
  generalize s.tree.fieldIds = fields
  have all : ∀ {before : List Mark}, (∀ f ∈ fields, fieldMark f ∈ before) →
      editing.bond.Runs before (fields.forM keepAmbiguous) fun _ => [] := by
    induction fields with
    | nil => exact fun _ => Runs.pure (by simp)
    | cons f rest ih =>
      intro before known
      have first : editing.bond.Runs before (keepAmbiguous f) fun _ => [] :=
        (inside_keepAmbiguous f).of_subset (by simp [known])
      refine first.bind fun _ => ih fun g mem => ?_
      exact mem_append_left _ (known g (mem_cons_of_mem f mem))
  exact all fun f mem => mem_append_right _ (mem_map_of_mem mem)

end Bind

/-- Binding makes a tree by edits, and marks a program with numbers that are in range. -/
theorem Program.edits_bind (settings : Settings) {p : Program} (unbound : p.IsUnbound) :
    Edits .empty (p.bind settings).tree := by
  let start : Bind.State := ⟨.empty, #[], [ScopeTree.global]⟩
  have marks : ∀ mark ∈ p.marks, mark.IsIn start.tree := by
    intro mark mem
    have known := unbound mark mem
    cases mark with
    | name id => exact fun f isField => by cases known.1.symm.trans isField
    | use id => exact fun f isField => by cases known.1.symm.trans isField
    | scope s => exact known.elim
  have opens : ∀ scope ∈ start.stack, scope < start.tree.scopes.size := by
    simp [start, ScopeTree.global, empty]
  obtain ⟨holds₁, edits₁, fits₁⟩ := Bind.declarations_inside.program
    { p with scope := some ScopeTree.global } () start ⟨isClosed_empty, opens⟩ marks
  obtain ⟨holds₂, edits₂, -⟩ := (Bind.references_inside settings).program _ () _ holds₁ fits₁
  have checked : Bind.editing.bond.Runs [] Bind.checkFunctionNames fun _ => [] :=
    Bind.inside_checkFunctionNames
  obtain ⟨-, edits₃, -⟩ := checked () _ holds₂ fun _ mem => (not_mem_nil mem).elim
  exact (edits₁.trans edits₂).trans edits₃

/-! ## Simplifying -/

/-- The rules change the tree by edits. -/
def Simplify.editing : Simplify.Law where
  holds t := t.IsClosed
  grows := Edits
  fits t mark := mark.IsIn t
  refl := .refl
  trans first second := first.trans second
  mono edits isIn := isIn.edits edits
  dropFunctions _ statements closed bound :=
    have edits := IsClosed.edits_dropFunctions statements closed bound
    ⟨edits.closed closed, edits⟩
  returnInitializer _ _ closed bound :=
    have edits := closed.edits_returnInitializer bound
    ⟨edits.closed closed, edits⟩

/-! ## Sharing literals -/

namespace SharedLiteral

/-- What replacing occurrences preserves: the tree is made by edits from the one in which the
variables are there. -/
def inside (tree : ScopeTree) : Bond Unit ScopeTree :=
  .alone (fun t => t.IsClosed ∧ Edits tree t) Edits
    (fun t mark => mark.IsIn t ∧ ∀ id, mark = .scope id → id < tree.scopes.size)
    .refl (fun first second => first.trans second)
    (fun edits isIn => ⟨isIn.1.edits edits, isIn.2⟩)

variable {tree : ScopeTree} {shared : List SharedLiteral}
  (known : ∀ s ∈ shared, s.field < tree.fields.size)
include known

theorem inside_replace (o : Occurrence) (e : Expr) (bound : o.scope < tree.scopes.size) :
    (inside tree).Keeps e.marks (pure e) (replace shared o e) Expr.marks := by
  rintro _ t ⟨closed, made⟩ fits
  cases found : shared.find? (·.key = o.key) with
  | none =>
    rw [replace_of_missing found]
    exact ⟨⟨closed, made⟩, .refl t, fits⟩
  | some s =>
    rw [replace_of_found found]
    have isField := made.field_lt (known s (mem_of_find?_eq_some found))
    obtain ⟨edits, isMention⟩ := closed.edits_mention isField (made.scope_lt bound)
    refine ⟨⟨edits.closed closed, made.trans edits⟩, edits, fun mark mem => ?_⟩
    obtain rfl | rfl := mem_marks_mention mem
    all_goals
      refine ⟨?_, fun _ isScope => (nomatch isScope)⟩
      rintro f ⟨⟩
      exact isMention

theorem inside_declareIn (fn fn' : Function) :
    (inside tree).Keeps fn'.marks (pure fn) (pure (declareIn shared tree fn')) Function.marks := by
  rintro _ t ⟨closed, made⟩ fits
  refine ⟨⟨closed, made⟩, .refl t, fun mark mem => ?_⟩
  obtain old | ⟨s, isShared, rfl⟩ := mem_marks_declareIn mem
  · exact fits mark old
  refine ⟨?_, fun _ isScope => (nomatch isScope)⟩
  rintro f ⟨⟩
  exact made.field_lt (known s isShared)

end SharedLiteral

namespace BoundProgram

variable {b b' : BoundProgram}

/-- Mentions of variables take the place of literals by edits. -/
theorem edits_shareLiterals (closed : b.tree.IsClosed) (isGlobal : b.program.scope = some global)
    (isIn : ∀ mark ∈ b.program.marks, mark.IsIn b.tree) {settings : Settings}
    {e : Edited BoundProgram} (isShared : b.shareLiterals settings = .ok e) :
    Edits b.tree e.value.tree := by
  obtain ⟨start, advanced, isShared⟩ := bind_eq_ok.mp isShared
  have first := edits_of_advance advanced
  have closed := first.closed closed
  split at isShared
  · have bound : ∀ o ∈ b.program.occurrences, o.scope < start.scopes.size := by
      refine Program.scope_occurrences_lt (fun id isScope => ?_) fun id mem => ?_
      · obtain rfl := Option.some.inj (isGlobal.symm.trans isScope)
        exact closed.root
      · exact first.scope_lt (isIn _ mem)
    obtain ⟨shares, known⟩ := closed.edits_shareAll bound
    have made := first.trans shares
    generalize start.shareAll b.program.occurrences = plan at shares known made isShared
    obtain ⟨shared, tree⟩ := plan
    obtain rfl := Except.ok.inj isShared
    have walks := LiteralWalk.inStep (I := SharedLiteral.inside tree) (fun fits => fits.2 _ rfl)
      (fun o e bound => SharedLiteral.inside_replace known o e bound)
      (SharedLiteral.inside_declareIn known)
    refine made.trans (walks.program b.program ⟨[b.program.scope], ()⟩ ⟨[b.program.scope], tree⟩
      ⟨rfl, fun id mem => ?_, shares.closed closed, .refl _⟩ fun mark mem => ?_).2.1
    · obtain rfl := Option.some.inj ((mem_singleton.mp mem).trans isGlobal)
      exact shares.scope_lt closed.root
    · refine ⟨(isIn mark mem).edits made, fun id isScope => ?_⟩
      subst isScope
      exact made.scope_lt (isIn _ mem)
  · obtain rfl := Except.ok.inj isShared
    exact first

theorem edits_simplify (closed : b.tree.IsClosed) (isIn : ∀ mark ∈ b.program.marks, mark.IsIn b.tree)
    (settings : Settings) : Edits b.tree (b.simplify settings).value.tree := by
  unfold BoundProgram.simplify
  split
  · exact ((Simplify.rules_inStep Simplify.editing settings).program b.program ()
      ⟨b.tree, b.report, false⟩ closed isIn).2.1
  · exact .refl _

/-- All numbers are in range, in the tree and in the program, and stay so at every step. -/
structure IsInside (b : BoundProgram) : Prop where
  made : Edits .empty b.tree
  closed : b.tree.IsClosed
  marks : ∀ mark ∈ b.program.marks, mark.IsIn b.tree
  step : ∀ b', b.Step b' → Edits b.tree b'.tree

/-- Every step is made of edits. -/
theorem IsSound.edits_step (sound : b.IsSound) (closed : b.tree.IsClosed) (step : b.Step b') :
    Edits b.tree b'.tree := by
  have isIn : ∀ mark ∈ b.program.marks, mark.IsIn b.tree := fun mark mem => (sound.valid mark mem).isIn
  cases step with
  | recount =>
    refine closed.edits_recount fun id isUse => ?_
    exact isIn (.use id) ((mem_uses_iff _ _).mp isUse)
  | orderDeclarations settings => exact .refl _
  | simplify settings => exact edits_simplify closed isIn settings
  | analyze isAnalyzed =>
    simp only [BoundProgram.analyze, ScopeTree.analyze, bind_eq_ok] at isAnalyzed
    obtain ⟨_, ⟨_, advanced, ⟨⟩⟩, ⟨⟩⟩ := isAnalyzed
    exact edits_of_advance advanced
  | reserve isReserved =>
    obtain ⟨tree, isTree, ⟨⟩⟩ := bind_eq_ok.mp isReserved
    exact closed.edits_reserve isTree
  | shareLiterals isShared => exact edits_shareLiterals closed sound.scope isIn isShared
  | crunch isShort =>
    obtain ⟨tree, isTree, ⟨⟩⟩ := bind_eq_ok.mp isShort
    exact closed.edits_crunch isTree
  | nameGenerated isLast =>
    obtain ⟨tree, isTree, ⟨⟩⟩ := bind_eq_ok.mp isLast
    exact edits_nameGenerated isTree

end BoundProgram

/-- At all stages of a program no number is out of range. -/
theorem Program.Reaches.isInside {p : Program} {b : BoundProgram} (reaches : p.Reaches b)
    (unbound : p.IsUnbound) : b.IsInside := by
  obtain ⟨settings, steps⟩ := reaches
  have made : Edits .empty b.tree := by
    induction steps with
    | refl => exact Program.edits_bind settings unbound
    | tail earlier step ih =>
      have sound : BoundProgram.IsSound _ := Program.Reaches.isSound ⟨settings, earlier⟩ unbound
      exact ih.trans (sound.edits_step (ih.closed isClosed_empty) step)
  have sound : b.IsSound := Program.Reaches.isSound ⟨settings, steps⟩ unbound
  have closed := made.closed isClosed_empty
  exact ⟨made, closed, fun mark mem => (sound.valid mark mem).isIn,
    fun b' step => sound.edits_step closed step⟩

end Minifier
