import Mathlib.Data.Option.Basic
import Mathlib.Logic.Relation
import Minifier.Minify
import Minifier.Proofs.Scope.WellFormed
import Minifier.Proofs.Simplify.Census

/-!
# Changes at numbers that are there

Scopes and fields are known by their numbers, and a number that is out of range reads as nothing and
writes to nothing without a word. So that this never happens is a property of its own. A tree is
closed if every number in its records is in range (`ScopeTree.IsClosed`), and `ScopeTree.Edit` is one
change to a tree: to a scope or a field that is there, or a new scope or field, with no number in it
that is out of range. Whatever is made by such changes from a closed tree is closed, at every moment
(`ScopeTree.Edits.closed`).

Here are the ways through a tree, which do not leave it, and what is done to a tree from binding to
the last name, as edits.
-/

set_option autoImplicit false

namespace Minifier

open List

/-- The numbers in a scope are in range, among so many scopes and fields. -/
structure Scope.IsIn (scopes fields : Nat) (s : Scope) : Prop where
  parent : ∀ p ∈ s.parent, p < scopes
  children : ∀ c ∈ s.children, c < scopes
  table : ∀ f ∈ s.fieldIds, f < fields
  verboten : ∀ f ∈ s.verboten, f < fields
  functionField : ∀ f ∈ s.functionField, f < fields

/-- The numbers in a field are in range, among so many scopes and fields. -/
structure Field.IsIn (scopes fields : Nat) (f : Field) : Prop where
  scope : f.scope < scopes
  outer : ∀ g ∈ f.outer, g < fields

section

variable {scopes scopes' fields fields' : Nat}

/-- What a scope points to stays there if the lists only grow. -/
theorem Scope.IsIn.mono {s : Scope} (inside : s.IsIn scopes fields) (more : scopes ≤ scopes')
    (more' : fields ≤ fields') : s.IsIn scopes' fields' where
  parent p mem := Nat.lt_of_lt_of_le (inside.parent p mem) more
  children c mem := Nat.lt_of_lt_of_le (inside.children c mem) more
  table f mem := Nat.lt_of_lt_of_le (inside.table f mem) more'
  verboten f mem := Nat.lt_of_lt_of_le (inside.verboten f mem) more'
  functionField f mem := Nat.lt_of_lt_of_le (inside.functionField f mem) more'

/-- So does what a field points to. -/
theorem Field.IsIn.mono {f : Field} (inside : f.IsIn scopes fields) (more : scopes ≤ scopes')
    (more' : fields ≤ fields') : f.IsIn scopes' fields' where
  scope := Nat.lt_of_lt_of_le inside.scope more
  outer g mem := Nat.lt_of_lt_of_le (inside.outer g mem) more'

end

namespace ScopeTree

/-- Every number in the records of a tree is in range. -/
structure IsClosed (t : ScopeTree) : Prop where
  root : global < t.scopes.size
  scopes : ∀ s, (t.scope s).IsIn t.scopes.size t.fields.size
  fields : ∀ f, (t.field f).IsIn t.scopes.size t.fields.size

/-- One change to a tree, at a number that is in range, to a record whose numbers are in range. -/
inductive Edit (t : ScopeTree) : ScopeTree → Prop where
  | mark (phase : Phase) (generatedCount : Nat) : Edit t { t with phase, generatedCount }
  | modifyScope {id : ScopeId} {change : Scope → Scope} (bound : id < t.scopes.size)
    (inside : ∀ s : Scope, s.IsIn t.scopes.size t.fields.size →
      (change s).IsIn t.scopes.size t.fields.size) : Edit t (t.modifyScope id change)
  | modifyField {id : FieldId} {change : Field → Field} (bound : id < t.fields.size)
    (inside : ∀ f : Field, f.IsIn t.scopes.size t.fields.size →
      (change f).IsIn t.scopes.size t.fields.size) : Edit t (t.modifyField id change)
  | modifyFields {change : Field → Field} (inside : ∀ f : Field,
      f.IsIn t.scopes.size t.fields.size → (change f).IsIn t.scopes.size t.fields.size) :
    Edit t { t with fields := t.fields.map change }
  | createScope (kind : ScopeKind) {parent : ScopeId} (span : Span)
    (bound : parent < t.scopes.size) : Edit t (t.createScope kind parent span).2
  | addField {field : Field} (inside : field.IsIn t.scopes.size t.fields.size) :
    Edit t (t.addField field).2

/-- Changes one after another. -/
def Edits : ScopeTree → ScopeTree → Prop := Relation.ReflTransGen Edit

variable {t t' t'' : ScopeTree}

/-- An edit does not shorten the lists. -/
theorem Edit.sizes (edit : Edit t t') :
    t.scopes.size ≤ t'.scopes.size ∧ t.fields.size ≤ t'.fields.size := by
  cases edit with
  | mark => exact ⟨Nat.le_refl _, Nat.le_refl _⟩
  | modifyScope => simp
  | modifyField => simp
  | modifyFields => simp
  | createScope kind span => simp [scopes_size_createScope, fields_createScope]
  | addField => simp [scopes_size_addField, fields_size_addField]

/-- An edit leaves a tree closed: the numbers that it writes are in range. -/
theorem Edit.closed (edit : Edit t t') (closed : t.IsClosed) : t'.IsClosed := by
  have more := edit.sizes
  have scopes (s : ScopeId) := (closed.scopes s).mono more.1 more.2
  have fields (f : FieldId) := (closed.fields f).mono more.1 more.2
  cases edit with
  | mark => exact ⟨closed.root, closed.scopes, closed.fields⟩
  | modifyScope bound inside =>
    refine ⟨by simpa using closed.root, fun s => ?_, by simpa using closed.fields⟩
    rw [scope_modifyScope]
    split
    · simpa using inside _ (closed.scopes s)
    · exact scopes s
  | modifyField bound inside =>
    refine ⟨closed.root, by simpa using closed.scopes, fun f => ?_⟩
    rw [field_modifyField]
    split
    · simpa using inside _ (closed.fields f)
    · exact fields f
  | @modifyFields change inside =>
    refine ⟨closed.root, fun s => ?_, fun f => ?_⟩
    · show Scope.IsIn t.scopes.size (t.fields.map change).size (t.scope s)
      rw [Array.size_map]
      exact closed.scopes s
    by_cases bound : f < t.fields.size
    · have read : ScopeTree.field { t with fields := t.fields.map change } f = change (t.field f) := by
        simp [ScopeTree.field, bound]
      rw [read]
      simpa using inside _ (closed.fields f)
    · rw [field_of_size_le (by simpa using bound)]
      exact ⟨closed.root, by rintro _ ⟨⟩⟩
  | @createScope kind parent span bound =>
    refine ⟨Nat.lt_of_lt_of_le closed.root more.1, fun s => ?_, fields⟩
    have size := scopes_size_createScope t kind parent span
    rw [scope_createScope]
    split
    · refine ⟨?_, by rintro _ ⟨⟩, by rintro _ ⟨⟩, by rintro _ ⟨⟩, by rintro _ ⟨⟩⟩
      rintro _ ⟨⟩
      rw [size]
      exact Nat.lt_succ_of_lt bound
    split
    · refine { scopes s with children := fun c mem => ?_ }
      rcases mem_append.mp mem with old | new
      · exact (scopes s).children c old
      · rw [mem_singleton.mp new, size]
        exact Nat.lt_succ_self _
    · exact scopes s
  | @addField field inside =>
    refine ⟨Nat.lt_of_lt_of_le closed.root more.1, fun s => ?_, fun f => ?_⟩
    · have size := fields_size_addField t field
      rw [scope_addField]
      split
      · refine { scopes s with table := fun f mem => ?_ }
        simp only [Scope.fieldIds, map_append, mem_append] at mem
        rcases mem with old | new
        · exact (scopes s).table f old
        · rw [mem_singleton.mp new, size]
          exact Nat.lt_succ_self _
      · exact scopes s
    · rw [field_addField]
      split
      · exact inside.mono more.1 more.2
      · exact fields f

namespace Edits

/-- No edit. -/
theorem refl (t : ScopeTree) : Edits t t := Relation.ReflTransGen.refl

/-- Edits after edits. -/
theorem trans (first : Edits t t') (second : Edits t' t'') : Edits t t'' :=
  Relation.ReflTransGen.trans first second

/-- One edit. -/
theorem single (edit : Edit t t') : Edits t t' := Relation.ReflTransGen.single edit

/-- Edits do not shorten the lists. -/
theorem sizes (edits : Edits t t') :
    t.scopes.size ≤ t'.scopes.size ∧ t.fields.size ≤ t'.fields.size := by
  induction edits with
  | refl => exact ⟨Nat.le_refl _, Nat.le_refl _⟩
  | tail _ edit ih => exact ⟨Nat.le_trans ih.1 edit.sizes.1, Nat.le_trans ih.2 edit.sizes.2⟩

/-- A scope that is there stays there. -/
theorem scope_lt (edits : Edits t t') {s : ScopeId} (bound : s < t.scopes.size) :
    s < t'.scopes.size :=
  Nat.lt_of_lt_of_le bound edits.sizes.1

/-- A field that is there stays there. -/
theorem field_lt (edits : Edits t t') {f : FieldId} (bound : f < t.fields.size) :
    f < t'.fields.size :=
  Nat.lt_of_lt_of_le bound edits.sizes.2

/-- No number gets out of range on the way. -/
theorem closed (edits : Edits t t') (closed : t.IsClosed) : t'.IsClosed := by
  induction edits with
  | refl => exact closed
  | tail _ edit ih => exact edit.closed ih

/-- A change that is made for each member of a list. -/
theorem foldl {α : Type} {step : ScopeTree → α → ScopeTree} (l : List α) (t : ScopeTree)
    (edits : ∀ a ∈ l, ∀ t', Edits t t' → Edits t' (step t' a)) : Edits t (l.foldl step t) := by
  induction l generalizing t with
  | nil => exact .refl t
  | cons a l ih =>
    have first := edits a mem_cons_self t (.refl t)
    refine first.trans (ih (step t a) fun b mem t' more => ?_)
    exact edits b (mem_cons_of_mem a mem) t' (first.trans more)

/-- A change to a field that leaves its numbers alone. -/
theorem modifyField {id : FieldId} {change : Field → Field} (bound : id < t.fields.size)
    (keeps : ∀ f, (change f).scope = f.scope ∧ (change f).outer = f.outer) :
    Edits t (t.modifyField id change) :=
  single (.modifyField bound fun f inside =>
    ⟨(keeps f).1 ▸ inside.scope, (keeps f).2 ▸ inside.outer⟩)

/-- A change to a scope that leaves its numbers alone. -/
theorem modifyScope {id : ScopeId} {change : Scope → Scope} (bound : id < t.scopes.size)
    (keeps : ∀ s, (change s).parent = s.parent ∧ (change s).children = s.children ∧
      (change s).table = s.table ∧ (change s).verboten = s.verboten ∧
      (change s).functionField = s.functionField) : Edits t (t.modifyScope id change) := by
  refine single (.modifyScope bound fun s inside => ?_)
  obtain ⟨parent, children, table, verboten, functionField⟩ := keeps s
  exact ⟨parent ▸ inside.parent, children ▸ inside.children,
    by unfold Scope.fieldIds; rw [table]; exact inside.table,
    verboten ▸ inside.verboten, functionField ▸ inside.functionField⟩

end Edits

/-- The tree with the global scope only is closed. -/
theorem isClosed_empty : IsClosed .empty where
  root := Nat.one_pos
  scopes s := by
    rw [scope_empty]
    exact ⟨fun _ mem => (nomatch mem), fun _ mem => (nomatch mem), fun _ mem => (nomatch mem),
      fun _ mem => (nomatch mem), fun _ mem => (nomatch mem)⟩
  fields f := by
    rw [field_empty]
    exact ⟨Nat.one_pos, fun _ mem => (nomatch mem)⟩

/-! ## Ways through a tree -/

namespace IsClosed

variable {f : FieldId} {id scope s : ScopeId} {name : String}

variable (closed : t.IsClosed)
include closed

/-- Going outwards from a scope does not leave the tree. The induction is on the fuel. -/
theorem chainFrom_lt (fuel : Nat) : ∀ {id : ScopeId}, id < t.scopes.size →
    ∀ s ∈ t.chainFrom fuel id, s < t.scopes.size := by
  induction fuel with
  | zero => exact fun _ _ mem => (nomatch mem)
  | succ fuel ih =>
    intro id bound s mem
    unfold chainFrom at mem
    split at mem
    · rwa [mem_singleton.mp mem]
    · rename_i parent isParent
      rcases mem_cons.mp mem with rfl | mem
      · exact bound
      · exact ih ((closed.scopes id).parent parent isParent) s mem

/-- The scopes around a scope are in the tree. -/
theorem chain_lt (bound : id < t.scopes.size) : ∀ s ∈ t.chain id, s < t.scopes.size :=
  closed.chainFrom_lt _ bound

/-- So are those below another one. -/
theorem chainUpTo_lt (bound : id < t.scopes.size) (stop : ScopeId) :
    ∀ s ∈ t.chainUpTo id stop, s < t.scopes.size :=
  fun s mem => closed.chain_lt bound s (takeWhile_subset _ mem)

/-- So is the function that a scope belongs to. -/
theorem functionScopeOf_lt (bound : id < t.scopes.size) : t.functionScopeOf id < t.scopes.size := by
  unfold functionScopeOf
  cases found : (t.chain id).find? fun s => (t.scope s).isFunctionLevel with
  | none => exact bound
  | some s => exact closed.chain_lt bound s (mem_of_find?_eq_some found)

/-- So is the innermost scope around two. -/
theorem common_lt {a : ScopeId} (bound : a < t.scopes.size) (b : ScopeId) :
    t.common a b < t.scopes.size := by
  unfold common
  cases found : (t.chain a).find? fun s => t.isAncestorOrSelf s b with
  | none => exact closed.root
  | some s => exact closed.chain_lt bound s (mem_of_find?_eq_some found)

/-- Following an alias does not leave the tree either. -/
theorem outwardsFrom_lt (fuel : Nat) : ∀ {id : FieldId}, id < t.fields.size →
    ∀ f ∈ t.outwardsFrom fuel id, f < t.fields.size := by
  induction fuel with
  | zero => exact fun _ _ mem => (nomatch mem)
  | succ fuel ih =>
    intro id bound f mem
    unfold outwardsFrom at mem
    split at mem
    · rwa [mem_singleton.mp mem]
    · rename_i outer isOuter
      rcases mem_cons.mp mem with rfl | mem
      · exact bound
      · exact ih ((closed.fields id).outer outer isOuter) f mem

/-- The fields that an alias leads to are in the tree. -/
theorem outwards_lt {id : FieldId} (bound : id < t.fields.size) :
    ∀ f ∈ t.outwards id, f < t.fields.size :=
  closed.outwardsFrom_lt _ bound

/-- So is the variable that it stands for. -/
theorem ultimate_lt {id : FieldId} (bound : id < t.fields.size) : t.ultimate id < t.fields.size := by
  unfold ultimate
  cases isLast : (t.outwards id).getLast? with
  | none => simpa [getLastD_eq_getLast?, isLast] using bound
  | some f =>
    have known := closed.outwards_lt bound f (mem_of_getLast? isLast)
    simpa [getLastD_eq_getLast?, isLast] using known

/-- Going inwards does not leave the tree. -/
theorem subtreeFrom_lt (fuel : Nat) : ∀ {id : ScopeId}, id < t.scopes.size →
    ∀ s ∈ t.subtreeFrom fuel id, s < t.scopes.size := by
  induction fuel with
  | zero => exact fun _ _ mem => (nomatch mem)
  | succ fuel ih =>
    intro id bound s mem
    rcases mem_cons.mp mem with rfl | mem
    · exact bound
    · obtain ⟨child, isChild, mem⟩ := mem_flatMap.mp mem
      exact ih ((closed.scopes id).children child isChild) s mem

/-- The scopes inside a scope are in the tree. -/
theorem subtree_lt (bound : id < t.scopes.size) : ∀ s ∈ t.subtree id, s < t.scopes.size :=
  closed.subtreeFrom_lt _ bound

/-- A field that is found in a table is there. -/
theorem lookup_lt (found : (t.scope s).lookup name = some f) : f < t.fields.size := by
  obtain ⟨before, after, isTable, -⟩ := lookup_eq_some_iff.mp found
  refine (closed.scopes s).table f (mem_map.mpr ⟨(name, f), ?_, rfl⟩)
  rw [isTable]
  simp

/-- So are a field that is found from inside, and the scope that has it. -/
theorem findVisible_lt (bound : id < t.scopes.size) (found : t.findVisible id name = some (s, f)) :
    s < t.scopes.size ∧ f < t.fields.size := by
  obtain ⟨s', mem, isFound⟩ := exists_of_findSome?_eq_some found
  obtain ⟨f', isField, isPair⟩ := Option.map_eq_some_iff.mp isFound
  obtain ⟨rfl, rfl⟩ := Prod.mk.inj isPair
  exact ⟨closed.chain_lt bound s' mem, closed.lookup_lt isField⟩

/-! ## Growing a tree -/

/-- Declaring a name is an edit, and answers with a field of the tree. -/
theorem edits_declare (bound : scope < t.scopes.size) (name : String) (kind : FieldKind) (span : Span) :
    Edits t (t.declare scope name kind span).2 ∧
      (t.declare scope name kind span).1 < (t.declare scope name kind span).2.fields.size := by
  unfold declare
  split
  · exact ⟨.refl t, closed.lookup_lt ‹_›⟩
  · refine ⟨.single (.addField ⟨bound, fun _ mem => (nomatch mem)⟩), ?_⟩
    rw [fields_size_addField]
    exact Nat.lt_succ_self _

/-- So is making an alias. -/
theorem edits_createAlias {outer : FieldId} (bound : scope < t.scopes.size)
    (bound' : outer < t.fields.size) : Edits t (t.createAlias scope outer).2 ∧
      (t.createAlias scope outer).1 < (t.createAlias scope outer).2.fields.size := by
  unfold createAlias
  dsimp only
  split
  · exact ⟨.refl t, closed.lookup_lt ‹_›⟩
  · refine ⟨.single (.addField ⟨bound, ?_⟩), ?_⟩
    · rintro _ ⟨⟩
      exact bound'
    · rw [fields_size_addField]
      exact Nat.lt_succ_self _

/-- So is making a variable for a literal. -/
theorem edits_createGenerated (bound : scope < t.scopes.size) :
    Edits t (t.createGenerated scope).2 ∧
      (t.createGenerated scope).1 < (t.createGenerated scope).2.fields.size := by
  have counts : Edit t { t with generatedCount := t.generatedCount + 1 } := .mark t.phase _
  obtain ⟨declares, inside⟩ := (counts.closed closed).edits_declare bound
    s!"generated {t.generatedCount}" .declared .synthetic
  simp only [createGenerated]
  generalize ScopeTree.declare { t with generatedCount := t.generatedCount + 1 } scope _ .declared
    .synthetic = made at declares inside
  have marks : Edits made.2 (made.2.modifyField made.1 fun f =>
      { f with isGenerated := true, isDeclared := true }) :=
    .modifyField inside fun _ => ⟨rfl, rfl⟩
  exact ⟨((Edits.single counts).trans declares).trans marks, marks.field_lt inside⟩

/-! ## Counts and marks -/

/-- Counting a mention is an edit, of each field that it goes through. -/
theorem edits_addRef (bound : f < t.fields.size) : Edits t (t.addRef f) :=
  .foldl _ t fun g mem _ edits =>
    .modifyField (edits.field_lt (closed.outwards_lt bound g mem)) fun _ => ⟨rfl, rfl⟩

/-- So is taking it back. -/
theorem edits_removeRef (bound : f < t.fields.size) : Edits t (t.removeRef f) :=
  .foldl _ t fun g mem _ edits =>
    .modifyField (edits.field_lt (closed.outwards_lt bound g mem)) fun _ => ⟨rfl, rfl⟩

/-- So is counting anew. -/
theorem edits_recount {uses : List Ident}
    (bound : ∀ id ∈ uses, ∀ f ∈ id.field, f < t.fields.size) : Edits t (t.recount uses) := by
  have clears : Edits t { t with fields := t.fields.map fun f => { f with refs := 0 } } :=
    .single (.modifyFields fun _ inside => ⟨inside.scope, inside.outer⟩)
  refine clears.trans (.foldl _ _ fun f mem t' edits => ?_)
  obtain ⟨id, isUse, isField⟩ := mem_filterMap.mp mem
  have all := clears.trans edits
  exact (all.closed closed).edits_addRef (all.field_lt (bound id isUse f isField))

/-- Reserving a name in the scopes that an alias goes through is an edit. -/
theorem edits_reserveAlias (bound : f < t.fields.size) : Edits t (t.reserveAlias f) := by
  have isVariable := closed.ultimate_lt bound
  refine .foldl _ t fun s mem t' edits => .single (.modifyScope ?_ fun scope inside => ?_)
  · exact edits.scope_lt (closed.chainUpTo_lt (closed.fields f).scope _ s mem)
  · refine { inside with verboten := fun g mem => ?_ }
    dsimp only at mem
    split at mem
    · exact inside.verboten g mem
    · rcases mem_append.mp mem with old | new
      · exact inside.verboten g old
      · rw [mem_singleton.mp new]
        exact edits.field_lt isVariable

/-- Taking a scope out of the one around it is an edit. -/
theorem edits_detach (bound : s < t.scopes.size) : Edits t (t.detach s) :=
  .foldl _ t fun s mem _ edits => .modifyScope (edits.scope_lt (closed.subtree_lt bound s mem))
    fun _ => ⟨rfl, rfl, rfl, rfl, rfl⟩

end IsClosed

end ScopeTree

/-- The number of a mark is in range. -/
def Mark.IsIn (t : ScopeTree) : Mark → Prop
  | .name id | .use id => ∀ f ∈ id.field, f < t.fields.size
  | .scope s => s < t.scopes.size

/-- A mark that is in a tree stays in it. -/
theorem Mark.IsIn.edits {t t' : ScopeTree} {mark : Mark} (inside : mark.IsIn t)
    (edits : t.Edits t') : mark.IsIn t' := by
  cases mark with
  | name id => exact fun f isField => edits.field_lt (inside f isField)
  | use id => exact fun f isField => edits.field_lt (inside f isField)
  | scope s => exact edits.scope_lt inside

namespace ScopeTree

variable {t' : ScopeTree} {scope : ScopeId} {v : FieldId} {settings : Settings} {node : Node}

variable {t : ScopeTree}

/-! ## Leaving the program -/

/-- A node that uses a name has that mark. -/
theorem mark_of_use {id : Ident} (isUse : node.use? = some id) : node.mark? = some (.use id) := by
  rcases node with _ | _ | ⟨form, span⟩ | _ | _ | _ | _ | _ | _
  case expr => cases form <;> simp_all [Node.use?, Node.mark?]
  all_goals simp [Node.use?] at isUse

/-- A function has the mark of its scope. -/
theorem mark_of_function {fn : Function} (isFunction : node.function? = some fn)
    (isScope : fn.scope = some scope) : node.mark? = some (.scope scope) := by
  cases node <;> simp_all [Node.function?, Node.mark?]

section Closed

variable (closed : t.IsClosed)
include closed

/-- The numbers that a statement takes back are among its marks. -/
theorem IsClosed.edits_release {s : Statement}
    (bound : ∀ mark ∈ s.marks, mark.IsIn t) : Edits t (t.release s) := by
  rw [← s.marks_eq] at bound
  have removes : Edits t (((s.nodes.filterMap Node.use?).filterMap (·.field)).foldl removeRef t) := by
    refine .foldl _ t fun f mem t' edits => (edits.closed closed).edits_removeRef (edits.field_lt ?_)
    obtain ⟨id, isUse, isField⟩ := mem_filterMap.mp mem
    obtain ⟨node, isNode, isId⟩ := mem_filterMap.mp isUse
    exact bound (.use id) (mem_filterMap.mpr ⟨node, isNode, mark_of_use isId⟩) f isField
  refine removes.trans (.foldl _ _ fun scope mem t' edits => ?_)
  have all := removes.trans edits
  refine (all.closed closed).edits_detach (all.scope_lt ?_)
  obtain ⟨fn, isFunction, isScope⟩ := mem_filterMap.mp mem
  obtain ⟨node, isNode, isFn⟩ := mem_filterMap.mp isFunction
  exact bound (.scope scope) (mem_filterMap.mpr ⟨node, isNode, mark_of_function isFn isScope⟩)

omit closed in
/-- Functions that are never called take their mentions back. -/
theorem IsClosed.edits_dropFunctions (statements : List Statement) :
    ∀ {t : ScopeTree}, t.IsClosed → (∀ mark ∈ statementMarks statements, mark.IsIn t) →
      Edits t (t.dropFunctions statements).2 := by
  induction statements with
  | nil => exact fun _ _ => .refl _
  | cons s rest ih =>
    intro t closed bound
    rw [statementMarks] at bound
    have isRest : ∀ mark ∈ statementMarks rest, mark.IsIn t :=
      fun mark mem => bound mark (mem_append_right _ mem)
    unfold dropFunctions
    extract_lets isUnused
    split
    · have first := closed.edits_release fun mark mem => bound mark (mem_append_left _ mem)
      exact first.trans (ih (first.closed closed) fun mark mem => (isRest mark mem).edits first)
    · exact ih closed isRest

/-- What is returned in place of a variable takes back a mention that is a mark of the list. -/
theorem IsClosed.returnedInitializer_lt {declaration last : Statement} {init : Expr}
    {mention : FieldId} (found : t.returnedInitializer? declaration last = some (init, mention, v))
    (bound : ∀ mark ∈ declaration.marks ++ last.marks, mark.IsIn t) :
    mention < t.fields.size ∧ v < t.fields.size := by
  unfold returnedInitializer? at found
  split at found
  · rename_i name _ _ _ id _ _
    simp only [bind, Option.bind_eq_some_iff] at found
    obtain ⟨mention', isMention, field, isField, found⟩ := found
    simp only [Option.ite_none_right_eq_some, Option.some.injEq, Prod.mk.injEq] at found
    obtain ⟨-, -, rfl, rfl⟩ := found
    exact ⟨bound (.use id) (by simp) _ isMention,
      closed.ultimate_lt (bound (.name name) (by simp) _ isField)⟩
  · cases found

/-- So does a variable that is returned at once. -/
theorem IsClosed.edits_returnInitializer {statements : List Statement}
    (bound : ∀ mark ∈ statementMarks statements, mark.IsIn t) :
    Edits t (t.returnInitializer statements).2 := by
  unfold returnInitializer
  split
  · rename_i last declaration before isEnd
    split
    · rename_i init mention v found
      have whole : statements = before.reverse ++ [declaration, last] := by
        simpa using congrArg List.reverse isEnd
      obtain ⟨isMention, isVariable⟩ := closed.returnedInitializer_lt found fun mark mem =>
        bound mark (by rw [whole]; simp_all)
      have removes := closed.edits_removeRef isMention
      exact removes.trans (.modifyField (removes.field_lt isVariable) fun _ => ⟨rfl, rfl⟩)
    · exact .refl t
  · exact .refl t

/-! ## Choosing names -/

omit closed in
/-- Going on to the next phase is an edit. -/
theorem edits_of_advance {before after : Phase} (advanced : t.advance before after = .ok t') :
    Edits t t' := by
  unfold advance at advanced
  split at advanced
  · obtain rfl := Except.ok.inj advanced
    exact .single (.mark after t.generatedCount)
  · cases advanced

/-- Reserving the names that a scope mentions is an edit. -/
theorem IsClosed.edits_reserveIn (s : ScopeId) : Edits t (t.reserveIn s) := by
  refine .foldl _ t fun f mem t' edits => (edits.closed closed).edits_reserveAlias (edits.field_lt ?_)
  exact (closed.scopes s).table f (mem_filter.mp mem).1

/-- So is passing on what is unknown. -/
theorem IsClosed.edits_spreadUnknown (treatment : EvalTreatment) (s : ScopeId) :
    Edits t (t.spreadUnknown treatment s) := by
  unfold spreadUnknown
  dsimp only
  split
  · split
    · rename_i parent isParent
      exact .modifyScope ((closed.scopes s).parent parent isParent) fun _ => ⟨rfl, rfl, rfl, rfl, rfl⟩
    · exact .refl t
  · exact .refl t

/-- So is the whole pass that reserves names. -/
theorem IsClosed.edits_reserve (isReserved : t.reserve settings = .ok t') : Edits t t' := by
  unfold reserve at isReserved
  cases advanced : t.advance .scopeAnalyzed .fieldsReserved with
  | error _ =>
    rw [advanced] at isReserved
    cases isReserved
  | ok start =>
    rw [advanced] at isReserved
    obtain rfl := Except.ok.inj isReserved
    have first := edits_of_advance advanced
    refine first.trans (.foldl _ _ fun s _ now edits => ?_)
    have closed := (first.trans edits).closed closed
    have spreads := closed.edits_spreadUnknown settings.evalTreatment s
    exact spreads.trans ((spreads.closed closed).edits_reserveIn s)

omit closed in
/-- Names are given to fields one by one. -/
theorem edits_giveNames (settings : Settings) (aliases : List (FieldId × FieldId))
    (fields : List FieldId) : ∀ (avoid : List String) {t : ScopeTree},
      (∀ f ∈ fields, f < t.fields.size) → Edits t (giveNames settings aliases fields avoid t) := by
  induction fields with
  | nil => exact fun _ _ _ => .refl _
  | cons f rest ih =>
    intro avoid t bound
    have names : ∀ name, Edits t (t.modifyField f fun f => { f with crunchedName := some name }) :=
      fun name => .modifyField (bound f mem_cons_self) fun _ => ⟨rfl, rfl⟩
    refine (names _).trans (ih _ fun g mem => ?_)
    exact (names _).field_lt (bound g (mem_cons_of_mem f mem))

/-- Choosing the names of a scope is an edit. -/
theorem IsClosed.edits_crunchScope (settings : Settings) (aliases : List (FieldId × FieldId))
    (s : ScopeId) : Edits t (crunchScope settings aliases t s) := by
  unfold crunchScope
  dsimp only
  split
  · exact .refl t
  · refine edits_giveNames settings aliases _ _ fun f mem => (closed.scopes s).table f ?_
    rw [mem_mergeSort, partition_eq_filter_filter] at mem
    exact (mem_filter.mp mem).1

/-- So is choosing all names. -/
theorem IsClosed.edits_crunch (isShort : t.crunch settings = .ok t') : Edits t t' := by
  unfold crunch at isShort
  cases advanced : t.advance .literalsShortcut .renamed with
  | error _ =>
    rw [advanced] at isShort
    cases isShort
  | ok start =>
    rw [advanced] at isShort
    have first := edits_of_advance advanced
    simp only [bind, Except.bind] at isShort
    split at isShort
    · obtain rfl := Except.ok.inj isShort
      exact first
    · obtain rfl := Except.ok.inj isShort
      refine first.trans (.foldl _ _ fun s _ now edits => ?_)
      exact ((first.trans edits).closed closed).edits_crunchScope settings _ s

omit closed in
/-- So is naming the generated variables. -/
theorem edits_nameGenerated (isLast : t.nameGenerated = .ok t') : Edits t t' := by
  unfold nameGenerated at isLast
  cases advanced : t.advance .renamed .generatedNamesValidated with
  | error _ =>
    rw [advanced] at isLast
    cases isLast
  | ok start =>
    rw [advanced] at isLast
    obtain rfl := Except.ok.inj isLast
    refine (edits_of_advance advanced).trans (.foldl _ _ fun f mem now edits => ?_)
    have bound := mem_range.mp (mem_filter.mp mem).1
    exact .modifyField (edits.field_lt bound) fun _ => ⟨rfl, rfl⟩

/-! ## Sharing literals -/

/-- The scope that is to declare a literal is in the tree. -/
theorem IsClosed.owner_lt {scopes : List ScopeId} {owner : ScopeId}
    (bound : ∀ s ∈ scopes, s < t.scopes.size) (found : t.owner? scopes = some owner) :
    owner < t.scopes.size := by
  cases scopes with
  | nil => cases found
  | cons first rest =>
    simp only [owner?, Option.ite_none_right_eq_some, Option.some.injEq] at found
    obtain ⟨-, rfl⟩ := found
    refine closed.functionScopeOf_lt ?_
    refine List.foldlRecOn (motive := (· < t.scopes.size)) rest _ (bound first mem_cons_self) ?_
    exact fun a known b _ => closed.common_lt known b

/-- Making the variables for all literals is an edit, and they are in the tree. -/
theorem IsClosed.edits_shareAll {occurrences : List Occurrence}
    (bound : ∀ o ∈ occurrences, o.scope < t.scopes.size) : Edits t (t.shareAll occurrences).2 ∧
      ∀ s ∈ (t.shareAll occurrences).1, s.field < (t.shareAll occurrences).2.fields.size := by
  unfold shareAll
  refine List.foldlRecOn (motive := fun r : List SharedLiteral × ScopeTree =>
    Edits t r.2 ∧ ∀ s ∈ r.1, s.field < r.2.fields.size) _ _ ⟨.refl t, fun _ mem => (nomatch mem)⟩ ?_
  rintro ⟨shared, now⟩ ⟨edits, known⟩ key -
  dsimp only at edits known ⊢
  split
  · rename_i s next found
    simp only [share?, Option.bind_eq_bind, Option.bind_eq_some_iff, Option.pure_def,
      Option.some.injEq, Prod.mk.injEq] at found
    obtain ⟨-, -, owner, isOwner, rfl, rfl⟩ := found
    have closed := edits.closed closed
    have inside : owner < now.scopes.size := by
      refine closed.owner_lt (fun s mem => ?_) isOwner
      obtain ⟨o, isPlace, rfl⟩ := mem_map.mp mem
      exact edits.scope_lt (bound o (mem_filter.mp isPlace).1)
    obtain ⟨creates, isField⟩ := closed.edits_createGenerated inside
    refine ⟨edits.trans creates, fun s mem => ?_⟩
    rcases mem_append.mp mem with old | new
    · exact creates.field_lt (known s old)
    · rw [mem_singleton.mp new]
      exact isField
  · exact ⟨edits, known⟩

/-- So is an alias for one of them. -/
theorem IsClosed.edits_aliasFor (isVariable : v < t.fields.size) (bound : scope < t.scopes.size) :
    Edits t (t.aliasFor v scope).2 ∧
      (t.aliasFor v scope).1 < (t.aliasFor v scope).2.fields.size := by
  unfold aliasFor
  have inside := closed.chainUpTo_lt bound (t.field v).scope
  generalize t.chainUpTo scope (t.field v).scope = scopes at inside
  induction scopes with
  | nil => exact ⟨.refl t, isVariable⟩
  | cons s rest ih =>
    obtain ⟨edits, isOuter⟩ := ih fun s mem => inside s (mem_cons_of_mem _ mem)
    obtain ⟨creates, isAlias⟩ := (edits.closed closed).edits_createAlias
      (edits.scope_lt (inside s mem_cons_self)) isOuter
    exact ⟨edits.trans creates, isAlias⟩

/-- So is a mention of one of them. -/
theorem IsClosed.edits_mention (isVariable : v < t.fields.size) (bound : scope < t.scopes.size) :
    Edits t (t.mention v scope).2 ∧ (t.mention v scope).1 < (t.mention v scope).2.fields.size := by
  obtain ⟨aliases, isAlias⟩ := closed.edits_aliasFor isVariable bound
  unfold mention
  dsimp only
  generalize t.aliasFor v scope = made at aliases isAlias
  have reserves : Edits made.2
      (if made.1 = v then made.2 else made.2.reserveAlias made.1) := by
    split
    · exact .refl _
    · exact (aliases.closed closed).edits_reserveAlias isAlias
  have counts := ((aliases.trans reserves).closed closed).edits_addRef (reserves.field_lt isAlias)
  exact ⟨(aliases.trans reserves).trans counts, counts.field_lt (reserves.field_lt isAlias)⟩

end Closed

end ScopeTree

end Minifier
