import Mathlib.Data.Option.Basic
import Minifier.Proofs.Scope.Generated

/-!
# Sharing literals keeps names apart

The occurrences of a literal are collected by one walk over the program and replaced by another one
that goes in step with it, so what was decided from all occurrences holds at each of them: the
variable for a literal is in a scope around it. The names of the program are in the tree as before
and what they leave alone is reserved (`BoundProgram.shareLiterals_prepared`).
-/

set_option autoImplicit false

namespace Minifier

open ScopeTree

open List hiding get

/-! ## Where a variable goes -/

namespace ScopeTree

variable {occurrences places : List Occurrence} {s : SharedLiteral} {scopes rest : List ScopeId}
  {key : LiteralKey} {owner : ScopeId}

variable {t t' : ScopeTree}

/-- What is around two scopes is around their innermost common scope. -/
theorem within_common_iff (formed : t.WellFormed) {a b d : ScopeId} (valid : a < t.scopes.size)
    (valid' : b < t.scopes.size) : Within t (t.common a b) d ↔ Within t a d ∧ Within t b d := by
  have ordered := formed.parentsFirst
  have search {d : ScopeId} (left : Within t a d) (right : Within t b d) :
      Within t a (t.common a b) ∧ Within t b (t.common a b) ∧ Within t (t.common a b) d := by
    obtain ⟨x, found, known, inner, outer⟩ := exists_find?_chain (p := (t.isAncestorOrSelf · b))
      ordered left ((isAncestorOrSelf_iff ordered).mpr right)
    rw [common, found]
    exact ⟨inner, (isAncestorOrSelf_iff ordered).mp known, outer⟩
  obtain ⟨left, right, -⟩ := search (formed.within_global valid) (formed.within_global valid')
  exact ⟨fun around => ⟨left.trans around, right.trans around⟩, fun both => (search both.1 both.2).2.2⟩

theorem within_foldl_common_iff (formed : t.WellFormed) {d first : ScopeId}
    (valid : ∀ s ∈ first :: rest, s < t.scopes.size) :
    Within t (rest.foldl t.common first) d ↔ ∀ s ∈ first :: rest, Within t s d := by
  induction rest generalizing first with
  | nil => rw [foldl_nil, forall_mem_singleton]
  | cons next rest ih =>
    simp only [forall_mem_cons] at valid ih ⊢
    obtain ⟨isFirst, isNext, others⟩ := valid
    have both {d : ScopeId} := within_common_iff (d := d) formed isFirst isNext
    have inside := Nat.lt_of_le_of_lt ((both.mp (.refl _)).1.le formed.parentsFirst) isFirst
    rw [foldl_cons, ih ⟨inside, others⟩, both, and_assoc]

theorem owner?_eq_some (found : t.owner? scopes = some owner) : ∃ first rest, scopes = first :: rest ∧
      t.functionScopeOf (rest.foldl t.common first) = owner ∧ t.isPrivate owner = true := by
  cases scopes with
  | nil => cases found
  | cons first rest =>
    simp only [owner?, Option.ite_none_right_eq_some, Option.some.injEq] at found
    obtain ⟨isPrivate, rfl⟩ := found
    exact ⟨first, rest, rfl, rfl, isPrivate⟩

/-- A variable is declared around all places that it is for. -/
theorem within_owner (formed : t.WellFormed) (valid : ∀ s ∈ scopes, s < t.scopes.size)
    (found : t.owner? scopes = some owner) :
    owner < t.scopes.size ∧ ∀ s ∈ scopes, Within t s owner := by
  obtain ⟨first, rest, rfl, rfl, -⟩ := owner?_eq_some found
  have around := (within_foldl_common_iff formed valid).mp
    (within_functionScopeOf formed.parentsFirst (rest.foldl t.common first))
  have mem := mem_cons_self (a := first) (l := rest)
  exact ⟨Nat.lt_of_le_of_lt ((around first mem).le formed.parentsFirst) (valid first mem), around⟩

/-- A literal has a variable around all its occurrences. -/
def Serves (t : ScopeTree) (occurrences : List Occurrence) (s : SharedLiteral) : Prop :=
  t.IsShared s.field s.owner ∧ ∀ o ∈ occurrences, o.key = s.key → Within t o.scope s.owner

theorem Grows.serves (grows : Grows t t') (formed : t.WellFormed)
    (valid : ∀ o ∈ occurrences, o.scope < t.scopes.size) (serves : t.Serves occurrences s) :
    t'.Serves occurrences s := by
  refine ⟨grows.isShared serves.1, fun o mem isKey => ?_⟩
  rw [grows.within_iff formed.parentsFirst (valid o mem)]
  exact serves.2 o mem isKey

/-- What is shared has a new variable in the owner of its places. -/
theorem share?_eq_some (found : t.share? key places = some (s, t')) :
    ∃ owner, t.owner? (places.map (·.scope)) = some owner ∧ (t.createGenerated owner).2 = t' ∧
      s = ⟨key, (t.createGenerated owner).1, owner,
        places.length < 2 * places.countP (·.negated)⟩ := by
  simp only [share?, Option.bind_eq_bind, Option.bind_eq_some_iff, Option.pure_def,
    Option.some.injEq, Prod.mk.injEq] at found
  obtain ⟨_, _, owner, isOwner, isShared, isTree⟩ := found
  exact ⟨owner, isOwner, isTree, isShared.symm⟩

theorem Prepared.share (prepared : t.Prepared) (valid : ∀ o ∈ occurrences, o.scope < t.scopes.size)
    (found : t.share? key (occurrences.filter (·.key = key)) = some (s, t')) :
    t'.Prepared ∧ Grows t t' ∧ t'.Serves occurrences s := by
  have places : ∀ x ∈ (occurrences.filter (·.key = key)).map (·.scope), x < t.scopes.size := by
    simp only [mem_map, mem_filter]
    rintro _ ⟨o, ⟨mem, _⟩, rfl⟩
    exact valid o mem
  obtain ⟨owner, isOwner, rfl, rfl⟩ := share?_eq_some found
  obtain ⟨inside, around⟩ := within_owner prepared.formed places isOwner
  obtain ⟨prepared', grows, shared⟩ := prepared.createGenerated inside
  refine ⟨prepared', grows, shared, fun o mem isKey => ?_⟩
  rw [grows.within_iff prepared.formed.parentsFirst (valid o mem)]
  refine around _ (mem_map_of_mem (mem_filter.mpr ⟨mem, ?_⟩))
  simpa using isKey

/-- Every literal that is shared has a variable around all its occurrences. -/
theorem Prepared.shareAll (prepared : t.Prepared) (valid : ∀ o ∈ occurrences, o.scope < t.scopes.size) :
    (t.shareAll occurrences).2.Prepared ∧ Grows t (t.shareAll occurrences).2 ∧
      ∀ s ∈ (t.shareAll occurrences).1, (t.shareAll occurrences).2.Serves occurrences s := by
  unfold ScopeTree.shareAll
  generalize (occurrences.map (·.key)).eraseDups = keys
  -- the literals that have been dealt with are served by the tree so far
  let Inv (r : List SharedLiteral × ScopeTree) : Prop :=
    r.2.Prepared ∧ Grows t r.2 ∧ ∀ s ∈ r.1, r.2.Serves occurrences s
  have start : Inv ([], t) := ⟨prepared, .refl t, fun _ mem => (nomatch mem)⟩
  refine List.foldlRecOn (motive := Inv) keys _ start ?_
  rintro ⟨shared, now⟩ ⟨prepared, grows, serves⟩ key -
  dsimp only at prepared grows serves ⊢
  have valid' : ∀ o ∈ occurrences, o.scope < now.scopes.size := fun o mem =>
    grows.same_size ▸ valid o mem
  split
  · rename_i s next found
    obtain ⟨prepared', grows', isServed⟩ := prepared.share valid' found
    refine ⟨prepared', grows.trans grows', fun s' mem => ?_⟩
    rcases mem_append.mp mem with old | new
    · exact grows'.serves prepared.formed valid' (serves s' old)
    · rw [mem_singleton.mp new]
      exact isServed
  · exact ⟨prepared, grows, serves⟩

end ScopeTree

/-! ## Two visitors in step -/

namespace LiteralWalk

variable {σ τ : Type}

theorem scope_of_occurrence {around : List (Option ScopeId)} {e : Expr} {o : Occurrence}
    (found : occurrence? around e = some o) : some o.scope ∈ around := by
  simp only [occurrence?, Option.bind_eq_bind, Option.bind_eq_some_iff, Option.pure_def,
    Option.some.injEq] at found
  obtain ⟨_, _, _, _, scope, isHead, rfl⟩ := found
  obtain ⟨_, mem, isScope⟩ := mem_filterMap.mp (mem_of_head? isHead)
  exact isScope ▸ mem

theorem atExpr_apply (visit : Occurrence → Expr → StateM σ Expr) (around : Option Form) (e : Expr)
    (s : State σ) : atExpr visit around e s =
      if isSpared around e then (some e, s)
      else match occurrence? s.around e with
        | some o => (some (visit o e s.inner).1, { s with inner := (visit o e s.inner).2 })
        | none => (if (Literal.of? e).isSome then some e else none, s) := by
  simp only [atExpr, bind, StateT.bind, get, getThe, MonadStateOf.get, StateT.get, pure]
  split
  · rfl
  · cases occurrence? s.around e <;> rfl

/-- The bond of two walks over literals, from a bond of their visitors: they are at the same place,
in scopes below a bound. -/
def bond (I : Bond σ τ) (bound : Nat) : Bond (State σ) (State τ) where
  holds s t := s.around = t.around ∧ (∀ id, some id ∈ s.around → id < bound) ∧
    I.holds s.inner t.inner
  grows s t s' t' := I.grows s.inner t.inner s'.inner t'.inner
  fits s t := I.fits s.inner t.inner
  refl s t := I.refl s.inner t.inner
  trans := I.trans
  mono := I.mono

variable {I : Bond σ τ} {bound : Nat}

theorem keeps_enter (scopes : ∀ {s t id}, I.fits s t (.scope id) → id < bound)
    (scope : Option ScopeId) :
    (bond I bound).Keeps (scopeMarks scope) (enter scope) (enter scope) fun _ => [] := by
  intro s t ⟨same, inside, holds⟩ fits
  refine ⟨⟨congrArg _ same, fun id mem => ?_, holds⟩, I.refl _ _, fun _ mem => (nomatch mem)⟩
  rcases mem_cons.mp mem with isScope | mem
  · subst isScope
    exact scopes (fits (.scope id) mem_cons_self)
  · exact inside id mem

theorem keeps_leave : (bond I bound).Keeps [] leave leave fun _ => [] := by
  intro s t ⟨same, inside, holds⟩ _
  exact ⟨⟨congrArg List.tail same, fun id mem => inside id (mem_of_mem_tail mem), holds⟩, I.refl _ _,
    fun _ mem => (nomatch mem)⟩

/-- What visitors preserve at each occurrence in a scope below the bound, and in each function, the
walks preserve. -/
theorem inStep (scopes : ∀ {s t id}, I.fits s t (.scope id) → id < bound)
    {visit : Occurrence → Expr → StateM σ Expr} {visit' : Occurrence → Expr → StateM τ Expr}
    {finish finish' : Function → Function}
    (visits : ∀ o e, o.scope < bound → I.Keeps e.marks (visit o e) (visit' o e) Expr.marks)
    (finishes : ∀ fn fn', I.Keeps fn'.marks (pure (finish fn)) (pure (finish' fn')) Function.marks) :
    InStep (bond I bound) (steps visit finish) (steps visit' finish') where
  answers around e s t holds _ := by
    simp only [steps, atExpr_apply, ← holds.1]
    split
    · rfl
    · split <;> rfl
  expr? around e := by
    intro s t ⟨same, inside, holds⟩ fits
    simp only [steps, atExpr_apply, ← same]
    split
    · exact ⟨⟨same, inside, holds⟩, I.refl _ _, fits⟩
    split
    · rename_i o found
      obtain ⟨holds', grows', fits'⟩ :=
        visits o e (inside _ (scope_of_occurrence found)) s.inner t.inner holds fits
      exact ⟨⟨rfl, inside, holds'⟩, grows', fits'⟩
    · refine ⟨⟨same, inside, holds⟩, I.refl _ _, fun mark mem => fits mark ?_⟩
      split at mem
      · exact mem
      · exact (nomatch mem)
  enterFunction fn := by
    refine ((keeps_enter scopes fn.scope).of_subset ?_).bind fun _ _ => .pure _ ?_
    · intro mark mem
      exact Function.headMarks_subset mark (mem_append_left _ mem)
    · intro mark mem
      exact mem_append_left _ (Function.headMarks_subset mark mem)
  leaveFunction fn fn' := by
    refine (keeps_leave.of_subset fun _ mem => (nomatch mem)).bind fun _ _ => ?_
    intro s t ⟨same, inside, holds⟩ fits
    obtain ⟨holds', grows', fits'⟩ := finishes fn fn' s.inner t.inner holds fun mark mem =>
      fits mark (mem_append_left _ mem)
    exact ⟨⟨same, inside, holds'⟩, grows', fits'⟩
  enterCatch clause := by
    refine ((keeps_enter scopes clause.scope).of_subset ?_).bind fun _ _ => .pure _ ?_
    · intro mark mem
      exact CatchClause.headMarks_subset mark (mem_append_left _ mem)
    · intro mark mem
      exact mem_append_left _ (CatchClause.headMarks_subset mark mem)
  leaveCatch := keeps_leave
  enterWith scope _ := by
    refine (keeps_enter scopes scope).bind fun _ _ => .pure _ ?_
    intro mark mem
    exact mem_append_left _ mem
  leaveWith := keeps_leave

end LiteralWalk

/-! ## Collecting occurrences -/

/-- The occurrences that are collected are in scopes of the program. -/
theorem Program.scope_occurrences_lt {p : Program} {bound : Nat}
    (own : ∀ id, p.scope = some id → id < bound)
    (scopes : ∀ id, Mark.scope id ∈ p.marks → id < bound) :
    ∀ o ∈ p.occurrences, o.scope < bound := by
  let places : Bond (Array Occurrence) (Array Occurrence) :=
    { holds := fun c d => c = d ∧ ∀ o ∈ d, o.scope < bound
      grows := fun _ _ _ _ => True
      fits := fun _ _ mark => ∀ id, mark = .scope id → id < bound
      refl := fun _ _ => trivial
      trans := fun _ _ => trivial
      mono := fun _ fits => fits }
  let note (o : Occurrence) (e : Expr) : StateM (Array Occurrence) Expr := do
    modify (·.push o)
    return e
  have visits : ∀ o e, o.scope < bound → places.Keeps e.marks (note o e) (note o e) Expr.marks := by
    rintro o e inside c _ ⟨rfl, known⟩ fits
    refine ⟨⟨rfl, fun o' mem => ?_⟩, trivial, fits⟩
    rcases Array.mem_push.mp mem with old | rfl
    · exact known o' old
    · exact inside
  have walks := LiteralWalk.inStep (I := places) (fun fits => fits _ rfl) visits
    (fun fn fn' => Bond.Keeps.pure (B := places) fn (b := fn') fun _ mem => mem)
  obtain ⟨⟨_, _, _, known⟩, _⟩ := walks.program p ⟨[p.scope], #[]⟩ ⟨[p.scope], #[]⟩
    ⟨rfl, fun id mem => own id (mem_singleton.mp mem).symm, rfl, fun _ mem => by simp at mem⟩
    (fun mark mem id isScope => scopes id (isScope ▸ mem))
  intro o mem
  exact known o (Array.mem_toList_iff.mp mem)

/-! ## Replacing occurrences -/

theorem Block.marks_declareFirst (b : Block) (decls : List VarDecl) :
    (b.declareFirst decls).marks ⊆ b.marks ++ declMarks decls := by
  obtain ⟨statements, span⟩ := b
  cases decls with
  | nil => exact subset_append_left _ _
  | cons d decls =>
    simp only [Block.declareFirst]
    generalize Block.insertionPoint ⟨statements, span⟩ = index
    have whole := congrArg statementMarks (take_append_drop index statements)
    rw [statementMarks_append] at whole
    rw [Block.marks, ← whole]
    split
    · rename_i vars rest isRest
      rw [isRest]
      simp only [Block.marks, statementMarks_append, statementMarks, Statement.marks_var,
        declMarks_append]
      grind
    · simp only [Block.marks, statementMarks_append, statementMarks, Statement.marks_var]
      grind

theorem Literal.marks_expr (literal : Literal) (negative : Bool) :
    (literal.expr negative).marks = [] := by
  cases literal <;> rfl

/-- A mark of a program whose names are being chosen: its name and scope are in the tree, and a name
in use is reserved if all mentions were counted. -/
structure Mark.Kept (counted : Prop) (t : ScopeTree) (mark : Mark) : Prop where
  formed : t.WellFormed
  valid : mark.Valid t
  reserved : counted → ∀ id f, mark = .use id → id.field = some f → t.Reserved f

section Kept

variable {counted : Prop} {t t' : ScopeTree} {mark : Mark}

theorem Mark.Kept.grows (kept : mark.Kept counted t) (grows : Grows t t') (formed' : t'.WellFormed) :
    mark.Kept counted t' where
  formed := formed'
  valid := kept.valid.extends grows.toExtends
  reserved isCounted id f isUse isField := by
    subst isUse
    exact grows.reserved kept.formed formed' (kept.valid f isField).1
      (kept.reserved isCounted id f rfl isField)

theorem Mark.Kept.of_sameShape (kept : mark.Kept counted t) (same : SameShape t t')
    (verboten : ∀ s, (t.scope s).verboten ⊆ (t'.scope s).verboten) : mark.Kept counted t' where
  formed := same.wellFormed kept.formed
  valid := kept.valid.extends (.of_sameShape same)
  reserved isCounted id f isUse isField :=
    same.reserved verboten (kept.reserved isCounted id f isUse isField)

end Kept

namespace SharedLiteral

variable {mark : Mark} {o : Occurrence}

/-- The bond of collecting occurrences and replacing them. What is said of the tree holds as long as
the occurrences so far are among those that were collected before. -/
def bond (counted : Prop) (tree : ScopeTree) (collected : List Occurrence) :
    Bond (Array Occurrence) ScopeTree where
  holds c t := c.toList ⊆ collected → t.Prepared ∧ Grows tree t
  grows c t c' t' := c.toList ⊆ c'.toList ∧
    (c'.toList ⊆ collected → t.WellFormed → t'.WellFormed ∧ Grows t t')
  fits c t mark := (∀ id, mark = .scope id → id < tree.scopes.size) ∧
    (c.toList ⊆ collected → mark.Kept counted t)
  refl c t := ⟨List.Subset.refl _, fun _ formed => ⟨formed, .refl t⟩⟩
  trans := by
    intro c t c₁ t₁ c₂ t₂ ⟨more₁, grown₁⟩ ⟨more₂, grown₂⟩
    refine ⟨List.Subset.trans more₁ more₂, fun known formed => ?_⟩
    obtain ⟨formed₁, grows₁⟩ := grown₁ (List.Subset.trans more₂ known) formed
    obtain ⟨formed₂, grows₂⟩ := grown₂ known formed₁
    exact ⟨formed₂, grows₁.trans grows₂⟩
  mono := by
    intro c t c₁ t₁ mark ⟨more, grown⟩ ⟨inside, kept⟩
    refine ⟨inside, fun known => ?_⟩
    have kept := kept (List.Subset.trans more known)
    obtain ⟨formed, grows⟩ := grown known kept.formed
    exact kept.grows grows formed

variable {counted : Prop} {tree : ScopeTree} {collected : List Occurrence} {shared : List SharedLiteral}

theorem replace_of_found {s : SharedLiteral} (found : shared.find? (·.key = o.key) = some s) (e : Expr)
    (t : ScopeTree) :
    replace shared o e t = (
      let mention : Expr :=
        ⟨.ident (s.ident (t.mention s.field o.scope).2 (t.mention s.field o.scope).1), e.span⟩
      if o.negated = s.negative then mention else .unary .minus mention,
      (t.mention s.field o.scope).2) := by
  simp only [replace, found]
  rfl

theorem replace_of_missing (missing : shared.find? (·.key = o.key) = none) (e : Expr) (t : ScopeTree) :
    replace shared o e t = (e, t) := by
  simp only [replace, missing]
  rfl

theorem mem_marks_mention {id : Ident} {span : Span} {positive : Prop} [Decidable positive]
    (mem : mark ∈ Expr.marks (if positive then ⟨.ident id, span⟩ else .unary .minus ⟨.ident id, span⟩)) :
    mark = .name id ∨ mark = .use id := by
  split at mem
  · simpa [or_comm] using mem
  · simpa [Expr.unary, or_comm] using mem

theorem mem_declMarks_decl {owned : List SharedLiteral} {t : ScopeTree}
    (mem : mark ∈ declMarks (owned.map (·.decl t))) :
    ∃ s ∈ owned, mark = .name (s.ident t s.field) := by
  induction owned with
  | nil => exact (nomatch mem)
  | cons s owned ih =>
    simp only [map_cons, declMarks, decl, VarDecl.marks, optionalMarks,
      Literal.marks_expr, cons_append, nil_append, mem_cons] at mem
    rcases mem with isName | mem
    · exact ⟨s, mem_cons_self, isName⟩
    · obtain ⟨s', isOwned, isName⟩ := ih mem
      exact ⟨s', mem_cons_of_mem _ isOwned, isName⟩

/-- A function has the marks that it had, and the names of the variables it declares for literals. -/
theorem mem_marks_declareIn {fn : Function} (mem : mark ∈ (declareIn shared tree fn).marks) :
    mark ∈ fn.marks ∨ ∃ s ∈ shared, mark = .name (s.ident tree s.field) := by
  obtain ⟨kind, name, params, body, scope, span⟩ := fn
  replace mem : mark ∈ Function.marks ⟨kind, name, params, body.declareFirst
    ((shared.filter fun s => scope = some s.owner).map (·.decl tree)), scope, span⟩ := mem
  rw [Function.marks] at mem ⊢
  rcases mem_append.mp mem with head | inBody
  · exact .inl (mem_append_left _ head)
  rcases mem_append.mp (Block.marks_declareFirst _ _ inBody) with old | new
  · exact .inl (mem_append_right _ old)
  · obtain ⟨s, isShared, isName⟩ := mem_declMarks_decl new
    exact .inr ⟨s, (mem_filter.mp isShared).1, isName⟩

/-- An occurrence becomes a mention of the variable for its literal. -/
theorem keeps_replace (formed : tree.WellFormed)
    (valid : ∀ o ∈ collected, o.scope < tree.scopes.size)
    (serves : ∀ s ∈ shared, tree.Serves collected s) (o : Occurrence) (e : Expr) :
    (bond counted tree collected).Keeps e.marks
      (do modify (·.push o); return e : StateM (Array Occurrence) Expr) (replace shared o e)
      Expr.marks := by
  intro c t holds fits
  have more : c.toList ⊆ (c.push o).toList := by simp
  show (bond counted tree collected).holds (c.push o) (replace shared o e t).2 ∧
    (bond counted tree collected).grows c t (c.push o) (replace shared o e t).2 ∧
    ∀ mark ∈ (replace shared o e t).1.marks,
      (bond counted tree collected).fits (c.push o) (replace shared o e t).2 mark
  cases found : shared.find? (·.key = o.key) with
  | none =>
    rw [replace_of_missing found]
    have grows : (bond counted tree collected).grows c t (c.push o) t :=
      ⟨more, fun _ formed => ⟨formed, .refl t⟩⟩
    exact ⟨fun known => holds (List.Subset.trans more known), grows,
      fun mark mem => (bond counted tree collected).mono grows (fits mark mem)⟩
  | some s =>
    rw [replace_of_found found]
    have isKey : s.key = o.key := by simpa using List.find?_some found
    -- if the occurrence is one of those collected, the variable is around it
    have mentions (known : (c.push o).toList ⊆ collected) := by
      obtain ⟨prepared, grown⟩ := holds (List.Subset.trans more known)
      have isCollected : o ∈ collected := known (by simp)
      obtain ⟨isShared, around⟩ := grown.serves formed valid (serves s (mem_of_find?_eq_some found))
      obtain ⟨prepared', grows', named, reserved⟩ :=
        prepared.mention isShared (around o isCollected isKey.symm)
      rw [← grows'.name _ isShared.bound] at named
      exact (⟨prepared', grows', grown.trans grows', named, reserved⟩ :
        _ ∧ _ ∧ Grows tree _ ∧ _ ∧ _)
    refine ⟨fun known => ?_, ⟨more, fun known _ => ?_⟩, fun mark mem => ?_⟩
    · obtain ⟨prepared', _, grown', _⟩ := mentions known
      exact ⟨prepared', grown'⟩
    · obtain ⟨prepared', grows', _⟩ := mentions known
      exact ⟨prepared'.formed, grows'⟩
    · obtain isName | isUse := mem_marks_mention mem
      · subst isName
        refine ⟨fun _ isScope => (nomatch isScope), fun known => ?_⟩
        obtain ⟨prepared', _, _, named, _⟩ := mentions known
        refine ⟨prepared'.formed, ?_, fun _ _ _ isUse => (nomatch isUse)⟩
        rintro _ ⟨⟩
        exact named
      · subst isUse
        refine ⟨fun _ isScope => (nomatch isScope), fun known => ?_⟩
        obtain ⟨prepared', _, _, named, reserved⟩ := mentions known
        refine ⟨prepared'.formed, ?_, ?_⟩
        · rintro _ ⟨⟩
          exact named
        · rintro - _ _ ⟨⟩ ⟨⟩
          exact reserved

theorem keeps_declareIn (serves : ∀ s ∈ shared, tree.Serves collected s) (fn fn' : Function) :
    (bond counted tree collected).Keeps fn'.marks (pure fn : StateM (Array Occurrence) Function)
      (pure (declareIn shared tree fn')) Function.marks := by
  intro c t holds fits
  refine ⟨holds, (bond counted tree collected).refl c t, fun mark mem => ?_⟩
  obtain old | ⟨s, isShared, rfl⟩ := mem_marks_declareIn mem
  · exact fits mark old
  refine ⟨fun _ isScope => (nomatch isScope), fun known => ?_⟩
  obtain ⟨prepared, grown⟩ := holds known
  refine ⟨prepared.formed, ?_, fun _ _ _ isUse => (nomatch isUse)⟩
  rintro _ ⟨⟩
  exact grown.hasNamed ⟨(serves s isShared).1.bound, rfl⟩

end SharedLiteral

/-- Sharing literals succeeds in its phase and leaves a prepared tree with all names of the program
in it, those in use reserved if they were. -/
theorem BoundProgram.shareLiterals_prepared (settings : Settings) {p : BoundProgram} {counted : Prop}
    (prepared : p.tree.Prepared) (phase : p.tree.phase = .fieldsReserved)
    (own : p.program.scope = some ScopeTree.global)
    (kept : ∀ mark ∈ p.program.marks, mark.Kept counted p.tree) :
    ∃ q, p.shareLiterals settings = .ok q ∧ q.value.tree.Prepared ∧
      q.value.tree.phase = .literalsShortcut ∧
      ∀ mark ∈ q.value.program.marks, mark.Kept counted q.value.tree := by
  let start : ScopeTree := { p.tree with phase := .literalsShortcut }
  have advanced : p.tree.advance .fieldsReserved .literalsShortcut = .ok start := if_pos phase
  have same : SameShape p.tree start := sameShape_withPhase _ _
  have prepared : start.Prepared := prepared.of_sameShape same (fun _ => rfl)
    prepared.generated_variable (Nat.le_refl _)
    (same.verbotenOuter (fun _ => rfl) prepared.verbotenOuter)
  have kept : ∀ mark ∈ p.program.marks, mark.Kept counted start := fun mark mem =>
    (kept mark mem).of_sameShape same fun _ => List.Subset.refl _
  unfold BoundProgram.shareLiterals
  rw [advanced]
  simp only [bind, Except.bind]
  split
  case isFalse => exact ⟨_, rfl, prepared, rfl, kept⟩
  case isTrue =>
    refine ⟨_, rfl, ?_⟩
    have own_lt : ∀ id, p.program.scope = some id → id < start.scopes.size := by
      intro id isScope
      rw [own] at isScope
      cases isScope
      exact prepared.formed.nonempty
    have valid : ∀ o ∈ p.program.occurrences, o.scope < start.scopes.size :=
      Program.scope_occurrences_lt own_lt fun id mem => (kept _ mem).valid
    obtain ⟨prepared', grown, serves⟩ := prepared.shareAll valid
    generalize start.shareAll p.program.occurrences = r at *
    obtain ⟨shared, tree⟩ := r
    have inside (id : ScopeId) : id < start.scopes.size → id < tree.scopes.size :=
      fun lower => grown.same_size ▸ lower
    have walks := LiteralWalk.inStep (I := SharedLiteral.bond counted tree p.program.occurrences)
      (fun fits => fits.1 _ rfl)
      (fun o e _ => SharedLiteral.keeps_replace prepared'.formed
        (fun o mem => inside _ (valid o mem)) serves o e)
      (fun fn fn' => SharedLiteral.keeps_declareIn serves fn fn')
    obtain ⟨⟨_, _, holds⟩, _, fits⟩ := walks.program p.program ⟨[p.program.scope], #[]⟩
      ⟨[p.program.scope], tree⟩
      ⟨rfl, fun id mem => inside id (own_lt id (mem_singleton.mp mem).symm),
        fun _ => ⟨prepared', .refl tree⟩⟩
      (fun mark mem => ⟨fun id isScope => inside id (isScope ▸ kept mark mem).valid,
        fun _ => (kept mark mem).grows grown prepared'.formed⟩)
    -- the first of the two walks is the one that collected the occurrences
    have all := List.Subset.refl p.program.occurrences
    obtain ⟨prepared'', grown'⟩ := holds all
    exact ⟨prepared'', (grown.trans grown').phase, fun mark mem => (fits mark mem).2 all⟩

end Minifier
