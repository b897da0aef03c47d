import Minifier.Proofs.Literal.Placed

/-!
# Mentions of variables for literals

The names that come into a program when literals are replaced are mentions of the variables for them,
each in the scope where the literal was. A variable is counted as often as its literal was written.
This goes along the walk that replaces them (`SharedLiteral.follows_mentioned`), part by part.
-/

set_option autoImplicit false

namespace Minifier

open LiteralWalk ScopeTree Multiset

/-- A name that stands for a variable, through a field of the scope that it is in. -/
structure Site.Links (t : ScopeTree) (site : Site) (v f : FieldId) : Prop where
  bound : f < t.fields.size
  scope : (t.field f).scope = innermost site.around
  ultimate : t.ultimate f = v

theorem Site.Links.grows {t t' : ScopeTree} {site : Site} {v f : FieldId} (links : site.Links t v f)
    (grows : Grows t t') (formed : t.WellFormed) (formed' : t'.WellFormed) : site.Links t' v f where
  bound := Nat.lt_of_lt_of_le links.bound grows.fields_size
  scope := (grows.scope f links.bound).trans links.scope
  ultimate := (grows.ultimate formed.outersFirst formed'.outersFirst links.bound).trans links.ultimate

/-- The occurrences among what is found. -/
def written (found : Multiset Found) : Multiset Occurrence := found.filterMap Found.literal?

theorem written_add (a b : Multiset Found) : written (a + b) = written a + written b :=
  filterMap_add _ _ _

theorem mem_written {found : Multiset Found} {o : Occurrence} : o ∈ written found ↔ .literal o ∈ found := by
  rw [written, mem_filterMap]
  constructor
  · rintro ⟨item, mem, isLiteral⟩
    cases item with
    | literal o' => exact Option.some.inj isLiteral ▸ mem
    | name _ => cases isLiteral
  · exact fun mem => ⟨_, mem, rfl⟩

namespace SharedLiteral

variable (shared : List SharedLiteral) (old : Nat)

/-- What the mentions of variables for literals in a part of a program are, given the occurrences in
that part, and how they are counted. -/
structure Mentioned (scopes : List (Option ScopeId)) (t : ScopeTree)
    (occurrences : Multiset Occurrence) (sites : List Opening → Multiset Site) (t' : ScopeTree) :
    Prop where
  prepared : t'.Prepared
  grows : Grows t t'
  isGenerated : ∀ f, (t'.field f).isGenerated = (t.field f).isGenerated
  marks : SameMarks t t'
  counted : ∀ s ∈ shared, (t'.field s.field).refs =
    (t.field s.field).refs + occurrences.countP (·.key = s.key)
  /-- A new name is a mention of one of the variables. -/
  linked : ∀ around, scopes = around.map (·.scope) ++ [some global] → ∀ site ∈ sites around,
    ∀ id, site.item = .use id → id.IsOld old ∨
      ∃ s ∈ shared, ∃ f, id.field = some f ∧ site.Links t' s.field f
  /-- A literal that has a variable is mentioned by it. -/
  occurs : ∀ around, scopes = around.map (·.scope) ++ [some global] → ∀ s ∈ shared,
    ∀ o ∈ occurrences, o.key = s.key → ∃ site ∈ sites around, ∃ id f, site.item = .use id ∧
      id.field = some f ∧ site.Links t' s.field f

variable {shared old}

namespace Mentioned

variable {scopes : List (Option ScopeId)} {t t₁ t₂ : ScopeTree}
  {occurrences occurrences' : Multiset Occurrence} {sites sites' : List Opening → Multiset Site}

theorem add (first : Mentioned shared old scopes t occurrences sites t₁)
    (second : Mentioned shared old scopes t₁ occurrences' sites' t₂) :
    Mentioned shared old scopes t (occurrences + occurrences') (sites + sites') t₂ where
  prepared := second.prepared
  grows := first.grows.trans second.grows
  isGenerated f := (second.isGenerated f).trans (first.isGenerated f)
  marks := first.marks.trans second.marks
  counted s mem := by
    rw [second.counted s mem, first.counted s mem, countP_add, Nat.add_assoc]
  linked around isAround site mem id isUse := by
    rcases mem_add.mp mem with left | right
    · obtain isOld | ⟨s, isShared, f, isField, links⟩ :=
        first.linked around isAround site left id isUse
      · exact .inl isOld
      · exact .inr ⟨s, isShared, f, isField,
          links.grows second.grows first.prepared.formed second.prepared.formed⟩
    · exact second.linked around isAround site right id isUse
  occurs around isAround s isShared o mem isKey := by
    rcases mem_add.mp mem with left | right
    · obtain ⟨site, isSite, id, f, isUse, isField, links⟩ :=
        first.occurs around isAround s isShared o left isKey
      exact ⟨site, mem_add.mpr (.inl isSite), id, f, isUse, isField,
        links.grows second.grows first.prepared.formed second.prepared.formed⟩
    · obtain ⟨site, isSite, id, f, isUse, isField, links⟩ :=
        second.occurs around isAround s isShared o right isKey
      exact ⟨site, mem_add.mpr (.inr isSite), id, f, isUse, isField, links⟩

/-- A part in which no literal has a variable. -/
theorem of_unshared (prepared : t.Prepared)
    (unshared : ∀ o ∈ occurrences, ∀ s ∈ shared, s.key ≠ o.key)
    (areOld : ∀ around, ∀ site ∈ sites around, ∀ id, site.item = .use id → id.IsOld old) :
    Mentioned shared old scopes t occurrences sites t where
  prepared := prepared
  grows := .refl t
  isGenerated _ := rfl
  marks := .refl t
  counted s isShared := by
    rw [countP_eq_zero.mpr fun o mem isKey => unshared o mem s isShared isKey.symm]
    rfl
  linked around _ site mem id isUse := .inl (areOld around site mem id isUse)
  occurs _ _ s isShared o mem isKey := absurd isKey.symm (unshared o mem s isShared)

/-- A part without literals. -/
theorem of_old (prepared : t.Prepared)
    (areOld : ∀ around, ∀ site ∈ sites around, ∀ id, site.item = .use id → id.IsOld old) :
    Mentioned shared old scopes t 0 sites t :=
  of_unshared prepared (fun _ mem => nomatch mem) areOld

/-- With more declarations. -/
theorem declaring (mentioned : Mentioned shared old scopes t occurrences sites t₁) (more : List Ident) :
    Mentioned shared old scopes t occurrences (fun around => declared around more + sites around) t₁ :=
  { mentioned with
    linked := by
      intro around isAround site mem id isUse
      rcases mem_add.mp mem with isDeclared | inBody
      · simp only [Minifier.declared, mem_coe, List.mem_map] at isDeclared
        obtain ⟨_, _, rfl⟩ := isDeclared
        cases isUse
      · exact mentioned.linked around isAround site inBody id isUse
    occurs := by
      intro around isAround s isShared o mem isKey
      obtain ⟨site, isSite, rest⟩ := mentioned.occurs around isAround s isShared o mem isKey
      exact ⟨site, mem_add.mpr (.inr isSite), rest⟩ }

/-- Inside a construct. -/
theorem opened (o : Opening) (mentioned : Mentioned shared old (o.scope :: scopes) t occurrences sites t₁)
    (outer inner : List Ident) :
    Mentioned shared old scopes t occurrences (opened o outer inner sites) t₁ :=
  { mentioned with
    linked := by
      intro around isAround site mem id isUse
      exact mentioned.linked (o :: around) (by rw [isAround]; rfl) site
        (Declared.use_of_mem_opened mem isUse) id isUse
    occurs := by
      intro around isAround s isShared occurrence mem isKey
      obtain ⟨site, isSite, rest⟩ := mentioned.occurs (o :: around) (by rw [isAround]; rfl) s isShared
        occurrence mem isKey
      exact ⟨site, mem_opened.mpr (.inr (.inr (.inr isSite))), rest⟩ }

end Mentioned

theorem countP_key (o : Occurrence) (key : LiteralKey) :
    Multiset.countP (fun o : Occurrence => o.key = key) {o} = if key = o.key then 1 else 0 := by
  rw [← coe_singleton, coe_countP, List.countP_singleton]
  simp [eq_comm]

variable {tree : ScopeTree} {collected : List Occurrence}

/-- An occurrence of a literal that has a variable becomes a mention of the variable. -/
theorem mentioned_mention (plan : ∀ s ∈ shared, tree.Serves collected s)
    (fields : (shared.map (·.field)).Nodup) (keys : (shared.map (·.key)).Nodup)
    (formed : tree.WellFormed) (valid : ∀ o ∈ collected, o.scope < tree.scopes.size)
    {t : ScopeTree} (prepared : t.Prepared) (grows : Grows tree t) {scopes : List (Option ScopeId)}
    {e : Expr} {o : Occurrence} (isOccurrence : occurrence? scopes e = some o)
    (known : o ∈ collected) {s : SharedLiteral} (isShared : s ∈ shared) (isKey : s.key = o.key) :
    Mentioned shared old scopes t {o}
      (fun around => {⟨around, .use (s.ident (t.mention s.field o.scope).2
        (t.mention s.field o.scope).1)⟩}) (t.mention s.field o.scope).2 := by
  obtain ⟨isServed, within⟩ := grows.serves formed valid (plan s isShared)
  obtain ⟨prepared', grows', -⟩ := prepared.mention isServed (within o known isKey.symm)
  have mentions := prepared.mentions isServed (within o known isKey.symm)
  have links (around : List Opening) (isAround : scopes = around.map (·.scope) ++ [some global])
      (item : Item) : Site.Links (t.mention s.field o.scope).2 ⟨around, item⟩ s.field
        (t.mention s.field o.scope).1 := by
    refine ⟨mentions.bound, mentions.scope.trans ?_, mentions.ultimate⟩
    simp only [occurrence?, Option.bind_eq_bind, Option.bind_eq_some_iff, Option.pure_def,
      Option.some.injEq] at isOccurrence
    obtain ⟨_, _, _, _, scope, isHead, rfl⟩ := isOccurrence
    have whole : scopes.filterMap id = scopesAround around := by
      rw [isAround, List.filterMap_append, List.filterMap_map]
      rfl
    rw [whole] at isHead
    show scope = (scopesAround around).headD _
    rw [List.headD_eq_head?_getD, isHead]
    rfl
  exact {
    prepared := prepared'
    grows := grows'
    isGenerated := mentions.isGenerated
    marks := mentions.marks
    counted := by
      intro s' isShared'
      obtain ⟨isServed', -⟩ := grows.serves formed valid (plan s' isShared')
      rw [mentions.refs s'.field isServed'.bound isServed'.isVariable, countP_key]
      -- a variable is for one literal, and a literal has one variable
      have both : s.field = s'.field ↔ s'.key = o.key := by
        constructor
        · intro isField
          rw [← List.inj_on_of_nodup_map fields isShared isShared' isField, isKey]
        · intro isKey'
          rw [List.inj_on_of_nodup_map keys isShared isShared' (isKey.trans isKey'.symm)]
      simp only [both]
    linked := by
      intro around isAround site mem id isUse
      obtain rfl := mem_singleton.mp mem
      obtain rfl := Item.use.inj isUse
      exact .inr ⟨s, isShared, _, rfl, links around isAround _⟩
    occurs := by
      intro around isAround s' isShared' o' mem isKey'
      obtain rfl := mem_singleton.mp mem
      obtain rfl := List.inj_on_of_nodup_map keys isShared isShared' (isKey.trans isKey')
      exact ⟨_, mem_singleton_self _, _, _, rfl, rfl, links around isAround _⟩ }

/-- The walk that replaces literals mentions the variables for them. -/
theorem follows_mentioned (plan : ∀ s ∈ shared, tree.Serves collected s)
    (fields : (shared.map (·.field)).Nodup) (keys : (shared.map (·.key)).Nodup)
    (formed : tree.WellFormed) (valid : ∀ o ∈ collected, o.scope < tree.scopes.size) :
    Follows inventory placing (replace shared) (declareIn shared tree) fun scopes t a b t₁ =>
      (∀ id, .name id ∈ a scopes → id.IsOld old) → (∀ o ∈ written (a scopes), o ∈ collected) →
      t.Prepared → Grows tree t → Mentioned shared old scopes t (written (a scopes)) b.1.2 t₁ where
  zero _ _ _ _ prepared _ := .of_old prepared fun _ _ mem => nomatch mem
  add := by
    intro scopes t t₁ t₂ a a₁ b b₁ first second areOld known prepared grows
    rw [Pi.add_apply, written_add] at known ⊢
    have left := first (fun id mem => areOld id (mem_add.mpr (.inl mem)))
      (fun o mem => known o (mem_add.mpr (.inl mem))) prepared grows
    have right := second (fun id mem => areOld id (mem_add.mpr (.inr mem)))
      (fun o mem => known o (mem_add.mpr (.inr mem))) left.prepared (grows.trans left.grows)
    exact left.add right
  quiet _ _ := inventory_quiet
  line := inventory_line
  directive e scopes t isString areOld known prepared grows := by
    rw [inventory_directive isString]
    show Mentioned shared old scopes t 0 (e.census placing none).1.2 t
    rw [placing_string isString]
    exact .of_old prepared fun _ _ mem => nomatch mem
  spared around around' e scopes t isSpared areOld known prepared grows := by
    rw [inventory_spared isSpared] at areOld ⊢
    rw [written, filterMap_namesAmong, placing_expr]
    refine .of_old prepared fun place site mem id isUse => ?_
    exact areOld id (mem_namesAmong.mpr ⟨id, Expr.ident_of_site mem (by rw [isUse]; rfl), rfl⟩)
  literal around around' e scopes t notSpared isLiteral areOld known prepared grows := by
    rw [inventory_literal notSpared isLiteral] at known ⊢
    rw [written, filterMap_occurrenceAt] at known ⊢
    obtain ⟨same, unknown⟩ | ⟨o, s, isOccurrence, found, mention⟩ := visited_cases shared scopes e t
    · rw [same, Literal.census_eq_zero (fun _ _ => rfl) isLiteral]
      refine .of_unshared prepared (fun o mem => unknown o ?_) fun _ _ mem => nomatch mem
      simpa using mem
    · rw [mention, census_mentionAt fun _ _ => rfl, isOccurrence]
      rw [isOccurrence] at known
      exact mentioned_mention plan fields keys formed valid prepared grows isOccurrence
        (known o (List.mem_singleton_self o)) (List.mem_of_find?_eq_some found)
        (by simpa using List.find?_some found)
  use isCallee id scopes t areOld known prepared grows := by
    have names : written (inventory.use isCallee id scopes) = 0 := filterMap_namesAmong _
    rw [names]
    refine .of_old prepared fun place site mem id' isUse => ?_
    obtain rfl := mem_singleton.mp mem
    obtain rfl := Item.use.inj isUse
    exact areOld id (mem_namesAmong.mpr ⟨id, List.mem_singleton_self _, rfl⟩)
  declare id scopes t areOld known prepared grows := by
    have names : written (inventory.declare id scopes) = 0 := filterMap_namesAmong _
    rw [names]
    refine .of_old prepared fun place site mem id' isUse => ?_
    obtain rfl := List.mem_singleton.mp mem
    cases isUse
  function fn body scopes t t₁ mentioned areOld known prepared grows := by
    obtain ⟨kind, name, params, body', scope, span⟩ := fn
    have parts : written (Function.census inventory ⟨kind, name, params, body', scope, span⟩ scopes) =
        written (body'.census inventory (scope :: scopes)) := by
      show written (namesAmong _ + _) = _
      rw [written_add, written, filterMap_namesAmong, zero_add]
    rw [parts] at known ⊢
    have inBody := mentioned (fun id mem => areOld id (mem_add.mpr (.inr mem))) known prepared
      grows
    show Mentioned shared old scopes t _ (placing.function (declareIn shared tree
      ⟨kind, name, params, body, scope, span⟩)
      ((declareIn shared tree ⟨kind, name, params, body, scope, span⟩).body.census placing)).1.2 t₁
    rw [placing_declareIn]
    exact (inBody.declaring _).opened (Function.opening (declareIn shared tree
      ⟨kind, name, params, body, scope, span⟩) _) _ _
  handler clause body scopes t t₁ mentioned areOld known prepared grows := by
    obtain ⟨param, body', scope, span⟩ := clause
    have parts : written (handlerCensus inventory (some ⟨param, body', scope, span⟩) scopes) =
        written (body'.census inventory (scope :: scopes)) := by
      show written (namesAmong _ + _) = _
      rw [written_add, written, filterMap_namesAmong, zero_add]
    rw [parts] at known ⊢
    have inBody := mentioned (fun id mem => areOld id (mem_add.mpr (.inr mem))) known prepared
      grows
    exact inBody.opened (CatchClause.opening ⟨param, body, scope, span⟩) [] []
  withBody scope a b scopes t t₁ mentioned areOld known prepared grows :=
    (mentioned areOld known prepared grows).opened (withOpening scope) [] []

end SharedLiteral

end Minifier
