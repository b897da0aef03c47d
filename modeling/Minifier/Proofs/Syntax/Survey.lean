import Mathlib.Algebra.Group.Pi.Basic
import Mathlib.Algebra.Group.Prod
import Mathlib.Algebra.Order.Group.Multiset
import Minifier.Proofs.Syntax.Census
import Minifier.Scope.Basic

/-!
# Where names stand

The survey of a program lists its sites: every name in use, every name that is declared, and every
construct that opens a scope, each with the constructs around it. Nothing but the text of a program
goes into it, so it says what the scopes of a program should be, whatever binding makes of them.

A `var` or a function declaration belongs to the function around it, or to the program, however deep
in blocks, loops, `catch` clauses or `with` bodies it stands: its name is hoisted.
-/

set_option autoImplicit false

namespace Minifier

open Multiset

variable {scope : ScopeId}

/-- A construct that opens a scope: the scope it was given, and the names it declares there. -/
structure Opening where
  kind : ScopeKind
  scope : Option ScopeId
  names : Multiset String

/-- What is found at a site. -/
inductive Item where
  | use (id : Ident)
  /-- A parameter, a `var`, a function declaration, or the name of a function expression. -/
  | declares (id : Ident)
  | opening (o : Opening)

/-- Something that stands in a program, with the constructs around it, from the inside. -/
structure Site where
  around : List Opening
  item : Item

/-- The scope of the construct that stands at a site. -/
def Site.scope? (site : Site) : Option ScopeId :=
  match site.item with
  | .opening o => o.scope
  | _ => none

/-! ## Scopes around a site -/

/-- The scopes of some constructs, and the global one. -/
def scopesAround (around : List Opening) : List ScopeId :=
  around.filterMap (·.scope) ++ [ScopeTree.global]

/-- The scope that a site is in. -/
def innermost (around : List Opening) : ScopeId := (scopesAround around).headD ScopeTree.global

/-- The functions among some constructs. -/
def functionsOf (around : List Opening) : List Opening := around.filter (·.kind = .function)

/-- The scope that a `var` at a site goes to. -/
def ownerAt (around : List Opening) : ScopeId := innermost (functionsOf around)

variable {o : Opening} {site : Site} (around : List Opening)

theorem innermost_cons (isScope : o.scope = some scope) (around : List Opening) :
    innermost (o :: around) = scope := by
  simp [innermost, scopesAround, isScope]

/-- The owner changes at functions only. -/
theorem ownerAt_cons (isScope : o.scope = some scope) (around : List Opening) :
    ownerAt (o :: around) = if o.kind = .function then scope else ownerAt around := by
  unfold ownerAt functionsOf
  by_cases isFunction : o.kind = .function
  · simp [isFunction, innermost_cons isScope]
  · simp [isFunction]

/-! ## What constructs declare -/

namespace Function

variable (fn : Function)

/-- The name of a function declaration, which the function around it declares. -/
def hoistedName (fn : Function) : List Ident :=
  if fn.kind = .declaration then fn.name.toList else []

/-- The name of a function expression, which it declares itself. -/
def ownName (fn : Function) : List Ident :=
  if fn.kind = .declaration then [] else fn.name.toList

/-- The names that the head of a function declares. A parameter hides the name of the function. -/
def locals (fn : Function) : List Ident :=
  fn.params ++ fn.ownName.filter fun id => fn.params.all (·.name ≠ id.name)

theorem map_hoistedName : fn.hoistedName.map (·.name) =
      if fn.kind = .declaration then (fn.name.map (·.name)).toList else [] := by
  unfold hoistedName
  split <;> cases fn.name <;> rfl

theorem map_ownName : fn.ownName.map (·.name) =
      if fn.kind = .declaration then [] else (fn.name.map (·.name)).toList := by
  unfold ownName
  split <;> cases fn.name <;> rfl

theorem map_locals : fn.locals.map (·.name) = fn.params.map (·.name) ++
      (fn.ownName.map (·.name)).filter fun name => (fn.params.map (·.name)).all (· ≠ name) := by
  simp [locals, List.filter_map, Function.comp_def]

/-- A function whose body hoists some names. -/
def opening (fn : Function) (hoisted : Multiset String) : Opening :=
  ⟨.function, fn.scope, (fn.params ++ fn.ownName).map (·.name) + {"arguments"} + hoisted⟩

end Function

/-- The scope of a handler. -/
def CatchClause.opening (clause : CatchClause) : Opening :=
  ⟨.catchClause, clause.scope, {clause.param.name}⟩

/-- The body of a `with` statement, which declares nothing. -/
def withOpening (scope : Option ScopeId) : Opening := ⟨.withBody, scope, 0⟩

/-! ## The survey -/

/-- The names that a part of a program hoists, and its sites, given what is around it. -/
abbrev Survey := Multiset String × (List Opening → Multiset Site)

/-- Some names that are declared at one site. -/
def declared (around : List Opening) (ids : List Ident) : Multiset Site :=
  Multiset.ofList (ids.map fun id => ⟨around, .declares id⟩)

theorem filterMap_opening (o : Opening) :
    Multiset.filterMap Site.scope? {⟨around, .opening o⟩} = Multiset.ofList o.scope.toList := by
  rw [← coe_singleton, filterMap_coe]
  cases isScope : o.scope <;> simp [Site.scope?, isScope]

theorem filterMap_declared (ids : List Ident) : (declared around ids).filterMap Site.scope? = 0 := by
  simp [declared, Site.scope?]

/-- The sites of a construct: itself, what it declares around it and what in its own scope, and its
body. -/
def opened (o : Opening) (outer inner : List Ident) (body : List Opening → Multiset Site)
    (around : List Opening) : Multiset Site :=
  {⟨around, .opening o⟩} + (declared around outer + declared (o :: around) inner) +
    body (o :: around)

/-- The survey of a tree. -/
def survey : Census Survey where
  use _ id := (0, fun around => {⟨around, .use id⟩})
  declare id := ({id.name}, fun around => declared around [id])
  function fn body :=
    (fn.hoistedName.map (·.name), opened (fn.opening body.1) fn.hoistedName fn.locals body.2)
  handler clause body := (body.1, opened clause.opening [] [] body.2)
  withBody scope body := (body.1, opened (withOpening scope) [] [] body.2)

theorem mem_opened {outer inner : List Ident} {body : List Opening → Multiset Site}
    {around : List Opening} : site ∈ opened o outer inner body around ↔
      site = ⟨around, .opening o⟩ ∨ (∃ id ∈ outer, site = ⟨around, .declares id⟩) ∨
        (∃ id ∈ inner, site = ⟨o :: around, .declares id⟩) ∨ site ∈ body (o :: around) := by
  simp only [opened, declared, mem_add, mem_singleton, mem_coe,
    List.mem_map, eq_comm (b := site), or_assoc]

theorem filterMap_opened (o : Opening) (outer inner : List Ident)
    (body : List Opening → Multiset Site) :
    (opened o outer inner body around).filterMap Site.scope? =
      Multiset.ofList o.scope.toList + (body (o :: around)).filterMap Site.scope? := by
  simp only [opened, filterMap_add, filterMap_opening, filterMap_declared, add_zero]

namespace Program

/-- The names that a program declares in the global scope. -/
def hoisted (p : Program) : Multiset String := (p.census survey).1

/-- All sites of a program. -/
def sites (p : Program) : Multiset Site := (p.census survey).2 []

end Program

/-! ## Links -/

/-- A name that stands nowhere and is linked to nothing. -/
def Ident.normal (id : Ident) : Ident := { name := id.name, span := .synthetic }

def Opening.unlinked (o : Opening) : Opening := { o with scope := none }

def Item.unlinked : Item → Item
  | .use id => .use id.normal
  | .declares id => .declares id.normal
  | .opening o => .opening o.unlinked

/-- A site without fields, scopes and positions: only the names are left. -/
def Site.unlinked (site : Site) : Site := ⟨site.around.map (·.unlinked), site.item.unlinked⟩

/-- Two parts of a program differ in their links only. -/
structure Survey.Alike (a b : Survey) : Prop where
  hoisted : a.1 = b.1
  sites : ∀ around around', around.map Opening.unlinked = around'.map Opening.unlinked →
    (a.2 around).map Site.unlinked = (b.2 around').map Site.unlinked

namespace Survey.Alike

theorem refl_zero : Alike 0 0 := ⟨rfl, fun _ _ _ => rfl⟩

theorem trans {a b c : Survey} (first : Alike a b) (second : Alike b c) : Alike a c where
  hoisted := first.hoisted.trans second.hoisted
  sites around around' same := (first.sites around around rfl).trans (second.sites around around' same)

theorem add {a a' b b' : Survey} (first : Alike a a') (second : Alike b b') :
    Alike (a + b) (a' + b') where
  hoisted := by rw [Prod.fst_add, Prod.fst_add, first.hoisted, second.hoisted]
  sites around around' same := by
    rw [Prod.snd_add, Prod.snd_add, Pi.add_apply, Pi.add_apply, map_add, map_add,
      first.sites around around' same, second.sites around around' same]

theorem use {isCallee : Bool} {id id' : Ident} (name : id.name = id'.name) :
    Alike (survey.use isCallee id) (survey.use isCallee id') where
  hoisted := rfl
  sites around around' same := by simp [survey, Site.unlinked, Item.unlinked, Ident.normal, same, name]

theorem map_declared {around around' : List Opening} {ids ids' : List Ident}
    (same : around.map Opening.unlinked = around'.map Opening.unlinked)
    (names : ids.map (·.name) = ids'.map (·.name)) :
    (declared around ids).map Site.unlinked = (declared around' ids').map Site.unlinked := by
  have each (around : List Opening) (ids : List Ident) : (declared around ids).map Site.unlinked =
      Multiset.ofList ((ids.map (·.name)).map fun name =>
        ⟨around.map Opening.unlinked, .declares { name, span := .synthetic }⟩) := by
    simp [declared, Site.unlinked, Item.unlinked, Ident.normal, Function.comp_def]
  rw [each, each, same, names]

theorem declare {id id' : Ident} (name : id.name = id'.name) :
    Alike (survey.declare id) (survey.declare id') where
  hoisted := congrArg (fun name : String => ({name} : Multiset String)) name
  sites _ _ same := map_declared same (by simp [name])

theorem opened {a b : Survey} (alike : Alike a b) {hoisted hoisted' : Multiset String}
    {o o' : Opening} {outer outer' inner inner' : List Ident} (sameHoisted : hoisted = hoisted')
    (sameOpening : o.unlinked = o'.unlinked) (sameOuter : outer.map (·.name) = outer'.map (·.name))
    (sameInner : inner.map (·.name) = inner'.map (·.name)) :
    Alike (hoisted, opened o outer inner a.2) (hoisted', opened o' outer' inner' b.2) where
  hoisted := sameHoisted
  sites around around' same := by
    have inside : (o :: around).map Opening.unlinked = (o' :: around').map Opening.unlinked := by
      rw [List.map_cons, List.map_cons, sameOpening, same]
    have here : (⟨around, .opening o⟩ : Site).unlinked = (⟨around', .opening o'⟩ : Site).unlinked := by
      simp [Site.unlinked, Item.unlinked, sameOpening, same]
    simp only [Minifier.opened, map_add, map_singleton, here,
      map_declared same sameOuter, map_declared inside sameInner, alike.sites _ _ inside]

end Survey.Alike

/-! ## Constructs around a site are sites -/

/-- Around the sites of a part of a program are constructs of that part, and then those around the
part. -/
def Survey.IsNested (m : Survey) : Prop :=
  ∀ around, ∀ site ∈ m.2 around, ∃ inner, site.around = inner ++ around ∧
    ∀ before o after, inner = before ++ o :: after → ⟨after ++ around, .opening o⟩ ∈ m.2 around

theorem Survey.IsNested.add {a b : Survey} (first : a.IsNested) (second : b.IsNested) :
    Survey.IsNested (a + b) := by
  intro around site mem
  rcases mem_add.mp mem with left | right
  · obtain ⟨inner, whole, known⟩ := first around site left
    exact ⟨inner, whole, fun before o after split =>
      mem_add.mpr (.inl (known before o after split))⟩
  · obtain ⟨inner, whole, known⟩ := second around site right
    exact ⟨inner, whole, fun before o after split =>
      mem_add.mpr (.inr (known before o after split))⟩

theorem Survey.IsNested.opened {body : Survey} (nested : body.IsNested) (hoisted : Multiset String)
    (o : Opening) (outer inner : List Ident) :
    Survey.IsNested (hoisted, opened o outer inner body.2) := by
  intro around site mem
  have here : (⟨around, .opening o⟩ : Site) ∈ Minifier.opened o outer inner body.2 around :=
    mem_opened.mpr (.inl rfl)
  rcases mem_opened.mp mem with rfl | ⟨id, _, rfl⟩ | ⟨id, _, rfl⟩ | inBody
  · exact ⟨[], rfl, by simp⟩
  · exact ⟨[], rfl, by simp⟩
  · refine ⟨[o], rfl, fun before o' after split => ?_⟩
    obtain ⟨rfl, rfl, rfl⟩ : before = [] ∧ o = o' ∧ after = [] := by
      cases before <;> simp_all
    exact here
  · obtain ⟨nearer, whole, known⟩ := nested (o :: around) site inBody
    refine ⟨nearer ++ [o], by simp [whole], fun before o' after split => ?_⟩
    rcases List.eq_nil_or_concat after with rfl | ⟨front, last, rfl⟩
    · obtain ⟨rfl, same⟩ := List.append_inj' split rfl
      obtain rfl := List.singleton_inj.mp same
      exact here
    · have split : nearer ++ [o] = (before ++ o' :: front) ++ [last] := by simpa using split
      obtain ⟨rfl, same⟩ := List.append_inj' split rfl
      obtain rfl := List.singleton_inj.mp same
      rw [List.concat_append]
      exact mem_opened.mpr (.inr (.inr (.inr (known before o' front rfl))))

theorem survey_tracks_nested : survey.Tracks survey ({} : Walk Unit) fun _ m _ _ => m.IsNested where
  zero _ _ _ mem := by simp at mem
  add first second := first.add second
  use _ id _ around site mem := by
    obtain rfl := mem_singleton.mp mem
    exact ⟨[], rfl, by simp⟩
  declare id _ around site mem := by
    obtain rfl : site = ⟨around, .declares id⟩ := by simpa [survey, declared] using mem
    exact ⟨[], rfl, by simp⟩
  function fn _ _ _ _ nested := by
    obtain ⟨kind, name, params, body, scope, span⟩ := fn
    exact nested.opened _ _ _ _
  handler clause _ _ _ _ nested := by
    obtain ⟨param, body, scope, span⟩ := clause
    exact nested.opened _ _ _ _
  withBody scope _ _ _ a _ nested := nested.opened _ _ _ _

/-- The innermost construct around a site is a site. -/
theorem Program.opening_mem_sites (p : Program) (mem : site ∈ p.sites) {rest : List Opening}
    (around : site.around = o :: rest) : ⟨rest, .opening o⟩ ∈ p.sites := by
  obtain ⟨inner, whole, known⟩ := survey_tracks_nested.program p () [] site mem
  rw [List.append_nil] at whole
  have mem := known [] o rest (by rw [← whole, around]; rfl)
  rwa [List.append_nil] at mem

end Minifier
