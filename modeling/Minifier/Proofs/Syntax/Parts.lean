import Minifier.Syntax.Hoisted

/-!
# Declarations in a statement

`Statement.within` lists a statement and all statements in it, each before its parts and the parts in
the order of their text. The body of a function is no part of the statement that declares it, so the
statements of nested functions are not among them.

What statements declare for the function around them can be read off that list: the names of `var`
statements and loop heads (`varsIn`), and the function declarations (`functionsIn`). The declarations
that are collected from a statement are these, in this order (`varDeclsOf_eq`, `functionDeclsOf_eq`).
-/

set_option autoImplicit false

namespace Minifier

open List

variable (statements : List Statement) (cases : List SwitchCase)

namespace Statement

variable {part : Statement}

/-! ## Parts -/

/-- The statements that stand directly in a statement, in the order of their text. -/
def parts : Statement → List Statement
  | block b => b.statements
  | ifElse _ yes no _ => yes :: no.toList
  | forLoop _ _ _ body _ | forIn _ _ body _ | whileLoop _ body _ | doWhile body _ _
  | labeled _ body _ | withObject _ body _ _ => [body]
  | switch _ cases _ => cases.flatMap (·.body)
  | tryCatch b handler finalizer _ =>
    b.statements ++ handler.toList.flatMap (·.body.statements) ++ finalizer.toList.flatMap (·.statements)
  | _ => []

private theorem sizeOf_inBlock : ∀ {b : Block}, part ∈ b.statements → sizeOf part < sizeOf b
  | ⟨statements, span⟩, mem => by
    have smaller : sizeOf part < sizeOf statements := sizeOf_lt_of_mem mem
    simp only [Block.mk.sizeOf_spec]
    omega

private theorem sizeOf_inCase : ∀ {c : SwitchCase}, part ∈ c.body → sizeOf part < sizeOf c
  | ⟨test, body, span⟩, mem => by
    have smaller : sizeOf part < sizeOf body := sizeOf_lt_of_mem mem
    simp only [SwitchCase.mk.sizeOf_spec]
    omega

theorem sizeOf_parts {s : Statement} (mem : part ∈ s.parts) : sizeOf part < sizeOf s := by
  cases s <;> simp only [parts, mem_cons, not_mem_nil, or_false, mem_flatMap,
    mem_append, Option.mem_toList] at mem
  case block b =>
    have smaller := sizeOf_inBlock mem
    simp only [block.sizeOf_spec]
    omega
  case ifElse test yes no span =>
    obtain rfl | rfl := mem <;> simp only [ifElse.sizeOf_spec, Option.some.sizeOf_spec] <;> omega
  case switch subject cases span =>
    obtain ⟨clause, isClause, mem⟩ := mem
    have smaller := sizeOf_inCase mem
    have isPart := sizeOf_lt_of_mem isClause
    simp only [switch.sizeOf_spec]
    omega
  case tryCatch b handler finalizer span =>
    simp only [tryCatch.sizeOf_spec]
    obtain (mem | ⟨⟨param, body, scope, clauseSpan⟩, rfl, mem⟩) | ⟨body, rfl, mem⟩ := mem
    · have smaller := sizeOf_inBlock mem
      omega
    · have smaller : sizeOf part < sizeOf body := sizeOf_inBlock mem
      simp only [Option.some.sizeOf_spec, CatchClause.mk.sizeOf_spec]
      omega
    · have smaller := sizeOf_inBlock mem
      simp only [Option.some.sizeOf_spec]
      omega
  all_goals
    subst mem
    simp only [forLoop.sizeOf_spec, forIn.sizeOf_spec, whileLoop.sizeOf_spec, doWhile.sizeOf_spec,
      labeled.sizeOf_spec, withObject.sizeOf_spec]
    omega

/-- A statement and all statements in it, outside nested functions. -/
def within (s : Statement) : List Statement :=
  s :: s.parts.attach.flatMap fun part => part.1.within
termination_by sizeOf s
decreasing_by exact sizeOf_parts part.2

theorem within_eq (s : Statement) : s.within = s :: s.parts.flatMap within := by
  rw [within, flatMap_subtype (g := within) (by simp)]
  simp

/-! ## Own declarations -/

/-- The names that a statement declares by `var`, but for its parts. -/
def ownVars : Statement → List VarDecl
  | var vars => vars.decls
  | forLoop (.var vars) _ _ _ _ => vars.decls
  | forIn (.var decl) _ _ _ => [decl]
  | _ => []

/-- The function that a statement declares. -/
def ownFunction : Statement → List Function
  | function fn => [fn]
  | _ => []

end Statement

open Statement

/-! ## Collecting -/

section Collect

variable {α : Type} (own : Statement → List α)

/-- What statements and all statements in them have of their own. -/
def collect (statements : List Statement) : List α := (statements.flatMap within).flatMap own

@[simp] theorem collect_nil : collect own [] = [] := rfl

@[simp] theorem collect_append (a b : List Statement) :
    collect own (a ++ b) = collect own a ++ collect own b := by
  simp [collect]

theorem collect_singleton (s : Statement) : collect own [s] = own s ++ collect own s.parts := by
  simp [collect, within_eq s]

theorem collect_cons (s : Statement) (rest : List Statement) :
    collect own (s :: rest) = own s ++ collect own s.parts ++ collect own rest := by
  rw [← collect_singleton, ← collect_append, singleton_append]

variable {own}

section Unique

variable {of : List Statement → List α} (nil : of [] = [])
  (cons : ∀ s rest, of (s :: rest) = own s ++ of s.parts ++ of rest)
include nil cons

private theorem collect_unique_of_parts {statements : List Statement}
    (parts : ∀ s ∈ statements, of s.parts = collect own s.parts) :
    of statements = collect own statements := by
  induction statements with
  | nil => exact nil
  | cons s rest ih =>
    rw [forall_mem_cons] at parts
    rw [cons, collect_cons, parts.1, ih parts.2]

private theorem collect_unique_parts (s : Statement) : of s.parts = collect own s.parts :=
  collect_unique_of_parts nil cons fun part _ => collect_unique_parts part
termination_by sizeOf s
decreasing_by exact sizeOf_parts ‹_›

/-- There is one way to collect: what a statement has of its own, then what its parts have. -/
theorem collect_unique (statements : List Statement) : of statements = collect own statements :=
  collect_unique_of_parts nil cons fun s _ => collect_unique_parts nil cons s

end Unique

end Collect

/-- The names that statements declare by `var`, outside nested functions. -/
def varsIn (statements : List Statement) : List VarDecl := collect ownVars statements

/-- The functions that statements declare, outside nested functions. -/
def functionsIn (statements : List Statement) : List Function := collect ownFunction statements

/-! ## The declarations that are collected -/

theorem varDeclsOf_append (a b : List Statement) :
    varDeclsOf (a ++ b) = varDeclsOf a ++ varDeclsOf b := by
  induction a with
  | nil => simp [varDeclsOf]
  | cons s rest ih => simp [varDeclsOf, ih]

theorem functionDeclsOf_append (a b : List Statement) :
    functionDeclsOf (a ++ b) = functionDeclsOf a ++ functionDeclsOf b := by
  induction a with
  | nil => simp [functionDeclsOf]
  | cons s rest ih => simp [functionDeclsOf, ih]

private theorem caseVarDecls_eq : caseVarDecls cases = varDeclsOf (cases.flatMap (·.body)) := by
  induction cases with
  | nil => simp [caseVarDecls, varDeclsOf]
  | cons c rest ih =>
    obtain ⟨test, body, span⟩ := c
    simp [caseVarDecls, varDeclsOf_append, ih]

private theorem caseFunctionDecls_eq :
    caseFunctionDecls cases = functionDeclsOf (cases.flatMap (·.body)) := by
  induction cases with
  | nil => simp [caseFunctionDecls, functionDeclsOf]
  | cons c rest ih =>
    obtain ⟨test, body, span⟩ := c
    simp [caseFunctionDecls, functionDeclsOf_append, ih]

private theorem handlerVarDecls_eq : ∀ handler : Option CatchClause,
    handlerVarDecls handler = varDeclsOf (handler.toList.flatMap (·.body.statements))
  | none => by simp [handlerVarDecls, varDeclsOf]
  | some ⟨_, ⟨statements, _⟩, _, _⟩ => by simp [handlerVarDecls]

private theorem handlerFunctionDecls_eq : ∀ handler : Option CatchClause,
    handlerFunctionDecls handler = functionDeclsOf (handler.toList.flatMap (·.body.statements))
  | none => by simp [handlerFunctionDecls, functionDeclsOf]
  | some ⟨_, ⟨statements, _⟩, _, _⟩ => by simp [handlerFunctionDecls]

private theorem finalizerVarDecls_eq : ∀ finalizer : Option Block,
    finalizerVarDecls finalizer = varDeclsOf (finalizer.toList.flatMap (·.statements))
  | none => by simp [finalizerVarDecls, varDeclsOf]
  | some ⟨statements, _⟩ => by simp [finalizerVarDecls]

private theorem finalizerFunctionDecls_eq : ∀ finalizer : Option Block,
    finalizerFunctionDecls finalizer = functionDeclsOf (finalizer.toList.flatMap (·.statements))
  | none => by simp [finalizerFunctionDecls, functionDeclsOf]
  | some ⟨statements, _⟩ => by simp [finalizerFunctionDecls]

/-- The names collected from a statement are its own and those collected from its parts. -/
theorem Statement.varDecls_eq : ∀ s : Statement, s.varDecls = s.ownVars ++ varDeclsOf s.parts
  | .switch .. => by simp [varDecls, ownVars, parts, caseVarDecls_eq]
  | .tryCatch ⟨_, _⟩ .. => by
    simp [varDecls, ownVars, parts, varDeclsOf_append, handlerVarDecls_eq, finalizerVarDecls_eq]
  | .block ⟨_, _⟩ | .var ⟨_, _⟩ | .function _ | .expr _ | .ifElse _ _ none _ | .ifElse _ _ (some _) _
  | .forLoop .nothing .. | .forLoop (.var ⟨_, _⟩) .. | .forLoop (.expr _) .. | .forIn (.var _) ..
  | .forIn (.expr _) .. | .whileLoop .. | .doWhile .. | .labeled .. | .breakTo .. | .continueTo ..
  | .returnWith .. | .throw .. | .withObject .. | .debugger _ | .empty _ | .comment .. => by
    simp [varDecls, ownVars, parts, varDeclsOf]

/-- The functions collected from a statement are its own and those collected from its parts. -/
theorem Statement.functionDecls_eq : ∀ s : Statement,
    s.functionDecls = s.ownFunction ++ functionDeclsOf s.parts
  | .switch .. => by simp [functionDecls, ownFunction, parts, caseFunctionDecls_eq]
  | .tryCatch ⟨_, _⟩ .. => by
    simp [functionDecls, ownFunction, parts, functionDeclsOf_append, handlerFunctionDecls_eq,
      finalizerFunctionDecls_eq]
  | .block ⟨_, _⟩ | .var _ | .function _ | .expr _ | .ifElse _ _ none _ | .ifElse _ _ (some _) _
  | .forLoop .. | .forIn .. | .whileLoop .. | .doWhile .. | .labeled .. | .breakTo .. | .continueTo ..
  | .returnWith .. | .throw .. | .withObject .. | .debugger _ | .empty _ | .comment .. => by
    simp [functionDecls, ownFunction, parts, functionDeclsOf]

theorem varDeclsOf_eq : varDeclsOf statements = varsIn statements :=
  collect_unique (by simp only [varDeclsOf]) (fun s rest => by rw [varDeclsOf, varDecls_eq]) statements

theorem functionDeclsOf_eq : functionDeclsOf statements = functionsIn statements :=
  collect_unique (by simp only [functionDeclsOf])
    (fun s rest => by rw [functionDeclsOf, functionDecls_eq]) statements

end Minifier
