import Minifier.Scope.Bind
import Minifier.Simplify.Branch
import Minifier.Simplify.Cases
import Minifier.Simplify.Lists
import Minifier.Simplify.Returns

/-!
# Simplifying a program

One walk over a bound program, from the inside outwards, so that every rule sees its parts in their
final form. Rules for a single statement run after its parts, rules for a list after its statements,
and rules for the end of a function after its body. Some rules ask the scopes whether a variable is
still mentioned, and keep the counts up to date.
-/

set_option autoImplicit false

namespace Minifier

namespace ScopeTree

/-- A function declaration that nothing can call. -/
def isUnusedFunction (t : ScopeTree) (fn : Function) : Bool :=
  (fn.name.bind (·.field)).any fun field =>
    t.isPrivate (t.field field).scope && t.totalRefs field = 0

/-- Takes back the mentions in a statement that leaves the program, and marks its scopes. -/
def release (t : ScopeTree) (s : Statement) : ScopeTree :=
  let nodes := s.nodes
  let mentioned := (nodes.filterMap Node.use?).filterMap (·.field)
  let scopes := (nodes.filterMap Node.function?).filterMap (·.scope)
  scopes.foldl detach (mentioned.foldl removeRef t)

/-- Drops the functions in a list that nothing can call. Those after them in the list may lose
their last mention by it. -/
def dropFunctions (t : ScopeTree) : List Statement → Edited (List Statement) × ScopeTree
  | [] => (pure [], t)
  | s :: rest =>
    let isUnused := match s with
      | .function fn => t.isUnusedFunction fn
      | _ => false
    if isUnused then
      let (kept, t) := (t.release s).dropFunctions rest
      (.of kept.value, t)
    else
      let (kept, t) := t.dropFunctions rest
      (⟨s :: kept.value, kept.changed⟩, t)

/-- The value of a local variable that is returned at once, if it is the only mention: the value,
the mention, and the variable. -/
def returnedInitializer? (t : ScopeTree) : Statement → Statement → Option (Expr × FieldId × FieldId)
  | .var ⟨[⟨name, some init, _⟩], _⟩, .returnWith (some ⟨.ident id, _⟩) _ => do
    let mention ← id.field
    let variable_ := t.ultimate (← name.field)
    let record := t.field variable_
    if variable_ = t.ultimate mention && record.kind = .declared && t.isPrivate record.scope &&
        t.totalRefs variable_ = 1 then
      some (init, mention, variable_)
    else none
  | _, _ => none

/-- Returns the value of a variable in place of the variable at the end of a list. -/
def returnInitializer (t : ScopeTree) (statements : List Statement) :
    Edited (List Statement) × ScopeTree :=
  match statements.reverse with
  | last :: declaration :: before =>
    match t.returnedInitializer? declaration last with
    | some (init, mention, variable_) =>
      let span := declaration.span.combine last.span
      (.of (before.reverse ++ [.returnWith (some init) span]),
        (t.removeRef mention).modifyField variable_ fun f => { f with isDeclared := false })
    | none => (pure statements, t)
  | _ => (pure statements, t)

/-- Whether an expression is `void 0` or the predefined `undefined`. -/
def isUndefined (t : ScopeTree) (e : Expr) : Bool :=
  e.isVoidZero ||
    (e.ident?.filter (·.name = "undefined")).any fun id =>
      id.field.any fun field => (t.field (t.ultimate field)).kind = .predefined

/-- The parameters of a function without those at the end that nothing mentions. -/
def neededParams (t : ScopeTree) (params : List Ident) : List Ident :=
  (params.reverse.dropWhile fun id => id.field.any fun field => t.totalRefs field = 0).reverse

/-- Whether parameters of a function may go: nothing may see them but by their names. -/
def mayDropParams (t : ScopeTree) (fn : Function) : Bool :=
  fn.kind ≠ .setter && fn.scope.any fun scope =>
    t.isStatic scope && !((t.scope scope).lookup "arguments").any fun id => 0 < t.totalRefs id

end ScopeTree

namespace Simplify

/-- The walk under way: the scopes, what was reported, and whether anything changed. -/
structure State where
  tree : ScopeTree
  report : Report
  changed : Bool

abbrev Step := StateM State

/-- Takes the outcome of a rule. -/
def take {α : Type} (edited : Edited α) : Step α := do
  modify fun s => { s with changed := s.changed || edited.changed }
  return edited.value

def tell (reports : List Diagnostic) : Step Unit :=
  modify fun s => { s with report := s.report ++ reports }

/-- Takes the outcome of a rule that asks the scopes and changes them. -/
def takeWith {α : Type} (applies : Bool) (rule : ScopeTree → α → Edited α × ScopeTree) (a : α) :
    Step α := do
  if applies then
    let s ← get
    let (edited, tree) := rule s.tree a
    set { s with tree }
    take edited
  else return a

/-- Drops what is never reached, and reports it. -/
def dropDead (settings : Settings) (statements : List Statement) : Step (List Statement) := do
  if settings.removes .dropUnreachable then
    let (edited, place) := dropUnreachable statements
    tell (place.toList.map fun span => .of .unreachableCode span "Unreachable code")
    take edited
  else return statements

/-- The rules for a statement list. -/
def list (settings : Settings) (statements : List Statement) : Step (List Statement) := do
  let statements ← take (Edited.when (settings.applies .unnestBlocks) unnestBlocks statements)
  let statements ← take (dropEmpty statements)
  let statements ← dropDead settings statements
  let statements ← take (Edited.when (settings.applies .joinVars) joinVars statements)
  let statements ← take (Edited.when (settings.applies .joinComments) joinComments statements)
  let statements ← takeWith (settings.removes .dropFunctions) ScopeTree.dropFunctions statements
  let statements ←
    takeWith (settings.applies .returnInitializer) ScopeTree.returnInitializer statements
  take (foldReturns settings statements)

/-- Gets rid of negations in an expression. -/
def reduce (settings : Settings) (slot : Slot) (condition : Bool) (e : Expr) : Step Expr :=
  take (settings.reduce slot condition e)

def reduceOptional (settings : Settings) (condition : Bool) : Option Expr → Step (Option Expr)
  | none => return none
  | some e => return some (← reduce settings .top condition e)

def reduceDecl (settings : Settings) (d : VarDecl) : Step VarDecl := do
  match d.init with
  | none => return d
  | some init => return { d with init := some (← reduce settings .item false init) }

/-- Makes `return void 0` a plain `return`. -/
def plainReturn (settings : Settings) (value : Option Expr) : Step (Option Expr) := do
  let tree := (← get).tree
  if settings.applies .dropFinalReturn && value.any tree.isUndefined then take (.of none)
  else return value

/-- The rules for a single statement. -/
def statement (settings : Settings) : Statement → Step Statement
  | .ifElse test yes no span => take (Statement.simplifyIf settings (.ifElse test yes no span))
  | .whileLoop test body span => take (Statement.simplifyWhile settings (.whileLoop test body span))
  | .expr e => return .expr (← reduce settings .top true e)
  | .var ⟨decls, span⟩ => return .var ⟨← decls.mapM (reduceDecl settings), span⟩
  | .doWhile body test span => return .doWhile body (← reduce settings .top true test) span
  | .forLoop init test update body span => do
    let init ← match init with
      | .expr e => pure (.expr (← reduce settings .top true e))
      | other => pure other
    let test ← reduceOptional settings true test
    let update ← reduceOptional settings true update
    return .forLoop init test update body span
  | .forIn target object body span =>
    return .forIn target (← reduce settings .top false object) body span
  | .switch subject cases span => do
    let subject ← reduce settings .top false subject
    let (edited, reports) := simplifyCases settings cases
    tell reports
    return .switch subject (← take edited) span
  | .returnWith value span => do
    let value ← reduceOptional settings false value
    return .returnWith (← plainReturn settings value) span
  | .throw value span => return .throw (← reduce settings .top false value) span
  | .withObject object body scope span =>
    return .withObject (← reduce settings .top false object) body scope span
  | s => return s

/-- The rules for the end of a function and for its parameters. -/
def functionEnd (settings : Settings) (fn : Function) : Step Function := do
  let statements ← take (simplifyEnd settings fn.body.statements)
  let fn := { fn with body := { fn.body with statements } }
  let tree := (← get).tree
  if settings.removes .dropParameters && tree.mayDropParams fn then
    let params := tree.neededParams fn.params
    take ⟨{ fn with params }, params.length ≠ fn.params.length⟩
  else return fn

/-- All rules, each where it applies. -/
def rules (settings : Settings) : Walk State where
  leaveFunction := functionEnd settings
  statement := statement settings
  block := list settings
  switchCase := fun c => return { c with body := ← dropDead settings c.body }

end Simplify

/-- Simplifies a bound program, and says whether anything changed. -/
def BoundProgram.simplify (settings : Settings) (p : BoundProgram) : Edited BoundProgram :=
  if settings.minifyCode then
    let (program, s) := p.program.walk (Simplify.rules settings) ⟨p.tree, p.report, false⟩
    ⟨⟨program, s.tree, s.report⟩, s.changed⟩
  else pure p

end Minifier
