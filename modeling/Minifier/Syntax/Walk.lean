import Minifier.Syntax.Tree

/-!
# Walks that change a tree

A `Walk` says what to do at the places of a tree where a change can be made or a scope opens and
closes; `Program.walk` visits them all, threading a state. Parts are visited in the order of their
text. Each pass over a program is such a walk, so what holds of every step holds of the pass.
-/

set_option autoImplicit false

namespace Minifier

/-- The steps of a walk with a state. A step that is not given changes nothing. -/
structure Walk (σ : Type) where
  /-- Comes to an expression, with the one around it. An answer takes its place, and its parts are
  not visited. -/
  expr? : Option Form → Expr → StateM σ (Option Expr) := fun _ _ => pure none
  /-- A name in use; the flag says that it is what a call calls. -/
  use : Bool → Ident → StateM σ Ident := fun _ id => pure id
  /-- The name of a `var` declaration, before its initializer. -/
  declare : Ident → StateM σ Ident := pure
  /-- Before the body of a function; a change to the body is not seen. -/
  enterFunction : Function → StateM σ Function := pure
  leaveFunction : Function → StateM σ Function := pure
  /-- Before the body of a `catch` clause; a change to the body is not seen. -/
  enterCatch : CatchClause → StateM σ CatchClause := pure
  leaveCatch : StateM σ Unit := pure ()
  /-- Between the object and the body of a `with` statement, given its scope and span. -/
  enterWith : Option ScopeId → Span → StateM σ (Option ScopeId) := fun scope _ => pure scope
  leaveWith : StateM σ Unit := pure ()
  /-- Statements whose parts are not visited. -/
  skips : Statement → Bool := fun _ => false
  /-- After the parts of a statement. -/
  statement : Statement → StateM σ Statement := pure
  /-- After the statements of a block. -/
  block : List Statement → StateM σ (List Statement) := pure
  /-- After the parts of a clause of a `switch`. -/
  switchCase : SwitchCase → StateM σ SwitchCase := pure

variable {σ : Type}

mutual

def Expr.walk (w : Walk σ) (around : Option Form) : Expr → StateM σ Expr
  | ⟨form, span⟩ => do
    match ← w.expr? around ⟨form, span⟩ with
    | some e => return e
    | none => return ⟨← form.walk w, span⟩

def Form.walk (w : Walk σ) : Form → StateM σ Form
  | .ident id => return .ident (← w.use false id)
  | .array items => return .array (← walkItems w (.array items) items)
  | .object properties => return .object (← walkProperties w (.object properties) properties)
  | .function fn => return .function (← fn.walk w)
  | .member object name => return .member (← object.walk w (some (.member object name))) name
  | .index object key => do
    let around := some (.index object key)
    let object' ← object.walk w around
    return .index object' (← key.walk w around)
  | .call ⟨.ident id, span⟩ args => do
    let id' ← w.use true id
    return .call ⟨.ident id', span⟩ (← walkArgs w (.call ⟨.ident id, span⟩ args) args)
  | .call callee args => do
    let callee' ← callee.walk w (some (.call callee args))
    return .call callee' (← walkArgs w (.call callee args) args)
  | .new callee none => return .new (← callee.walk w (some (.new callee none))) none
  | .new callee (some args) => do
    let callee' ← callee.walk w (some (.new callee (some args)))
    return .new callee' (some (← walkArgs w (.new callee (some args)) args))
  | .unary op operand => return .unary op (← operand.walk w (some (.unary op operand)))
  | .update op before operand =>
    return .update op before (← operand.walk w (some (.update op before operand)))
  | .binary op left right => do
    let around := some (.binary op left right)
    let left' ← left.walk w around
    return .binary op left' (← right.walk w around)
  | .conditional test yes no => do
    let around := some (.conditional test yes no)
    let test' ← test.walk w around
    let yes' ← yes.walk w around
    return .conditional test' yes' (← no.walk w around)
  | form => return form

def walkItems (w : Walk σ) (around : Form) : List (Option Expr) → StateM σ (List (Option Expr))
  | [] => return []
  | none :: rest => return none :: (← walkItems w around rest)
  | some e :: rest => do
    let e' ← e.walk w (some around)
    return some e' :: (← walkItems w around rest)

def walkArgs (w : Walk σ) (around : Form) : List Expr → StateM σ (List Expr)
  | [] => return []
  | e :: rest => do
    let e' ← e.walk w (some around)
    return e' :: (← walkArgs w around rest)

def walkProperties (w : Walk σ) (around : Form) : List Property → StateM σ (List Property)
  | [] => return []
  | ⟨key, kind, value, span⟩ :: rest => do
    let value' ← value.walk w (some around)
    return ⟨key, kind, value', span⟩ :: (← walkProperties w around rest)

def Function.walk (w : Walk σ) : Function → StateM σ Function
  | ⟨kind, name, params, body, scope, span⟩ => do
    let fn ← w.enterFunction ⟨kind, name, params, body, scope, span⟩
    let body' ← body.walk w
    w.leaveFunction { fn with body := body' }

def Block.walk (w : Walk σ) : Block → StateM σ Block
  | ⟨statements, span⟩ => do
    let statements' ← walkStatements w statements
    return ⟨← w.block statements', span⟩

def walkStatements (w : Walk σ) : List Statement → StateM σ (List Statement)
  | [] => return []
  | s :: rest => do
    let s' ← s.walk w
    return s' :: (← walkStatements w rest)

def VarDecl.walk (w : Walk σ) : VarDecl → StateM σ VarDecl
  | ⟨name, none, span⟩ => return ⟨← w.declare name, none, span⟩
  | ⟨name, some init, span⟩ => do
    let name' ← w.declare name
    return ⟨name', some (← init.walk w none), span⟩

def walkDecls (w : Walk σ) : List VarDecl → StateM σ (List VarDecl)
  | [] => return []
  | d :: rest => do
    let d' ← d.walk w
    return d' :: (← walkDecls w rest)

def ForInit.walk (w : Walk σ) : ForInit → StateM σ ForInit
  | .nothing => return .nothing
  | .var ⟨decls, span⟩ => return .var ⟨← walkDecls w decls, span⟩
  | .expr e => return .expr (← e.walk w none)

def ForTarget.walk (w : Walk σ) : ForTarget → StateM σ ForTarget
  | .var decl => return .var (← decl.walk w)
  | .expr e => return .expr (← e.walk w none)

def walkOptional (w : Walk σ) : Option Expr → StateM σ (Option Expr)
  | none => return none
  | some e => return some (← e.walk w none)

def walkCases (w : Walk σ) : List SwitchCase → StateM σ (List SwitchCase)
  | [] => return []
  | ⟨test, body, span⟩ :: rest => do
    let test' ← walkOptional w test
    let body' ← walkStatements w body
    let case' ← w.switchCase ⟨test', body', span⟩
    return case' :: (← walkCases w rest)

def walkHandler (w : Walk σ) : Option CatchClause → StateM σ (Option CatchClause)
  | none => return none
  | some ⟨param, body, scope, span⟩ => do
    let clause ← w.enterCatch ⟨param, body, scope, span⟩
    let body' ← body.walk w
    w.leaveCatch
    return some { clause with body := body' }

def Statement.walk (w : Walk σ) (s : Statement) : StateM σ Statement := do
  if w.skips s then w.statement s else
  let s' ← match s with
    | .block b => pure (.block (← b.walk w))
    | .var ⟨decls, span⟩ => pure (.var ⟨← walkDecls w decls, span⟩)
    | .function fn => pure (.function (← fn.walk w))
    | .expr e => pure (.expr (← e.walk w none))
    | .ifElse test yes none span => do
      let test' ← test.walk w none
      pure (.ifElse test' (← yes.walk w) none span)
    | .ifElse test yes (some no) span => do
      let test' ← test.walk w none
      let yes' ← yes.walk w
      pure (.ifElse test' yes' (some (← no.walk w)) span)
    | .forLoop init test update body span => do
      let init' ← init.walk w
      let test' ← walkOptional w test
      let update' ← walkOptional w update
      pure (.forLoop init' test' update' (← body.walk w) span)
    | .forIn target object body span => do
      let target' ← target.walk w
      let object' ← object.walk w none
      pure (.forIn target' object' (← body.walk w) span)
    | .whileLoop test body span => do
      let test' ← test.walk w none
      pure (.whileLoop test' (← body.walk w) span)
    | .doWhile body test span => do
      let body' ← body.walk w
      pure (.doWhile body' (← test.walk w none) span)
    | .switch subject cases span => do
      let subject' ← subject.walk w none
      pure (.switch subject' (← walkCases w cases) span)
    | .tryCatch block handler none span => do
      let block' ← block.walk w
      pure (.tryCatch block' (← walkHandler w handler) none span)
    | .tryCatch block handler (some finalizer) span => do
      let block' ← block.walk w
      let handler' ← walkHandler w handler
      pure (.tryCatch block' handler' (some (← finalizer.walk w)) span)
    | .labeled label body span => pure (.labeled label (← body.walk w) span)
    | .returnWith value span => pure (.returnWith (← walkOptional w value) span)
    | .throw value span => pure (.throw (← value.walk w none) span)
    | .withObject object body scope span => do
      let object' ← object.walk w none
      let scope' ← w.enterWith scope span
      let body' ← body.walk w
      w.leaveWith
      pure (.withObject object' body' scope' span)
    | s => pure s
  w.statement s'

end

def Program.walk (w : Walk σ) (p : Program) : StateM σ Program :=
  return { p with body := ← p.body.walk w }

/-- The program with every name changed alike, declared or in use. -/
def Program.mapNames (f : String → String) (p : Program) : Program :=
  let change (id : Ident) : Ident := { id with name := f id.name }
  let steps : Walk Unit :=
    { use := fun _ id => pure (change id)
      declare := fun id => pure (change id)
      enterFunction := fun fn =>
        pure { fn with name := fn.name.map change, params := fn.params.map change }
      enterCatch := fun clause => pure { clause with param := change clause.param } }
  (p.walk steps ()).1

end Minifier
