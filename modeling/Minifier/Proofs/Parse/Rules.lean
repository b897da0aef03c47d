import Minifier.Proofs.Parse.Yields

/-!
# The rules of the grammar

The rules call each other without a bound of their own; it is the tokens that bound them. Every rule
has a rank: a rule that is called before a token has been read has a lower rank than its caller, and
every rank is below the fuel that one token is worth. So fuel in proportion to the tokens that are
left is enough, and more makes no difference.

What each rule does is said by `Parser.Rules`, and holds by induction on the fuel (`Parser.rules`).
-/

set_option autoImplicit false

namespace Minifier

namespace Parser

variable {α : Type} {law : NameLaw}

attribute [local simp] Node.isRead_iff Expr.nodes Form.nodes itemNodes argNodes propertyNodes Function.nodes
  Block.nodes statementNodes declNodes ForInit.nodes ForTarget.nodes optionalNodes caseNodes handlerNodes
  Statement.nodes

/-- A node that a parser makes is as it should be. -/
@[simp] theorem fits_of_isRead {n : Node} (isRead : n.IsRead law.plain) : law.fits n := law.read n isRead

/-- The nodes of a declaration. -/
@[simp] theorem VarDecl.nodes_mk (name : Ident) (init : Option Expr) (span : Span) :
    VarDecl.nodes ⟨name, init, span⟩ =
      .varDecl ⟨name, init, span⟩ :: .ident name :: optionalNodes init := by
  cases init <;> rfl

/-! ## Lists of nodes

A rule collects a list back to front. -/

/-- The order of items makes no difference. -/
@[simp] theorem fit_flatMap_reverse {items : List α} {nodes : α → List Node} :
    law.Fit (items.reverse.flatMap nodes) ↔ law.Fit (items.flatMap nodes) := by
  simp [NameLaw.Fit]

/-- The nodes of arguments, one by one. -/
theorem argNodes_eq_flatMap (args : List Expr) : argNodes args = args.flatMap Expr.nodes := by
  induction args with
  | nil => rfl
  | cons e args ih => simp [ih]

/-- Those of the items of an array. -/
theorem itemNodes_eq_flatMap (items : List (Option Expr)) :
    itemNodes items = items.flatMap optionalNodes := by
  induction items with
  | nil => rfl
  | cons e items ih => cases e <;> simp [ih]

/-- Those of properties. -/
theorem propertyNodes_eq_flatMap (properties : List Property) :
    propertyNodes properties = properties.flatMap fun p => .property p :: p.value.nodes := by
  induction properties with
  | nil => rfl
  | cons p properties ih =>
    obtain ⟨key, kind, value, span⟩ := p
    simp [ih]

/-- Those of statements. -/
theorem statementNodes_eq_flatMap (statements : List Statement) :
    statementNodes statements = statements.flatMap Statement.nodes := by
  induction statements with
  | nil => rfl
  | cons s statements ih => simp [statementNodes, ih, -Statement.nodes]

/-- Those of declarations. -/
theorem declNodes_eq_flatMap (decls : List VarDecl) :
    declNodes decls = decls.flatMap VarDecl.nodes := by
  induction decls with
  | nil => rfl
  | cons d decls ih => simp [ih]

/-- Those of clauses. -/
theorem caseNodes_eq_flatMap (clauses : List SwitchCase) :
    caseNodes clauses = clauses.flatMap fun c =>
      .switchCase c :: optionalNodes c.test ++ statementNodes c.body := by
  induction clauses with
  | nil => rfl
  | cons c clauses ih =>
    obtain ⟨test, body, span⟩ := c
    simp [ih]

/-- A name that is an expression of its own is in use. -/
theorem fit_atom {span : Span} {l : Lexeme} {form : Form} (plain : law.Plain l)
    (isAtom : atom? span l = some form) (span' : Span) : law.Fit (Expr.nodes ⟨form, span'⟩) := by
  unfold atom? at isAtom
  split at isAtom <;> cases isAtom
  case h_8 name => simp [plain name rfl]
  all_goals simp

/-! ## The rules

`Rules law fuel` says of each rule its rank, how many tokens it reads at least, and what it answers.
Each lemma below is about one rule with one unit of fuel more. -/

/-- An expression whose nodes are as they should be. -/
@[simp] def NameLaw.FitExpr (law : NameLaw) (e : Expr) : Prop := law.Fit e.nodes

/-- A statement whose nodes are as they should be. -/
@[simp] def NameLaw.FitStatement (law : NameLaw) (s : Statement) : Prop := law.Fit s.nodes

/-- Declarations of which there is one, and whose nodes are as they should be. -/
@[simp] def NameLaw.FitDecls (law : NameLaw) (decls : List VarDecl) : Prop :=
  decls ≠ [] ∧ law.Fit (declNodes decls)

/-- What the rules of the grammar do with some fuel. Rules that begin with a token that their caller
has seen count on it. -/
structure Rules (law : NameLaw) (fuel : Nat) : Prop where
  expression : ∀ noIn s, law.Ends fuel 9 1 (expression noIn) law.FitExpr s
  commaOperands : ∀ noIn left s, law.FitExpr left →
    law.Ends fuel 1 0 (commaOperands noIn left) law.FitExpr s
  assignment : ∀ noIn s, law.Ends fuel 8 1 (assignment noIn) law.FitExpr s
  conditional : ∀ noIn s, law.Ends fuel 7 1 (conditional noIn) law.FitExpr s
  binary : ∀ min noIn s, law.Ends fuel 6 1 (binary min noIn) law.FitExpr s
  binaryOperands : ∀ min noIn left s, law.FitExpr left →
    law.Ends fuel 1 0 (binaryOperands min noIn left) law.FitExpr s
  unary : ∀ s, law.Ends fuel 5 1 unary law.FitExpr s
  postfixed : ∀ s, law.Ends fuel 4 1 postfixed law.FitExpr s
  leftHandSide : ∀ s, law.Ends fuel 3 1 leftHandSide law.FitExpr s
  suffixes : ∀ start e s, law.FitExpr e → law.Ends fuel 2 0 (suffixes start e) law.FitExpr s
  construction : ∀ s, law.EndsFrom fuel 1 1 construction law.FitExpr s
  accesses : ∀ start e s, law.FitExpr e → law.Ends fuel 2 0 (accesses start e) law.FitExpr s
  access : ∀ start e s, law.FitExpr e → law.EndsFrom fuel 1 1 (access start e) law.FitExpr s
  arguments : ∀ s, law.EndsFrom fuel 1 1 arguments (fun args => law.Fit (argNodes args)) s
  argumentList : ∀ args s, law.Fit (argNodes args) →
    law.Ends fuel 9 1 (argumentList args) (fun args => law.Fit (argNodes args)) s
  primary : ∀ s, law.Ends fuel 2 1 primary law.FitExpr s
  arrayItems : ∀ items s, law.Fit (itemNodes items) →
    law.Ends fuel 9 0 (arrayItems items) (fun items => law.Fit (itemNodes items)) s
  objectProperties : ∀ properties s, law.Fit (propertyNodes properties) →
    law.Ends fuel 2 0 (objectProperties properties)
      (fun properties => law.Fit (propertyNodes properties)) s
  property : ∀ s, law.Ends fuel 1 1 property (fun p => law.Fit (propertyNodes [p])) s
  function : ∀ kind s, law.EndsFrom fuel 1 1 (function kind) (fun fn => law.Fit fn.nodes) s
  functionRest : ∀ kind (name : Option Ident) start s, (∀ id ∈ name, law.fits (.ident id)) →
    law.Ends fuel 1 1 (functionRest kind name start) (fun fn => law.Fit fn.nodes) s
  block : ∀ s, law.Ends fuel 1 1 block (fun b => law.Fit b.nodes) s
  statementList : ∀ ends statements s, law.Fit (statementNodes statements) →
    law.Ends fuel 12 0 (statementList ends statements)
      (fun statements => law.Fit (statementNodes statements)) s
  statement : ∀ s, law.Ends fuel 11 1 statement law.FitStatement s
  expressionStatement : ∀ s, law.Ends fuel 10 1 expressionStatement law.FitStatement s
  labeled : ∀ s, law.Ends fuel 1 1 labeled law.FitStatement s
  varStatement : ∀ noIn s,
    law.EndsFrom fuel 1 1 (varStatement noIn) (fun vars => law.FitStatement (.var vars)) s
  declarations : ∀ noIn decls s, law.Fit (declNodes decls) →
    law.Ends fuel 1 1 (declarations noIn decls) law.FitDecls s
  parenthesized : ∀ s, law.Ends fuel 1 1 parenthesized law.FitExpr s
  ifElse : ∀ s, law.EndsFrom fuel 1 1 ifElse law.FitStatement s
  doWhile : ∀ s, law.EndsFrom fuel 1 1 doWhile law.FitStatement s
  forLoop : ∀ s, law.EndsFrom fuel 1 1 forLoop law.FitStatement s
  forClauses : ∀ start init s, law.Fit init.nodes →
    law.Ends fuel 1 1 (forClauses start init) law.FitStatement s
  forIn : ∀ start target s, law.Fit target.nodes →
    law.Ends fuel 10 1 (forIn start target) law.FitStatement s
  switch : ∀ s, law.EndsFrom fuel 1 1 switch law.FitStatement s
  switchCases : ∀ seenDefault cases s, law.Fit (caseNodes cases) →
    law.Ends fuel 1 0 (switchCases seenDefault cases) (fun cases => law.Fit (caseNodes cases)) s
  switchBody : ∀ start test leading s, law.Fit (optionalNodes test) →
    law.Fit (statementNodes leading) →
    law.Ends fuel 1 1 (switchBody start test leading) (fun c => law.Fit (caseNodes [c])) s
  tryCatch : ∀ s, law.EndsFrom fuel 1 1 tryCatch law.FitStatement s
  catchClause : ∀ s, law.EndsFrom fuel 1 1 catchClause (fun c => law.Fit (handlerNodes (some c))) s

namespace Rules

variable {fuel : Nat} (h : Rules law fuel) (kind : FunctionKind) (name : Option Ident)
  (start : Span) (e : Expr) (args : List Expr) (items : List (Option Expr)) (properties : List Property)
  (min : Precedence) (noIn : Bool) (left : Expr) (decls : List VarDecl) (init : ForInit)
  (target : ForTarget) (ends : Lexeme → Bool) (statements : List Statement) (seenDefault : Bool)
  (clauses : List SwitchCase) (test : Option Expr) (leading : List Statement) (s : TokenStream)
include h

/-- An expression, with commas. -/
theorem expression_succ : law.Ends (fuel + 1) 9 1 (Parser.expression noIn) law.FitExpr s :=
  .succ ((h.assignment noIn s).bind (by omega) fun first s isFirst =>
    (h.commaOperands noIn first s isFirst).le (by omega))

/-- What comes after a comma. -/
theorem commaOperands_succ (isLeft : law.FitExpr left) :
    law.Ends (fuel + 1) 1 0 (Parser.commaOperands noIn left) law.FitExpr s := by
  refine .succ (.accept (fun s => ?_) (.pure isLeft))
  refine (h.assignment noIn s).bind (by omega) fun right s isRight => ?_
  exact (h.commaOperands noIn _ s (by simp_all [Expr.binary])).le (by omega)

/-- An assignment, or what can stand for one. -/
theorem assignment_succ : law.Ends (fuel + 1) 8 1 (Parser.assignment noIn) law.FitExpr s := by
  refine .succ ((h.conditional noIn s).bind (by omega) fun target s isTarget => .peek rfl ?_)
  split
  · exact .pure isTarget
  split
  · refine .next (Lexeme.ne_endOfInput rfl ‹_›) fun _ s => ?_
    refine (h.assignment noIn s).bind (by omega) fun value s isValue => ?_
    exact .pure (by simp_all [Expr.binary])
  · exact yields_fail_bind (by decide)

/-- A conditional. -/
theorem conditional_succ : law.Ends (fuel + 1) 7 1 (Parser.conditional noIn) law.FitExpr s := by
  refine .succ ((h.binary _ noIn s).bind (by omega) fun test s isTest => ?_)
  refine .accept (fun s => ?_) (.pure isTest)
  refine (h.assignment false s).bind (by omega) fun yes s isYes => ?_
  refine (yields_expect (by decide)).step fun _ s _ => ?_
  refine (h.assignment noIn s).bind (by omega) fun no s isNo => ?_
  exact .pure (by simp_all [Expr.conditional])

/-- Operators from a precedence on. -/
theorem binary_succ : law.Ends (fuel + 1) 6 1 (Parser.binary min noIn) law.FitExpr s :=
  .succ ((h.unary s).bind (by omega) fun left s isLeft =>
    (h.binaryOperands min noIn left s isLeft).le (by omega))

/-- What comes after an operand. -/
theorem binaryOperands_succ (isLeft : law.FitExpr left) :
    law.Ends (fuel + 1) 1 0 (Parser.binaryOperands min noIn left) law.FitExpr s := by
  refine .succ (.peek rfl ?_)
  split
  · exact .pure isLeft
  split
  · exact .pure isLeft
  split
  · refine .next (Lexeme.ne_endOfInput rfl ‹_›) fun _ s => ?_
    refine (h.binary _ noIn s).bind (by omega) fun right s isRight => ?_
    exact (h.binaryOperands min noIn _ s (by simp_all [Expr.binary])).le (by omega)
  · exact .pure isLeft

/-- An operator in front. -/
theorem unary_succ : law.Ends (fuel + 1) 5 1 Parser.unary law.FitExpr s := by
  refine .succ (.peek rfl (.peek rfl ?_))
  split
  · refine .next (Lexeme.ne_endOfInput rfl ‹_›) fun _ s => ?_
    refine (h.unary s).bind (by omega) fun operand s isOperand => ?_
    exact .peek rfl (.pure (by simp_all))
  · rename_i isUpdate
    refine .next (Lexeme.ne_endOfInput rfl isUpdate) fun _ s => ?_
    refine (h.unary s).bind (by omega) fun operand s isOperand => ?_
    exact .peek rfl (.pure (by simp_all))
  · exact h.postfixed s

/-- An operator behind. -/
theorem postfixed_succ : law.Ends (fuel + 1) 4 1 Parser.postfixed law.FitExpr s := by
  refine .succ (.peek rfl ((h.leftHandSide s).bind (by omega) fun operand s isOperand => ?_))
  refine .peek rfl ?_
  split
  · refine .next (Lexeme.ne_endOfInput rfl ‹_›) fun _ s => ?_
    exact .peek rfl (.pure (by simp_all))
  · exact .pure isOperand

/-- What can be assigned to. -/
theorem leftHandSide_succ : law.Ends (fuel + 1) 3 1 Parser.leftHandSide law.FitExpr s := by
  refine .succ (.peek rfl (.peek rfl ?_))
  split
  · refine ((h.construction s).given (by simp_all)).bind (by omega) fun first s isFirst => ?_
    exact (h.suffixes _ first s isFirst).le (by omega)
  · refine (h.primary s).bind (by omega) fun first s isFirst => ?_
    exact (h.suffixes _ first s isFirst).le (by omega)

/-- Calls and accesses after an expression. -/
theorem suffixes_succ (isCallee : law.FitExpr e) :
    law.Ends (fuel + 1) 2 0 (Parser.suffixes start e) law.FitExpr s := by
  refine .succ (.peek rfl ?_)
  split
  · refine ((h.arguments s).given (by simp_all)).bind (by omega) fun args s isArgs => .peek rfl ?_
    refine (h.suffixes start _ s ?_).le (by omega)
    -- a callee that is a name is in use as well
    by_cases isName : ∃ id span, e = ⟨.ident id, span⟩
    · obtain ⟨id, span, rfl⟩ := isName
      simp_all
    · simp_all
  · refine ((h.access start e s isCallee).given (by simp_all)).bind (by omega) fun e s isExpr => ?_
    exact (h.suffixes start e s isExpr).le (by omega)
  · refine ((h.access start e s isCallee).given (by simp_all)).bind (by omega) fun e s isExpr => ?_
    exact (h.suffixes start e s isExpr).le (by omega)
  · exact .pure isCallee

/-- What comes after `new`. -/
theorem construction_succ : law.EndsFrom (fuel + 1) 1 1 Parser.construction law.FitExpr s := by
  refine .succ (yields_advance.step fun start s _ => .peek rfl ?_)
  refine .either (fun _ => ((h.construction s).given (by simp_all)).le (by omega))
    (fun _ => (h.primary s).le (by omega)) fun first s isFirst => ?_
  refine (h.accesses start first s isFirst).bind (by omega) fun callee s isCallee => .peek rfl ?_
  split
  · refine ((h.arguments s).given (by simp_all)).bind (by omega) fun args s isArgs => ?_
    exact .peek rfl (.pure (by simp_all))
  · exact .peek rfl (.pure (by simp_all))

/-- Accesses, without calls. -/
theorem accesses_succ (isObject : law.FitExpr e) :
    law.Ends (fuel + 1) 2 0 (Parser.accesses start e) law.FitExpr s := by
  refine .succ (.peek rfl ?_)
  split
  · refine ((h.access start e s isObject).given (by simp_all)).bind (by omega) fun e s isExpr => ?_
    exact (h.accesses start e s isExpr).le (by omega)
  · refine ((h.access start e s isObject).given (by simp_all)).bind (by omega) fun e s isExpr => ?_
    exact (h.accesses start e s isExpr).le (by omega)
  · exact .pure isObject

/-- One access, by name or by key. -/
theorem access_succ (isObject : law.FitExpr e) :
    law.EndsFrom (fuel + 1) 1 1 (Parser.access start e) law.FitExpr s := by
  refine .succ (.accept (fun s => .peek rfl ?_) ?_)
  · split
    · exact yields_fail (by decide)
    · refine .next (Lexeme.ne_endOfInput rfl ‹_›) fun _ s => ?_
      exact .peek rfl (.pure (by simp_all))
  · refine yields_advance.step fun _ s _ => ?_
    refine (h.expression false s).bind (by omega) fun key s isKey => ?_
    exact (yields_expect (by decide)).step fun _ s _ => .peek rfl (.pure (by simp_all))

/-- Arguments in parentheses. -/
theorem arguments_succ :
    law.EndsFrom (fuel + 1) 1 1 Parser.arguments (fun args => law.Fit (argNodes args)) s := by
  refine .succ (yields_advance.step fun _ s _ => .peek rfl ?_)
  exact .either (fun _ => .pure (by simp)) (fun _ => (h.argumentList [] s (by simp)).le (by omega))
    fun args s isArgs => (yields_expect (by decide)).step fun _ s _ => .pure isArgs

/-- The arguments themselves. -/
theorem argumentList_succ (isArgs : law.Fit (argNodes args)) :
    law.Ends (fuel + 1) 9 1 (Parser.argumentList args) (fun args => law.Fit (argNodes args)) s := by
  refine .succ ((h.assignment false s).bind (by omega) fun arg s isArg => ?_)
  refine .accept (fun s => ?_) (.pure (by simp_all [argNodes_eq_flatMap]))
  exact (h.argumentList _ s (by simp_all)).le (by omega)

/-- An expression without operators. -/
theorem primary_succ : law.Ends (fuel + 1) 2 1 Parser.primary law.FitExpr s := by
  refine .succ (.plain fun plain => .peek rfl (.peek rfl ?_))
  split
  · rename_i form isAtom
    refine .next (Lexeme.ne_endOfInput rfl isAtom) fun _ s => .pure ?_
    exact fit_atom plain.current isAtom _
  split
  · refine .next (by simp_all) fun _ s => ?_
    refine (h.expression false s).bind (by omega) fun inner s isInner => ?_
    obtain ⟨form, _⟩ := inner
    refine (yields_expect (by decide)).step fun _ s _ => .peek rfl (.pure (fit_cons.mpr ?_))
    exact (fit_cons.mp isInner).imp_left (law.widened form _ _)
  · refine .next (by simp_all) fun _ s => ?_
    refine (h.arrayItems [] s (by simp)).bind (by omega) fun items s isItems => ?_
    exact (yields_expect (by decide)).step fun _ s _ => .peek rfl (.pure (by simp_all))
  · refine .next (by simp_all) fun _ s => ?_
    refine (h.objectProperties [] s (by simp)).bind (by omega) fun properties s areProperties => ?_
    exact (yields_expect (by decide)).step fun _ s _ => .peek rfl (.pure (by simp_all))
  · refine ((h.function _ s).given (by simp_all)).bind (by omega) fun fn s isFn => ?_
    exact .pure (by simp_all)
  · exact yields_fail (by decide)

/-- The items of an array, with holes. -/
theorem arrayItems_succ (areItems : law.Fit (itemNodes items)) :
    law.Ends (fuel + 1) 9 0 (Parser.arrayItems items)
      (fun items => law.Fit (itemNodes items)) s := by
  refine .succ (.peek rfl ?_)
  split
  · exact .pure (by simp_all [itemNodes_eq_flatMap])
  refine .accept (fun s => (h.arrayItems (none :: items) s (by simp_all)).le (by omega)) ?_
  refine (h.assignment false s).bind (by omega) fun item s isItem => ?_
  refine .accept (fun s => ?_) (.pure (by simp_all [itemNodes_eq_flatMap]))
  exact (h.arrayItems (some item :: items) s (by simp_all)).le (by omega)

/-- The properties of an object. -/
theorem objectProperties_succ (areProperties : law.Fit (propertyNodes properties)) :
    law.Ends (fuel + 1) 2 0 (Parser.objectProperties properties)
      (fun properties => law.Fit (propertyNodes properties)) s := by
  refine .succ (.peek rfl ?_)
  split
  · exact .pure (by simp_all [propertyNodes_eq_flatMap])
  refine (h.property s).bind (by omega) fun property s isProperty => ?_
  obtain ⟨key, kind, value, span⟩ := property
  refine .accept (fun s => ?_) (.pure (by simp_all [propertyNodes_eq_flatMap]))
  exact (h.objectProperties (_ :: properties) s (by simp_all)).le (by omega)

/-- One property, or an accessor. -/
theorem property_succ :
    law.Ends (fuel + 1) 1 1 Parser.property (fun p => law.Fit (propertyNodes [p])) s := by
  refine .succ (.peek rfl (.peek rfl (.peek rfl ?_)))
  split
  · refine .next (Lexeme.ne_endOfInput rfl ‹_›) fun _ s => ?_
    refine yields_propertyKey.step fun key s _ => ?_
    refine (h.functionRest _ none _ s (by simp)).bind (by omega) fun fn s isFn => ?_
    exact .peek rfl (.pure (by simp_all))
  · refine yields_propertyKey.step fun key s _ => ?_
    refine (yields_expect (by decide)).step fun _ s _ => ?_
    refine (h.assignment false s).bind (by omega) fun value s isValue => ?_
    exact .peek rfl (.pure (by simp_all))

/-- A function from its keyword on. -/
theorem function_succ :
    law.EndsFrom (fuel + 1) 1 1 (Parser.function kind) (fun fn => law.Fit fn.nodes) s := by
  refine .succ (yields_advance.step fun start s _ => .peek rfl ?_)
  split
  · refine yields_identifier.step fun name s isName => ?_
    exact (h.functionRest kind (some name) start s (by simpa using isName)).le (by omega)
  split
  · exact yields_fail (by decide)
  · exact (h.functionRest kind none start s (by simp)).le (by omega)

/-- The parameters and the body. -/
theorem functionRest_succ (isName : ∀ id ∈ name, law.fits (.ident id)) :
    law.Ends (fuel + 1) 1 1 (Parser.functionRest kind name start)
      (fun fn => law.Fit fn.nodes) s := by
  refine .succ ((yields_expect (by decide)).step fun _ s _ => .peek rfl ?_)
  refine .either (fun _ => .pure (by simp))
    (fun _ => (ends_parameterNames fuel [] (by simp) s).le (by omega)) fun params s areParams => ?_
  have areParams : law.Fit (params.map .ident) := by simpa [NameLaw.Fit] using areParams
  refine (yields_expect (by decide)).step fun _ s _ => ?_
  refine (h.block s).bind (by omega) fun body s isBody => .peek rfl (.pure ?_)
  cases name <;> simp_all

/-- A block in braces. -/
theorem block_succ : law.Ends (fuel + 1) 1 1 Parser.block (fun b => law.Fit b.nodes) s := by
  refine .succ ((yields_expect (by decide)).step fun start s _ => ?_)
  refine (h.statementList _ [] s (by simp)).bind (by omega) fun statements s areStatements => ?_
  exact (yields_expect (by decide)).step fun _ s _ => .peek rfl (.pure (by simp_all))

/-- Statements up to an end. -/
theorem statementList_succ (areStatements : law.Fit (statementNodes statements)) :
    law.Ends (fuel + 1) 12 0 (Parser.statementList ends statements)
      (fun statements => law.Fit (statementNodes statements)) s := by
  refine .succ (.comments fun comments areComments => .peek rfl ?_)
  have all : law.Fit (statementNodes (comments.reverse ++ statements)) := by
    have : law.Fit (statementNodes comments) := areComments
    simp_all [statementNodes_eq_flatMap]
  split
  · exact .pure (by simp_all [statementNodes_eq_flatMap])
  · refine (h.statement _).bind (by omega) fun next s isNext => ?_
    exact (h.statementList ends _ s (by simp_all)).le (by omega)

/-- An expression and its semicolon. -/
theorem expressionStatement_succ :
    law.Ends (fuel + 1) 10 1 Parser.expressionStatement law.FitStatement s := by
  refine .succ ((h.expression false s).bind (by omega) fun e s isExpr => ?_)
  exact yields_statementEnd.step fun _ s _ => .pure (by simp_all)

/-- A statement with a label. -/
theorem labeled_succ : law.Ends (fuel + 1) 1 1 Parser.labeled law.FitStatement s := by
  refine .succ (yields_identifier.step fun label s _ => ?_)
  refine (yields_expect (by decide)).step fun _ s _ => ?_
  exact (h.statement s).bind (by omega) fun body s isBody => .peek rfl (.pure (by simp_all))

/-- A `var` statement. -/
theorem varStatement_succ : law.EndsFrom (fuel + 1) 1 1 (Parser.varStatement noIn)
    (fun vars => law.FitStatement (.var vars)) s := by
  refine .succ (yields_advance.step fun start s _ => ?_)
  refine (h.declarations noIn [] s (by simp)).bind (by omega) fun decls s areDecls => ?_
  exact .peek rfl (.pure (by simp_all))

/-- Its declarations. -/
theorem declarations_succ (areDecls : law.Fit (declNodes decls)) :
    law.Ends (fuel + 1) 1 1 (Parser.declarations noIn decls) law.FitDecls s := by
  refine .succ (yields_identifier.step fun name s isName => ?_)
  refine .accept (fun s => (h.assignment noIn s).optional.bind (by omega) fun init s isInit => ?_)
    (.peek rfl (.peek rfl ?_))
  · refine .peek rfl (.accept (fun s => ?_) (.pure (by simp_all [declNodes_eq_flatMap])))
    exact (h.declarations noIn _ s (by simp_all)).le (by omega)
  · refine .accept (fun s => ?_) (.pure (by simp_all [declNodes_eq_flatMap]))
    exact (h.declarations noIn _ s (by simp_all)).le (by omega)

/-- An expression in parentheses. -/
theorem parenthesized_succ : law.Ends (fuel + 1) 1 1 Parser.parenthesized law.FitExpr s := by
  refine .succ ((yields_expect (by decide)).step fun _ s _ => ?_)
  refine (h.expression false s).bind (by omega) fun e s isExpr => ?_
  exact (yields_expect (by decide)).step fun _ s _ => .pure isExpr

/-- An `if`, with or without `else`. -/
theorem ifElse_succ : law.EndsFrom (fuel + 1) 1 1 Parser.ifElse law.FitStatement s := by
  refine .succ (yields_advance.step fun start s _ => ?_)
  refine (h.parenthesized s).bind (by omega) fun test s isTest => ?_
  refine (h.statement s).bind (by omega) fun yes s isYes => ?_
  refine .acceptWord (fun s => ?_) (.peek rfl (.peek rfl (.pure (by simp_all))))
  have hasNo : law.Yields True fuel 11 1 (some <$> _) (some <$> _)
      (fun no => law.Fit (no.elim [] Statement.nodes)) s :=
    (h.statement s).map fun no isNo => by simpa using isNo
  exact hasNo.bind (by omega) fun no s isNo => .peek rfl (.pure (by cases no <;> simp_all))

/-- A `do` loop. -/
theorem doWhile_succ : law.EndsFrom (fuel + 1) 1 1 Parser.doWhile law.FitStatement s := by
  refine .succ (yields_advance.step fun start s _ => ?_)
  refine (h.statement s).bind (by omega) fun body s isBody => ?_
  refine .acceptWord (fun s => ?_) (yields_fail_bind (by decide))
  refine (h.parenthesized s).bind (by omega) fun test s isTest => ?_
  exact .accept (fun s => .peek rfl (.pure (by simp_all))) (.peek rfl (.pure (by simp_all)))

/-- A `for` loop of either kind. -/
theorem forLoop_succ : law.EndsFrom (fuel + 1) 1 1 Parser.forLoop law.FitStatement s := by
  refine .succ (yields_advance.step fun start s _ => ?_)
  refine (yields_expect (by decide)).step fun _ s _ => .peek rfl ?_
  split
  · refine ((h.varStatement true s).given (by simp_all)).bind (by omega) fun vars s areVars => ?_
    obtain ⟨decls, span⟩ := vars
    refine .peek rfl ?_
    split
    · refine .next (by simp_all) fun _ s => ?_
      exact (h.forIn start (.var _) s (by simp_all)).le (by omega)
    · exact (h.forClauses start (.var ⟨decls, span⟩) s (by simp_all)).le (by omega)
  · refine .peek rfl ?_
    split
    · exact (h.forClauses start .nothing s (by simp)).le (by omega)
    · refine (h.expression true s).bind (by omega) fun init s isInit => ?_
      refine .acceptWord (fun s => ?_) ?_
      · exact (h.forIn start (.expr init) s (by simpa using isInit)).le (by omega)
      · exact (h.forClauses start (.expr init) s (by simpa using isInit)).le (by omega)

/-- The rest of one with semicolons. -/
theorem forClauses_succ (isInit : law.Fit init.nodes) :
    law.Ends (fuel + 1) 1 1 (Parser.forClauses start init) law.FitStatement s := by
  refine .succ ((yields_expect (by decide)).step fun _ s _ => .peek rfl ?_)
  refine .either (fun _ => .pure (by simp)) (fun _ => (h.expression false s).optional.le (by omega))
    fun test s isTest => (yields_expect (by decide)).step fun _ s _ => .peek rfl ?_
  refine .either (fun _ => .pure (by simp)) (fun _ => (h.expression false s).optional.le (by omega))
    fun update s isUpdate => (yields_expect (by decide)).step fun _ s _ => ?_
  exact (h.statement s).bind (by omega) fun body s isBody => .peek rfl (.pure (by simp_all))

/-- The rest of one with `in`. -/
theorem forIn_succ (isTarget : law.Fit target.nodes) :
    law.Ends (fuel + 1) 10 1 (Parser.forIn start target) law.FitStatement s := by
  refine .succ ((h.expression false s).bind (by omega) fun object s isObject => ?_)
  refine (yields_expect (by decide)).step fun _ s _ => ?_
  exact (h.statement s).bind (by omega) fun body s isBody => .peek rfl (.pure (by simp_all))

/-- A `switch`. -/
theorem switch_succ : law.EndsFrom (fuel + 1) 1 1 Parser.switch law.FitStatement s := by
  refine .succ (yields_advance.step fun start s _ => ?_)
  refine (h.parenthesized s).bind (by omega) fun subject s isSubject => ?_
  refine (yields_expect (by decide)).step fun _ s _ => ?_
  refine (h.switchCases false [] s (by simp)).bind (by omega) fun clauses s areClauses => ?_
  exact .peek rfl (.pure (by simp_all))

/-- Its clauses, with one default at most. -/
theorem switchCases_succ (areClauses : law.Fit (caseNodes clauses)) :
    law.Ends (fuel + 1) 1 0 (Parser.switchCases seenDefault clauses)
      (fun clauses => law.Fit (caseNodes clauses)) s := by
  refine .succ (.comments fun leading areComments => .accept (fun s => ?_) (.peek rfl (.peek rfl ?_)))
  all_goals have isLeading : law.Fit (statementNodes leading) := areComments
  · cases clauses with
    | nil => exact .pure (by simp)
    | cons last earlier =>
      obtain ⟨test, body, span⟩ := last
      exact .pure (by simp_all [caseNodes_eq_flatMap, statementNodes_eq_flatMap])
  split
  · refine .next (by simp_all) fun _ s => ?_
    refine (h.expression false s).bind (by omega) fun test s isTest => ?_
    refine (h.switchBody _ (some test) leading s (by simpa using isTest) isLeading).bind (by omega)
      fun clause s isClause => ?_
    exact (h.switchCases seenDefault _ s (by simp_all [caseNodes_eq_flatMap])).le (by omega)
  · split
    · exact yields_fail_bind (by decide)
    · refine .next (by simp_all) fun _ s => ?_
      refine (h.switchBody _ none leading s (by simp) isLeading).bind (by omega)
        fun clause s isClause => ?_
      exact (h.switchCases true _ s (by simp_all [caseNodes_eq_flatMap])).le (by omega)
  · exact yields_fail (by decide)

/-- The statements of a clause. -/
theorem switchBody_succ (isTest : law.Fit (optionalNodes test))
    (isLeading : law.Fit (statementNodes leading)) :
    law.Ends (fuel + 1) 1 1 (Parser.switchBody start test leading)
      (fun c => law.Fit (caseNodes [c])) s := by
  refine .succ ((yields_expect (by decide)).step fun _ s _ => ?_)
  have reversed : law.Fit (statementNodes leading.reverse) := by
    simp_all [statementNodes_eq_flatMap]
  refine (h.statementList _ _ s reversed).bind (by omega) fun body s isBody => ?_
  exact .peek rfl (.pure (by simp_all))

/-- A `catch` clause. -/
theorem catchClause_succ : law.EndsFrom (fuel + 1) 1 1 Parser.catchClause
    (fun c => law.Fit (handlerNodes (some c))) s := by
  refine .succ (yields_advance.step fun start s _ => ?_)
  refine (yields_expect (by decide)).step fun _ s _ => ?_
  refine yields_identifier.step fun param s isParam => ?_
  refine (yields_expect (by decide)).step fun _ s _ => ?_
  refine (h.block s).bind (by omega) fun body s isBody => ?_
  exact .peek rfl (.pure (by simp_all))

/-- A `try` statement. -/
theorem tryCatch_succ : law.EndsFrom (fuel + 1) 1 1 Parser.tryCatch law.FitStatement s := by
  refine .succ (yields_advance.step fun start s _ => ?_)
  refine (h.block s).bind (by omega) fun body s isBody => .peek rfl ?_
  have handles (here : s.GoesOn) : law.Yields True fuel 1 1 (some <$> _) (some <$> _)
      (fun c => law.Fit (handlerNodes c)) s :=
    ((h.catchClause s).given fun _ => here).map fun c isClause => isClause
  refine .either (fun _ => (handles (by simp_all)).le (by omega)) (fun _ => .pure (by simp))
    fun handler s isHandler => ?_
  have last (finalizer : Option Block) (isFinalizer : law.Fit (finalizer.elim [] Block.nodes))
      (s : TokenStream) {rank : Nat} : law.Yields True fuel rank 0 (do
        if handler.isNone && finalizer.isNone then fail .catchOrFinally
        return Statement.tryCatch body handler finalizer (← spanFrom start)) (do
        if handler.isNone && finalizer.isNone then fail .catchOrFinally
        return Statement.tryCatch body handler finalizer (← spanFrom start)) law.FitStatement s := by
    split
    · exact yields_fail_bind (by decide)
    · exact .peek rfl (.pure (by cases finalizer <;> simp_all))
  refine .acceptWord (fun s => ?_) (last none (by simp) s)
  have closes : law.Yields True fuel 1 1 (some <$> _) (some <$> _)
      (fun b => law.Fit (b.elim [] Block.nodes)) s :=
    (h.block s).map fun b isBlock => by simpa using isBlock
  exact closes.bind (by omega) fun finalizer s isFinalizer => last finalizer isFinalizer s

/-- Any statement, by its first token. -/
theorem statement_succ : law.Ends (fuel + 1) 11 1 Parser.statement law.FitStatement s := by
  refine .succ (.peek rfl ?_)
  split
  · exact (h.block s).bind (by omega) fun b s isBlock => .pure (by simpa using isBlock)
  · refine ((h.varStatement false s).given (by simp_all)).bind (by omega) fun vars s areVars => ?_
    exact yields_statementEnd.step fun _ s _ => .pure areVars
  · refine ((h.function _ s).given (by simp_all)).bind (by omega) fun fn s isFn => ?_
    exact .pure (by simpa using isFn)
  · exact ((h.ifElse s).given (by simp_all)).le (by omega)
  · exact ((h.forLoop s).given (by simp_all)).le (by omega)
  · refine .next (by simp_all) fun start s => ?_
    refine (h.parenthesized s).bind (by omega) fun test s isTest => ?_
    exact (h.statement s).bind (by omega) fun body s isBody => .peek rfl (.pure (by simp_all))
  · exact ((h.doWhile s).given (by simp_all)).le (by omega)
  · exact ((h.switch s).given (by simp_all)).le (by omega)
  · exact ((h.tryCatch s).given (by simp_all)).le (by omega)
  · refine .next (by simp_all) fun start s => .peek rfl ?_
    split
    · exact .peek rfl (yields_statementEnd.step fun _ s _ => .peek rfl (.pure (by simp)))
    · refine (h.expression false s).optional.bind (by omega) fun value s isValue => ?_
      exact yields_statementEnd.step fun _ s _ => .peek rfl (.pure (by simp_all))
  · refine .next (by simp_all) fun start s => yields_jumpLabel.step fun label s _ => ?_
    exact yields_statementEnd.step fun _ s _ => .peek rfl (.pure (by simp))
  · refine .next (by simp_all) fun start s => yields_jumpLabel.step fun label s _ => ?_
    exact yields_statementEnd.step fun _ s _ => .peek rfl (.pure (by simp))
  · refine .next (by simp_all) fun start s => .peek rfl ?_
    split
    · exact yields_fail_bind (by decide)
    refine (h.expression false s).bind (by omega) fun value s isValue => ?_
    exact yields_statementEnd.step fun _ s _ => .peek rfl (.pure (by simp_all))
  · refine .next (by simp_all) fun start s => ?_
    refine (h.parenthesized s).bind (by omega) fun object s isObject => ?_
    refine (h.statement s).bind (by omega) fun body s isBody => ?_
    exact .peek rfl (.pure (by simp_all))
  · refine .next (by simp_all) fun span s => ?_
    exact yields_statementEnd.step fun _ s _ => .pure (by simp)
  · exact .next (by simp_all) fun span s => .pure (by simp)
  · refine .peek rfl ?_
    split
    · exact (h.labeled s).le (by omega)
    · exact h.expressionStatement s
  · exact h.expressionStatement s

/-- One unit of fuel more. -/
theorem succ : Rules law (fuel + 1) where
  expression := h.expression_succ
  commaOperands := h.commaOperands_succ
  assignment := h.assignment_succ
  conditional := h.conditional_succ
  binary := h.binary_succ
  binaryOperands := h.binaryOperands_succ
  unary := h.unary_succ
  postfixed := h.postfixed_succ
  leftHandSide := h.leftHandSide_succ
  suffixes := h.suffixes_succ
  construction := h.construction_succ
  accesses := h.accesses_succ
  access := h.access_succ
  arguments := h.arguments_succ
  argumentList := h.argumentList_succ
  primary := h.primary_succ
  arrayItems := h.arrayItems_succ
  objectProperties := h.objectProperties_succ
  property := h.property_succ
  function := h.function_succ
  functionRest := h.functionRest_succ
  block := h.block_succ
  statementList := h.statementList_succ
  statement := h.statement_succ
  expressionStatement := h.expressionStatement_succ
  labeled := h.labeled_succ
  varStatement := h.varStatement_succ
  declarations := h.declarations_succ
  parenthesized := h.parenthesized_succ
  ifElse := h.ifElse_succ
  doWhile := h.doWhile_succ
  forLoop := h.forLoop_succ
  forClauses := h.forClauses_succ
  forIn := h.forIn_succ
  switch := h.switch_succ
  switchCases := h.switchCases_succ
  switchBody := h.switchBody_succ
  tryCatch := h.tryCatch_succ
  catchClause := h.catchClause_succ

end Rules

/-- All rules hold at every fuel, by induction on it. -/
theorem rules (law : NameLaw) (fuel : Nat) : Rules law fuel := by
  induction fuel with
  | zero => constructor <;> intros <;> exact .unfinished (by omega)
  | succ fuel ih => exact ih.succ

/-- A program ends, and what it holds fits. -/
theorem ends_program (law : NameLaw) (fuel : Nat) (s : TokenStream) :
    law.Ends fuel 12 0 program (fun p => law.Fit p.nodes) s :=
  .peek rfl (((rules law fuel).statementList _ [] s fit_nil).bind (by omega) fun _ s known =>
    .peek rfl (.pure (by simpa [Program.nodes, Program.of] using known)))

end Parser

end Minifier
