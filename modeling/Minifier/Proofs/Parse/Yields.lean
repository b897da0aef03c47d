import Mathlib.Logic.Relation
import Mathlib.Tactic.MkIffOfInductiveProp
import Minifier.Parse.Grammar
import Minifier.Syntax.Nodes

/-!
# What a rule does

A parser moves through its tokens by two small steps only: it goes past the current token, unless
that is the end of the input, and it takes the comments before it. It takes the names of a program
from the identifiers that it reads, binds none of them, and makes no `var` statement that declares
nothing (`Node.IsRead`).

`NameLaw.Yields` says of one rule where it ends or complains, how many tokens it reads, what is
known of the nodes of its answer if something is known of the names on the stream, and how much fuel
is enough for it.
-/

set_option autoImplicit false

namespace Minifier

open List

namespace TokenStream

/-- A step of a parser through its tokens. -/
inductive Step : TokenStream → TokenStream → Prop where
  | advance (s : TokenStream) : Step s s.advance
  | dropComments (s : TokenStream) : Step s s.dropComments

/-- The streams that a parser comes to. -/
def Follows : TokenStream → TokenStream → Prop := Relation.ReflTransGen Step

/-- There is a token to read before the end of the input. -/
@[simp] def GoesOn (s : TokenStream) : Prop := s.current.lexeme ≠ .endOfInput

theorem length_advance {s : TokenStream} (goesOn : s.GoesOn) :
    s.advance.tokens.length + 1 = s.tokens.length := by
  unfold advance
  rw [if_neg goesOn]
  unfold GoesOn current at goesOn
  cases isTokens : s.tokens with
  | nil => exact absurd (by rw [isTokens]; rfl) goesOn
  | cons token rest => simp

theorem length_dropComments (s : TokenStream) : s.dropComments.tokens.length = s.tokens.length := by
  unfold dropComments
  split <;> simp_all

end TokenStream

/-- A lexeme that means something where the end of the input means nothing is not that end. -/
theorem Lexeme.ne_endOfInput {α : Type} {f : Lexeme → Option α} {l : Lexeme} {a : α}
    (isNone : f .endOfInput = none) (isSome : f l = some a) : l ≠ .endOfInput := by
  rintro rfl
  cases isNone.symm.trans isSome

/-- A complaint is about the current token. -/
def SyntaxFault.IsAt (fault : SyntaxFault) (s : TokenStream) : Prop :=
  fault.found = s.current.lexeme ∧ fault.span = s.current.span

/-- A node as a parser makes it: nothing is bound, the names are plain, and a `var` statement declares
something. -/
@[mk_iff] structure Node.IsRead (plain : String → Prop) (n : Node) : Prop where
  ident : ∀ id, n = .ident id → id.field = none ∧ plain id.name
  use : ∀ id span, n = .expr ⟨.ident id, span⟩ → id.field = none ∧ plain id.name
  function : ∀ fn, n = .function fn → fn.scope = none
  catchClause : ∀ clause, n = .catchClause clause → clause.scope = none
  withObject : ∀ object body scope span, n = .statement (.withObject object body scope span) → scope = none
  declares : ∀ vars, n = .statement (.var vars) → vars.decls ≠ []

namespace Parser

variable {complaint : Complaint} {mark : Punctuator}

variable {α β : Type} {s s' : TokenStream} {guard guard' : Prop}
  {fuel rank rank₁ least least₁ : Nat}

/-- What is known of the names of identifiers, and of the nodes that are made with them. -/
structure NameLaw where
  plain : String → Prop
  fits : Node → Prop
  read : ∀ n : Node, n.IsRead plain → fits n
  /-- Brackets around an expression are part of its span only. -/
  widened : ∀ form span span', fits (.expr ⟨form, span⟩) → fits (.expr ⟨form, span'⟩)

/-- What a rule does where it stands, and that more fuel is no matter. It moves by small steps to
where it ends, or to where it complains. If the guard holds, it reads at least some tokens; and if
there is fuel for the tokens that are left, more makes no difference, and it does not run out. -/
structure Outcome (guard : Prop) (fuel rank least : Nat) (m m' : Parser α) (good : α → Prop)
    (s : TokenStream) : Prop where
  reads : ∀ a s', m s = .ok (a, s') → s.Follows s' ∧ good a ∧
    (guard → s'.tokens.length + least ≤ s.tokens.length)
  fails : ∀ fault, m s = .error fault → ∃ s', s.Follows s' ∧ fault.IsAt s'
  ends : guard → 24 * s.tokens.length + rank ≤ fuel →
    m' s = m s ∧ ∀ fault, m s = .error fault → fault.complaint ≠ .unfinished

namespace NameLaw

variable (law : NameLaw)

/-- The identifier that a lexeme may be has a plain name. -/
def Plain (l : Lexeme) : Prop := ∀ name, l = .identifier name → law.plain name

/-- Every identifier that is left to read has a plain name. -/
def PlainStream (s : TokenStream) : Prop := ∀ token ∈ s.tokens, law.Plain token.lexeme

/-- All of some nodes are as they should be. -/
def Fit (nodes : List Node) : Prop := ∀ n ∈ nodes, law.fits n

/-- What a rule does if the identifiers on the stream have plain names. -/
def Yields (guard : Prop) (fuel rank least : Nat) (m m' : Parser α) (good : α → Prop)
    (s : TokenStream) : Prop :=
  law.PlainStream s → Outcome guard fuel rank least m m' good s

/-- A rule that hands its fuel on. -/
abbrev Ends (fuel rank least : Nat) (rule : Nat → Parser α) (good : α → Prop) (s : TokenStream) :
    Prop :=
  law.Yields True fuel rank least (rule fuel) (rule (fuel + 1)) good s

/-- A rule that is called where there is a token to read. -/
abbrev EndsFrom (fuel rank least : Nat) (rule : Nat → Parser α) (good : α → Prop)
    (s : TokenStream) : Prop :=
  law.Yields s.GoesOn fuel rank least (rule fuel) (rule (fuel + 1)) good s

end NameLaw

variable {law : NameLaw}

@[simp] theorem fit_nil : law.Fit [] := fun _ mem => (not_mem_nil mem).elim

@[simp] theorem fit_append {a b : List Node} : law.Fit (a ++ b) ↔ law.Fit a ∧ law.Fit b := by
  simp only [NameLaw.Fit, mem_append, or_imp, forall_and]

@[simp] theorem fit_cons {n : Node} {nodes : List Node} :
    law.Fit (n :: nodes) ↔ law.fits n ∧ law.Fit nodes := by
  simp only [NameLaw.Fit, mem_cons, forall_eq_or_imp]

namespace NameLaw.PlainStream

theorem current (plain : law.PlainStream s) : law.Plain s.current.lexeme := by
  unfold TokenStream.current
  cases isTokens : s.tokens with
  | nil => intro name isName; cases isName
  | cons token rest => exact plain token (isTokens ▸ mem_cons_self)

theorem advance (plain : law.PlainStream s) : law.PlainStream s.advance := by
  unfold TokenStream.advance
  split
  · exact plain
  · exact fun token mem => plain token (mem_of_mem_tail mem)

theorem dropComments (plain : law.PlainStream s) : law.PlainStream s.dropComments := by
  unfold TokenStream.dropComments
  split
  · exact plain
  · rename_i token rest isTokens
    intro token' mem
    rcases mem_cons.mp mem with rfl | mem
    · exact plain token (isTokens ▸ mem_cons_self)
    · exact plain token' (isTokens ▸ mem_cons_of_mem _ mem)

theorem follows (plain : law.PlainStream s) (follows : s.Follows s') : law.PlainStream s' := by
  induction follows with
  | refl => exact plain
  | tail _ step ih =>
    cases step with
    | advance => exact ih.advance
    | dropComments => exact ih.dropComments

end NameLaw.PlainStream

namespace NameLaw.Yields

variable {m m' n n' : Parser α} {f f' : α → Parser β} {good : α → Prop} {good' : β → Prop}

theorem plain (yields : law.PlainStream s → law.Yields guard fuel rank least m m' good s) :
    law.Yields guard fuel rank least m m' good s :=
  fun plain => yields plain plain

theorem given (yields : law.Yields guard fuel rank least m m' good s) (holds : guard' → guard) :
    law.Yields guard' fuel rank least m m' good s := fun plain =>
  have outcome := yields plain
  { outcome with
    reads a s' isRead :=
      (outcome.reads a s' isRead).imp_right (And.imp_right fun counts ours => counts (holds ours))
    ends ours := outcome.ends (holds ours) }

theorem le (yields : law.Yields guard fuel rank₁ least₁ m m' good s)
    (within : rank₁ ≤ rank ∧ least ≤ least₁) : law.Yields guard fuel rank least m m' good s := by
  intro plain
  have outcome := yields plain
  refine ⟨fun a s' isRead => ?_, outcome.fails, fun holds enough => outcome.ends holds (by omega)⟩
  obtain ⟨follows, known, counts⟩ := outcome.reads a s' isRead
  refine ⟨follows, known, fun holds => ?_⟩
  have := counts holds
  omega

theorem pure {a : α} (known : good a) :
    law.Yields guard fuel rank 0 (Pure.pure a) (Pure.pure a) good s := by
  refine fun _ => ⟨?_, by rintro _ ⟨⟩, fun _ _ => ⟨rfl, by rintro _ ⟨⟩⟩⟩
  rintro _ _ ⟨⟩
  exact ⟨.refl, known, fun _ => Nat.le_refl _⟩

/-- After a step whose answer is known. -/
theorem after (least₁ : Nat) {a : α} (isRead : m s = .ok (a, s')) (follows : s.Follows s')
    (counts : guard → s'.tokens.length + least₁ ≤ s.tokens.length)
    (same : guard → 24 * s.tokens.length + rank ≤ fuel → m' s = m s)
    (next : law.Yields guard fuel (rank + 24 * least₁) (least - least₁) (f a) (f' a) good' s') :
    law.Yields guard fuel rank least (m >>= f) (m' >>= f') good' s := by
  intro plain
  have outcome := next (plain.follows follows)
  have whole : (m >>= f) s = f a s' := by simp only [Bind.bind, StateT.bind, Except.bind, isRead]
  refine ⟨fun b s₁ isRead => ?_, fun fault failed => ?_, fun holds enough => ?_⟩
  · rw [whole] at isRead
    obtain ⟨more, known, counts'⟩ := outcome.reads b s₁ isRead
    refine ⟨follows.trans more, known, fun holds => ?_⟩
    have := counts holds
    have := counts' holds
    omega
  · rw [whole] at failed
    obtain ⟨s₁, more, isAt⟩ := outcome.fails fault failed
    exact ⟨s₁, follows.trans more, isAt⟩
  · have whole' : (m' >>= f') s = f' a s' := by
      simp only [Bind.bind, StateT.bind, Except.bind, same holds enough, isRead]
    rw [whole, whole']
    have := counts holds
    exact outcome.ends holds (by omega)

/-- What comes after a rule may be of a higher rank, since tokens have been read. -/
theorem bind (first : law.Yields guard fuel rank₁ least₁ m m' good s) (lower : rank₁ ≤ rank)
    (next : ∀ a s', good a →
      law.Yields True fuel (rank + 24 * least₁) (least - least₁) (f a) (f' a) good' s') :
    law.Yields guard fuel rank least (m >>= f) (m' >>= f') good' s := by
  refine plain fun isPlain => ?_
  have outcome := first isPlain
  cases answer : m s with
  | ok found =>
    obtain ⟨follows, known, counts⟩ := outcome.reads _ _ answer
    refine after least₁ answer follows counts (fun holds enough => ?_)
      ((next _ _ known).given fun _ => trivial)
    exact (outcome.ends holds (by omega)).1
  | error fault =>
    have whole : (m >>= f) s = .error fault := by
      simp only [Bind.bind, StateT.bind, Except.bind, answer]
    refine fun _ => ⟨?_, ?_, fun holds enough => ?_⟩
    · intro b s' isRead
      cases whole.symm.trans isRead
    · intro fault' failed
      cases whole.symm.trans failed
      exact outcome.fails fault answer
    · obtain ⟨same, finished⟩ := outcome.ends holds (by omega)
      have whole' : (m' >>= f') s = .error fault := by
        simp only [Bind.bind, StateT.bind, Except.bind, same, answer]
      refine ⟨whole'.trans whole.symm, fun fault' failed => ?_⟩
      cases whole.symm.trans failed
      exact finished fault answer

theorem step (first : law.Yields guard fuel 0 least₁ m m' good s)
    (next : ∀ a s', good a →
      law.Yields True fuel (rank + 24 * least₁) (least - least₁) (f a) (f' a) good' s') :
    law.Yields guard fuel rank least (m >>= f) (m' >>= f') good' s :=
  first.bind (Nat.zero_le _) next

theorem map {g : α → β} (yields : law.Yields guard fuel rank least m m' good s)
    (known : ∀ a, good a → good' (g a)) :
    law.Yields guard fuel rank least (g <$> m) (g <$> m') good' s :=
  yields.bind (Nat.le_refl _) fun a _ isGood => Nat.sub_self least ▸ pure (known a isGood)

theorem optional {m m' : Parser Expr}
    (yields : law.Yields guard fuel rank least m m' (fun e => law.Fit e.nodes) s) :
    law.Yields guard fuel rank least (some <$> m) (some <$> m')
      (fun e => law.Fit (optionalNodes e)) s :=
  yields.map fun _ isExpr => isExpr

/-- A look at the stream. -/
theorem peek {a : α} (isRead : m s = .ok (a, s))
    (next : law.Yields guard fuel rank least (f a) (f' a) good' s) :
    law.Yields guard fuel rank least (m >>= f) (m >>= f') good' s :=
  after 0 isRead .refl (fun _ => Nat.le_refl _) (fun _ _ => rfl) next

/-- One of two rules, and what comes after either. -/
theorem either {b : Prop} [Decidable b] (yes : b → law.Yields True fuel rank 0 m m' good s)
    (no : ¬ b → law.Yields True fuel rank 0 n n' good s)
    (next : ∀ a s', good a → law.Yields True fuel rank least (f a) (f' a) good' s') :
    law.Yields True fuel rank least (if b then m >>= f else n >>= f)
      (if b then m' >>= f' else n' >>= f') good' s := by
  split
  · exact (yes ‹_›).bind (Nat.le_refl _) next
  · exact (no ‹_›).bind (Nat.le_refl _) next

/-- One unit of fuel is for the rule itself. -/
theorem succ {rule : Nat → Parser α}
    (yields : law.Yields guard fuel rank least (rule (fuel + 1)) (rule (fuel + 2)) good s) :
    law.Yields guard (fuel + 1) (rank + 1) least (rule (fuel + 1)) (rule (fuel + 2)) good s :=
  fun plain =>
    have outcome := yields plain
    { outcome with ends := fun holds enough => outcome.ends holds (by omega) }

end NameLaw.Yields

/-! ## The small steps -/

theorem yields_fail (said : complaint ≠ .unfinished) {good : α → Prop} :
    law.Yields guard fuel rank least (fail complaint) (fail complaint) good s := by
  refine fun _ => ⟨by rintro _ _ ⟨⟩, ?_, fun _ _ => ⟨rfl, ?_⟩⟩
  · rintro _ ⟨⟩
    exact ⟨s, .refl, rfl, rfl⟩
  · rintro _ ⟨⟩
    exact said

/-- A rule that has no fuel. -/
theorem NameLaw.Yields.unfinished {m' : Parser α} {good : α → Prop} (positive : 0 < rank) :
    law.Yields guard 0 rank least (fail .unfinished) m' good s := by
  refine fun _ => ⟨by rintro _ _ ⟨⟩, ?_, fun _ enough => by omega⟩
  rintro _ ⟨⟩
  exact ⟨s, .refl, rfl, rfl⟩

/-- Nothing comes after a complaint. -/
theorem yields_fail_bind (said : complaint ≠ .unfinished) {f f' : α → Parser β} {good : β → Prop} :
    law.Yields guard fuel rank least (fail complaint >>= f) (fail complaint >>= f') good s :=
  yields_fail said

theorem yields_advance : law.Yields s.GoesOn fuel 0 1 advance advance (fun _ => True) s := by
  refine fun _ => ⟨?_, by rintro _ ⟨⟩, fun _ _ => ⟨rfl, by rintro _ ⟨⟩⟩⟩
  rintro _ _ ⟨⟩
  exact ⟨.single (.advance s), trivial, fun goesOn =>
    Nat.le_of_eq (TokenStream.length_advance goesOn)⟩

/-- A token is read if it is there. -/
theorem NameLaw.Yields.accepted {l : Lexeme} {f f' : Bool → Parser β} {good : β → Prop}
    (goesOn : l ≠ .endOfInput)
    (yes : ∀ s', law.Yields True fuel (rank + 24) (least - 1) (f true) (f' true) good s')
    (no : law.Yields guard fuel rank least (f false) (f' false) good s) :
    let test : Parser Bool := do
      if ← isAt l then
        let _ ← Parser.advance
        return true
      else return false
    law.Yields guard fuel rank least (test >>= f) (test >>= f') good s := by
  intro test
  have isTest : test s = (if decide (s.current.lexeme = l) then (do
      let _ ← Parser.advance
      return true) else return false : Parser Bool) s := rfl
  by_cases here : s.current.lexeme = l
  · have reads := TokenStream.length_advance (s := s) (by simpa [here] using goesOn)
    rw [if_pos (decide_eq_true here)] at isTest
    exact .after 1 isTest (.single (.advance s)) (fun _ => Nat.le_of_eq reads) (fun _ _ => rfl)
      ((yes _).given fun _ => trivial)
  · rw [if_neg (by simpa using here)] at isTest
    exact .peek isTest no

/-- A punctuator that may be there. -/
theorem NameLaw.Yields.accept {f f' : Bool → Parser β} {good : β → Prop}
    (yes : ∀ s', law.Yields True fuel (rank + 24) (least - 1) (f true) (f' true) good s')
    (no : law.Yields guard fuel rank least (f false) (f' false) good s) :
    law.Yields guard fuel rank least (Parser.accept mark >>= f) (Parser.accept mark >>= f')
      good s :=
  accepted (by simp) yes no

/-- A keyword that may be there. -/
theorem NameLaw.Yields.acceptWord {word : Keyword} {f f' : Bool → Parser β} {good : β → Prop}
    (yes : ∀ s', law.Yields True fuel (rank + 24) (least - 1) (f true) (f' true) good s')
    (no : law.Yields guard fuel rank least (f false) (f' false) good s) :
    law.Yields guard fuel rank least (Parser.acceptWord word >>= f) (Parser.acceptWord word >>= f')
      good s :=
  accepted (by simp) yes no

/-- The token that is there is read. -/
theorem NameLaw.Yields.next {f f' : Span → Parser β} {good : β → Prop} (goesOn : s.GoesOn)
    (next : ∀ span s', law.Yields True fuel (rank + 24) (least - 1) (f span) (f' span) good s') :
    law.Yields True fuel rank least (advance >>= f) (advance >>= f') good s :=
  (yields_advance.given fun _ => goesOn).step fun span s _ => next span s

theorem yields_expect (said : complaint ≠ .unfinished) :
    law.Yields True fuel 0 1 (expect mark complaint) (expect mark complaint) (fun _ => True) s := by
  refine .peek rfl ?_
  split
  · exact yields_advance.given (by simp_all)
  · exact yields_fail said

theorem yields_identifier :
    law.Yields True fuel 0 1 identifier identifier (fun id => law.fits (.ident id)) s := by
  refine .plain fun plain => .peek rfl ?_
  split
  · rename_i name isName
    exact .next (by simp_all) fun _ _ => .pure (law.read _ (by simpa [Node.isRead_iff] using plain.current name isName))
  · exact yields_fail (by decide)

theorem yields_statementEnd :
    law.Yields True fuel 0 0 statementEnd statementEnd (fun _ => True) s := by
  refine .accept (fun s => .pure trivial) (.peek rfl ?_)
  split
  · exact .pure trivial
  · exact yields_fail (by decide)

theorem yields_propertyKey :
    law.Yields True fuel 0 1 propertyKey propertyKey (fun _ => True) s := by
  refine .peek rfl ?_
  split
  · exact .peek rfl (.next (by simp_all) fun _ _ => .pure trivial)
  · exact .peek rfl (.next (by simp_all) fun _ _ => .pure trivial)
  · split
    · exact .peek rfl (.next (Lexeme.ne_endOfInput rfl ‹_›) fun _ _ => .pure trivial)
    · exact yields_fail_bind (by decide)

theorem yields_jumpLabel : law.Yields True fuel 0 0 jumpLabel jumpLabel (fun _ => True) s := by
  refine .peek rfl ?_
  split
  · exact .next (by simp_all) fun _ _ => .pure trivial
  · exact .pure trivial

theorem fit_comments (comments : List Comment) :
    law.Fit (statementNodes (comments.map fun c => .comment c.kind c.text c.span)) := by
  induction comments with
  | nil => exact fit_nil
  | cons c comments ih => exact fit_cons.mpr ⟨law.read _ (by simp [Node.isRead_iff]), ih⟩

theorem NameLaw.Yields.comments {f f' : List Statement → Parser β} {good : β → Prop}
    (next : ∀ comments, law.Fit (statementNodes comments) →
      law.Yields guard fuel rank least (f comments) (f' comments) good s.dropComments) :
    law.Yields guard fuel rank least (Parser.comments >>= f) (Parser.comments >>= f') good s :=
  .after 0 rfl (.single (.dropComments s))
    (fun _ => Nat.le_of_eq (TokenStream.length_dropComments s)) (fun _ _ => rfl)
    (next _ (fit_comments _))

theorem ends_parameterNames (fuel : Nat) :
    ∀ names : List Ident, (∀ id ∈ names, law.fits (.ident id)) → ∀ s,
      law.Ends fuel 1 1 (parameterNames names)
        (fun names => ∀ id ∈ names, law.fits (.ident id)) s := by
  induction fuel with
  | zero => exact fun _ _ _ => .unfinished (by omega)
  | succ fuel ih =>
    intro names isNames s
    refine .succ (yields_identifier.step fun name s isName => ?_)
    have all : ∀ id ∈ name :: names, law.fits (.ident id) := forall_mem_cons.mpr ⟨isName, isNames⟩
    refine .accept (fun s => (ih _ all s).le (by omega)) (.pure fun id mem => ?_)
    exact all id (mem_reverse.mp mem)

end Parser

end Minifier
