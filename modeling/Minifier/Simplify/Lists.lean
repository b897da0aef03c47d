import Minifier.Simplify.Edited
import Minifier.Syntax.Hoisted
import Minifier.Text.CharClass

/-!
# Statement lists

Transformations of a list of statements that need nothing but the list: blocks are opened,
neighbours that can be one statement are joined, and what comes after a jump is dropped.
-/

set_option autoImplicit false

namespace Minifier

/-! ## Opening blocks -/

mutual

/-- The statements that a statement stands for: those of a block, else itself. -/
def Statement.unnested : Statement → List Statement
  | .block ⟨statements, _⟩ => unnestAll statements
  | s => [s]

/-- The statements of a list, those of blocks in place of the blocks. -/
def unnestAll : List Statement → List Statement
  | [] => []
  | s :: rest => s.unnested ++ unnestAll rest

end

def unnestBlocks (statements : List Statement) : Edited (List Statement) :=
  ⟨unnestAll statements, statements.any fun s => s matches .block _⟩

/-! ## Joining neighbours -/

/-- Joins statements with the one in hand as long as they can be joined. -/
def joinFrom (join? : Statement → Statement → Option Statement) :
    Statement → List Statement → List Statement
  | s, [] => [s]
  | s, next :: rest =>
    match join? s next with
    | some joined => joinFrom join? joined rest
    | none => s :: joinFrom join? next rest

/-- Joins neighbours that can be joined. -/
def joinNeighbours (join? : Statement → Statement → Option Statement) :
    List Statement → Edited (List Statement)
  | [] => pure []
  | s :: rest =>
    let joined := joinFrom join? s rest
    ⟨joined, joined.length ≠ rest.length + 1⟩

/-- Two `var` statements as one. -/
def joinVars? : Statement → Statement → Option Statement
  | .var a, .var b => some (.var ⟨a.decls ++ b.decls, a.span.combine b.span⟩)
  | _, _ => none

def joinVars (statements : List Statement) : Edited (List Statement) :=
  joinNeighbours joinVars? statements

/-- A text without the occurrences of another that it starts with. -/
def dropLeading (part : List Char) : Nat → List Char → List Char
  | 0, text => text
  | fuel + 1, text =>
    if part.isPrefixOf text then dropLeading part fuel (text.drop part.length) else text

/-- The text of a conditional comment without its end. -/
def commentHead (text : List Char) : List Char :=
  Text.trimEnd (dropLeading "/*@".toList text.length text.reverse).reverse

/-- The text of a conditional comment without its start. -/
def commentTail (text : List Char) : List Char :=
  Text.trimStart (dropLeading "/*@".toList text.length text)

/-- Two conditional comments as one. -/
def joinComments? : Statement → Statement → Option Statement
  | .comment .conditional a aSpan, .comment .conditional b bSpan =>
    let text := commentHead a.toList ++ ' ' :: commentTail b.toList
    some (.comment .conditional (String.ofList text) (aSpan.combine bSpan))
  | _, _ => none

def joinComments (statements : List Statement) : Edited (List Statement) :=
  joinNeighbours joinComments? statements

/-! ## Statements without effect -/

def dropEmpty (statements : List Statement) : Edited (List Statement) :=
  let kept := statements.filter fun s => !s.isEmpty
  ⟨kept, kept.length ≠ statements.length⟩

/-- What is left of a statement after a jump. -/
def Statement.afterJump : Statement → List Statement
  | .function fn => [.function fn]
  | .comment .important text span => [.comment .important text span]
  | s => s.survivors

/-- Whether it is worth a report that a statement is never reached. -/
def Statement.isCode : Statement → Bool
  | .function _ | .comment .important _ _ | .var _ | .empty _ => false
  | _ => true

/-- A list up to and including its first jump, and the rest. -/
def splitAtJump : List Statement → List Statement × List Statement
  | [] => ([], [])
  | s :: rest =>
    if s.isJump then ([s], rest)
    else
      let (reached, dead) := splitAtJump rest
      (s :: reached, dead)

/-- Drops what comes after a jump, but for declarations and important comments. Answers the place
of the first code that is dropped. -/
def dropUnreachable (statements : List Statement) : Edited (List Statement) × Option Span :=
  match splitAtJump statements with
  | (_, []) => (pure statements, none)
  | (reached, dead) =>
    (.of (reached ++ (joinVars (dead.flatMap Statement.afterJump)).value),
      (dead.find? Statement.isCode).map Statement.span)

end Minifier
