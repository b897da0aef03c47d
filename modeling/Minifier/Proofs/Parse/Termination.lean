import Minifier.Minify
import Minifier.Proofs.Parse.Position

/-!
# Parsing ends

The tokens bound the calls of the rules, so fuel in proportion to the tokens is enough. A parser
comes to one answer whatever the fuel beyond that, it never complains that it ran out, it never goes
past the end of the input, and what it gives up with is reported once (`Program.parse_ends`).
-/

set_option autoImplicit false

namespace Minifier

namespace Parser

variable {s' : TokenStream}

variable {α : Type} {s : TokenStream} {fuel rank least : Nat}

/-- More fuel than there has to be makes no difference. -/
theorem eq_of_le {rule : Nat → Parser α} {good : α → Prop}
    (ends : ∀ fuel, anyName.Ends fuel rank least rule good s) {enough : Nat}
    (isEnough : 24 * s.tokens.length + rank ≤ enough) (le : enough ≤ fuel) :
    rule fuel s = rule enough s := by
  induction le with
  | refl => rfl
  | @step fuel le ih =>
    exact ((ends fuel (anyName_plain s)).ends trivial (Nat.le_trans isEnough le)).1.trans ih

/-- A list of statements ends where it has to. -/
theorem statementList_reaches {ends : Lexeme → Bool} {found : List Statement} :
    ∀ {fuel : Nat} {statements : List Statement} {s : TokenStream},
      statementList ends statements fuel s = .ok (found, s') →
        s'.current.lexeme = .endOfInput ∨ ends s'.current.lexeme = true := by
  intro fuel
  induction fuel with
  | zero => exact fun isRead => nomatch isRead
  | succ fuel ih =>
    intro statements s isRead
    change (ite _ _ _ : Parser _) s.dropComments = _ at isRead
    split at isRead
    · rename_i isEnd
      cases isRead
      simpa using isEnd
    · simp only [Bind.bind, StateT.bind, Except.bind] at isRead
      split at isRead
      · cases isRead
      · exact ih isRead

theorem program_reaches {p : Program} (isRead : program fuel s = .ok (p, s')) :
    s'.current.lexeme = .endOfInput := by
  simp only [program, Bind.bind, StateT.bind, Except.bind] at isRead
  split at isRead
  · cases isRead
  split at isRead
  · cases isRead
  · rename_i found isFound
    cases isRead
    obtain isEnd | isEnd := statementList_reaches isFound
    · exact isEnd
    · simpa [endsProgram] using isEnd

end Parser

/-! ## Places -/

/-- A token without its comments. -/
def Token.bare (token : Token) : Token := { token with comments := [] }

/-- What is left to read, comments aside, is what some tokens have from a position on, and the
position is one of theirs. -/
def TokenStream.IsAtPosition (tokens : List Token) (s : TokenStream) (position : Nat) : Prop :=
  position < tokens.length ∧ s.tokens.map Token.bare = (tokens.drop position).map Token.bare

/-- A parser does not go past the end of the input. -/
theorem TokenStream.Follows.exists_position {tokens : List Token} {s : TokenStream}
    (follows : (TokenStream.ofTokens tokens).Follows s) :
    ∃ position, s.IsAtPosition (TokenStream.ofTokens tokens).tokens position := by
  have among := IsAmong.ofTokens tokens
  induction follows with
  | refl => exact ⟨0, List.length_pos_of_mem among.current_mem, rfl⟩
  | @tail s _ before step ih =>
    obtain ⟨position, inside, isLeft⟩ := ih
    cases step with
    | advance =>
      unfold advance
      split
      · exact ⟨position, inside, isLeft⟩
      · rename_i notEnd
        refine ⟨position + 1, ?_, ?_⟩
        · obtain ⟨rest, last, isTokens, isEnd⟩ := (among.follows before).ends
          have count := congrArg List.length isLeft
          cases rest with
          | nil => exact absurd isEnd (by simpa [current, isTokens] using notEnd)
          | cons token rest =>
            simp [isTokens] at count
            omega
        · rw [← List.tail_drop, List.map_tail, List.map_tail, isLeft]
    | dropComments =>
      refine ⟨position, inside, Eq.trans ?_ isLeft⟩
      unfold dropComments
      split
      · rfl
      · rename_i token rest isTokens
        rw [isTokens]
        rfl

/-- Parsing some tokens comes to an end. -/
structure ParsingEnds (tokens : List Token) : Prop where
  /-- Every rule reads what it has to, and comes to an answer if there is fuel for the tokens,
  whatever the names. -/
  rules : ∀ fuel, Parser.Rules Parser.anyName fuel
  inside : ∀ s, (TokenStream.ofTokens tokens).Follows s →
    ∃ position, s.IsAtPosition (TokenStream.ofTokens tokens).tokens position
  /-- More fuel makes no difference. -/
  same : ∀ fuel, Parser.fuelFor (.ofTokens tokens) ≤ fuel →
    Parser.program fuel (.ofTokens tokens) = Parser.run Parser.program (.ofTokens tokens)
  success : ∀ p s, Parser.run Parser.program (.ofTokens tokens) = .ok (p, s) →
    (TokenStream.ofTokens tokens).Follows s ∧ s.current.lexeme = .endOfInput
  failure : ∀ fault, Parser.run Parser.program (.ofTokens tokens) = .error fault →
    fault.complaint ≠ .unfinished ∧ ∃ s, (TokenStream.ofTokens tokens).Follows s ∧ fault.IsAt s
  /-- What it gives up with is reported once, at its place. -/
  report : ∀ fault, Program.parse tokens = .error fault → Program.parseReported tokens =
    (.error fault, #[Diagnostic.of .syntaxError fault.span fault.text])
  /-- The report of a source with these tokens is that of the parser. -/
  minified : ∀ settings source fault, Token.scan source = .ok tokens →
    Program.parse tokens = .error fault →
      (minify settings source).report = (Program.parseReported tokens).2

theorem Program.parse_ends (tokens : List Token) : ParsingEnds tokens where
  rules := Parser.rules Parser.anyName
  inside _ follows := follows.exists_position
  same fuel le :=
    Parser.eq_of_le (Parser.ends_program Parser.anyName · _) (by unfold Parser.fuelFor; omega) le
  success p s isRead := ⟨((Parser.moves_program _ _).1 p s isRead), Parser.program_reaches isRead⟩
  failure fault failed := by
    refine ⟨?_, (Parser.moves_program _ _).2 fault failed⟩
    have outcome := Parser.ends_program Parser.anyName (Parser.fuelFor (.ofTokens tokens))
      (.ofTokens tokens) (Parser.anyName_plain _)
    exact (outcome.ends trivial (by unfold Parser.fuelFor; omega)).2 fault failed
  report fault failed := by
    rw [parseReported, failed]
    rfl
  minified settings source fault isScanned failed := by
    simp only [Minifier.minify, isScanned, parseReported, failed]

end Minifier
