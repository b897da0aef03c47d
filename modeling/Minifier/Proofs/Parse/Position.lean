import Minifier.Proofs.Parse.Rules

/-!
# Where a parser is

A stream that ends with the end of the input never runs out, whatever the rules do, and what a parser
gives up with is about a token that is there (`Program.parse_isAbout`). That parsers move along the
stream is read off the same laws that say when they end.
-/

set_option autoImplicit false

namespace Minifier

namespace TokenStream

/-- The current token is one of some tokens, its comments aside, and so is the token read last. -/
structure IsAmong (tokens : List Token) (s : TokenStream) : Prop where
  /-- The stream ends with the end of the input. -/
  ends : ∃ rest last, s.tokens = rest ++ [last] ∧ last.lexeme = .endOfInput
  left : ∀ token ∈ s.tokens, ∃ token' ∈ tokens,
    token.lexeme = token'.lexeme ∧ token.span = token'.span
  previous : ∀ span ∈ s.previous, ∃ token ∈ tokens, span = token.span

variable {tokens : List Token} {s s' : TokenStream}

theorem IsAmong.current_mem (among : s.IsAmong tokens) : s.current ∈ s.tokens := by
  obtain ⟨rest, last, isTokens, -⟩ := among.ends
  unfold current
  rw [isTokens]
  cases rest <;> simp

theorem IsAmong.ofTokens (tokens : List Token) :
    (ofTokens tokens).IsAmong (TokenStream.ofTokens tokens).tokens := by
  refine ⟨?_, fun token mem => ⟨token, mem, rfl, rfl⟩, ?_⟩
  · unfold TokenStream.ofTokens
    split
    · rename_i last isLast
      split
      · obtain ⟨rest, rfl⟩ := List.getLast?_eq_some_iff.mp isLast
        exact ⟨rest, last, rfl, ‹_›⟩
      · exact ⟨tokens, _, rfl, rfl⟩
    · exact ⟨[], _, rfl, rfl⟩
  · intro span isPrevious
    unfold TokenStream.ofTokens at isPrevious
    split at isPrevious
    · split at isPrevious <;> cases isPrevious
    · cases isPrevious

/-- Only a token that is not the last is passed. -/
theorem IsAmong.advance (among : s.IsAmong tokens) : s.advance.IsAmong tokens := by
  have here := among.left _ among.current_mem
  unfold TokenStream.advance
  split
  · exact among
  · rename_i notEnd
    refine ⟨?_, fun token mem => among.left token (List.mem_of_mem_tail mem), ?_⟩
    · obtain ⟨rest, last, isTokens, isLast⟩ := among.ends
      cases rest with
      | nil =>
        refine absurd ?_ notEnd
        rw [current, isTokens]
        exact isLast
      | cons token rest => exact ⟨rest, last, by rw [isTokens]; rfl, isLast⟩
    · rintro _ ⟨⟩
      obtain ⟨token, mem, -, isSpan⟩ := here
      exact ⟨token, mem, isSpan⟩

theorem IsAmong.dropComments (among : s.IsAmong tokens) : s.dropComments.IsAmong tokens := by
  obtain ⟨rest, last, isTokens, isLast⟩ := among.ends
  have left := among.left
  unfold TokenStream.dropComments
  cases rest with
  | nil =>
    rw [isTokens] at left ⊢
    refine ⟨⟨[], _, rfl, isLast⟩, ?_, among.previous⟩
    simpa using left
  | cons token rest =>
    rw [isTokens] at left ⊢
    refine ⟨⟨{ token with comments := [] } :: rest, last, rfl, isLast⟩, ?_, among.previous⟩
    simpa using left

theorem IsAmong.follows (among : s.IsAmong tokens) (follows : s.Follows s') : s'.IsAmong tokens := by
  induction follows with
  | refl => exact among
  | tail _ step ih =>
    cases step with
    | advance => exact ih.advance
    | dropComments => exact ih.dropComments

end TokenStream

namespace Parser

variable {α : Type}

/-- A rule moves by small steps to where it ends, or to where it complains. -/
def Moves (m : Parser α) : Prop :=
  ∀ s, (∀ a s', m s = .ok (a, s') → s.Follows s') ∧
    ∀ fault, m s = .error fault → ∃ s', s.Follows s' ∧ fault.IsAt s'

/-- Nothing is known of names, and nothing needs to be. -/
def anyName : NameLaw where
  plain _ := True
  fits _ := True
  read _ _ := trivial
  widened _ _ _ _ := trivial

theorem anyName_plain (s : TokenStream) : anyName.PlainStream s := fun _ _ _ _ => trivial

theorem moves {guard : TokenStream → Prop} {fuel rank least : Nat} {m m' : Parser α}
    {good : α → Prop} (yields : ∀ s, anyName.Yields (guard s) fuel rank least m m' good s) :
    Moves m := by
  intro s
  obtain ⟨reads, fails, -⟩ := yields s (anyName_plain s)
  exact ⟨fun a s' isRead => (reads a s' isRead).1, fails⟩

theorem moves_program (fuel : Nat) : Moves (program fuel) := moves (ends_program anyName fuel)

end Parser

/-- A complaint is about one of the tokens, the end of the input included. -/
theorem Program.parse_isAbout {tokens : List Token} {fault : SyntaxFault}
    (failed : Program.parse tokens = .error fault) : ∃ token ∈ (TokenStream.ofTokens tokens).tokens,
      fault.found = token.lexeme ∧ fault.span = token.span := by
  unfold Program.parse Parser.run at failed
  cases answer : Parser.program (Parser.fuelFor (.ofTokens tokens)) (.ofTokens tokens) with
  | ok found =>
    rw [answer] at failed
    cases failed
  | error e =>
    rw [answer] at failed
    obtain rfl := Except.error.inj failed
    obtain ⟨s, follows, isFound, isSpan⟩ := (Parser.moves_program _ _).2 e answer
    have among := (TokenStream.IsAmong.ofTokens tokens).follows follows
    obtain ⟨token, mem, sameLexeme, sameSpan⟩ := among.left _ among.current_mem
    exact ⟨token, mem, isFound.trans sameLexeme, isSpan.trans sameSpan⟩

end Minifier
