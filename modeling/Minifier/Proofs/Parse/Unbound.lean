import Minifier.Proofs.Parse.Rules
import Minifier.Proofs.Scope.Bind
import Minifier.Token.Scan

/-!
# Programs as they are read

A parser takes the names of a program from the identifiers that it reads, binds none of them, and makes
no `var` statement that declares nothing (`Program.isRead_of_parse`). No identifier has a blank in it, so
a program that was read has plain names, none of them bound to anything (`Program.isUnbound_of_parse`).
-/

set_option autoImplicit false

namespace Minifier

open ScopeTree (IsPlain)

/-- Nodes as a parser makes them, with plain names. -/
def namesAre (plain : String → Prop) : Parser.NameLaw where
  plain := plain
  fits := Node.IsRead plain
  read _ isRead := isRead
  widened form _ _ isRead := by simpa [Node.isRead_iff] using isRead

theorem not_isIdentifierPart_blank : isIdentifierPart ' ' = false := by decide

theorem isPlain_takeWhile (cs : List Char) :
    IsPlain (String.ofList (cs.takeWhile isIdentifierPart)) := by
  intro mem
  rw [String.toList_ofList] at mem
  have isPart := List.all_eq_true.mp List.all_takeWhile _ mem
  rw [not_isIdentifierPart_blank] at isPart
  cases isPart

theorem hasPlainName_ofWord {word : List Char} (plain : IsPlain (String.ofList word)) :
    (namesAre IsPlain).Plain (Lexeme.ofWord word) := by
  unfold Lexeme.ofWord
  intro name isName
  dsimp only at isName
  split at isName
  · cases isName
  · cases isName
    exact plain

theorem hasPlainName_of_readLexeme {regexAllowed : Bool} {cur after : Cursor} {l : Lexeme}
    (found : readLexeme regexAllowed cur = .ok (l, after)) : (namesAre IsPlain).Plain l := by
  unfold readLexeme at found
  split at found
  · cases found
    exact fun _ isName => (nomatch isName)
  split at found
  · cases found
    exact hasPlainName_ofWord (isPlain_takeWhile _)
  -- no other lexeme is an identifier
  simp only [bind, Except.bind, pure, Except.pure] at found
  intro name isName
  subst isName
  repeat' split at found
  all_goals cases found

theorem hasPlainName_of_readToken {ctx : SlashContext} {cur after : Cursor} {token : Token}
    (found : readToken ctx cur = .ok (token, after)) : (namesAre IsPlain).Plain token.lexeme := by
  simp only [readToken, bind, Except.bind] at found
  split at found
  · cases found
  split at found
  · cases found
  · rename_i isRead
    cases found
    exact hasPlainName_of_readLexeme isRead

theorem hasPlainNames_of_readTokens {fuel : Nat} {ctx : SlashContext} {before tokens : List Token}
    {cur : Cursor} (found : readTokens fuel ctx before cur = .ok tokens)
    (plain : ∀ token ∈ before, (namesAre IsPlain).Plain token.lexeme) :
    ∀ token ∈ tokens, (namesAre IsPlain).Plain token.lexeme := by
  induction fuel generalizing ctx before cur with
  | zero =>
    cases found
    exact fun token mem => plain token (List.mem_reverse.mp mem)
  | succ fuel ih =>
    simp only [readTokens, bind, Except.bind] at found
    split at found
    · cases found
    · rename_i r isRead
      obtain ⟨next, after⟩ := r
      have all : ∀ token ∈ next :: before, (namesAre IsPlain).Plain token.lexeme :=
        List.forall_mem_cons.mpr ⟨hasPlainName_of_readToken isRead, plain⟩
      dsimp only at found
      split at found
      · cases found
        exact fun token mem => all token (List.mem_reverse.mp mem)
      · exact ih found all

/-- If something is known of the names of identifiers, it is known of the names of a program, and all
its nodes are as a parser makes them. -/
theorem Program.isRead_of_parse {plain : String → Prop} {tokens : List Token} {p : Program}
    (names : ∀ token ∈ tokens, (namesAre plain).Plain token.lexeme)
    (isParsed : Program.parse tokens = .ok p) : ∀ n ∈ p.nodes, n.IsRead plain := by
  have isPlain : (namesAre plain).PlainStream (TokenStream.ofTokens tokens) := by
    have noName : (namesAre plain).Plain .endOfInput := fun _ isName => (nomatch isName)
    unfold TokenStream.ofTokens
    split
    · split
      · exact names
      · intro token mem
        rcases List.mem_append.mp mem with old | new
        · exact names token old
        · rw [List.mem_singleton.mp new]
          exact noName
    · intro token mem
      rw [List.mem_singleton.mp mem]
      exact noName
  unfold Program.parse Parser.run at isParsed
  cases answer : Parser.program (Parser.fuelFor (.ofTokens tokens)) (.ofTokens tokens) with
  | error e => simp [answer, Except.map] at isParsed
  | ok r =>
    obtain ⟨q, s⟩ := r
    simp only [answer, Except.map, Except.ok.injEq] at isParsed
    subst isParsed
    exact ((Parser.ends_program _ _ _ isPlain).reads _ _ answer).2.1

/-- A program that was read has plain names, and nothing in it is bound. -/
theorem Program.isUnbound_of_parse {source : String} {tokens : List Token} {p : Program}
    (isScanned : Token.scan source = .ok tokens) (isParsed : Program.parse tokens = .ok p) :
    p.IsUnbound := by
  have names := hasPlainNames_of_readTokens isScanned fun _ mem => (nomatch mem)
  intro mark mem
  obtain ⟨n, mem, isMark⟩ := List.mem_filterMap.mp mem
  have isRead := Program.isRead_of_parse names isParsed n mem
  unfold Node.mark? at isMark
  split at isMark
  · cases isMark
    exact isRead.ident _ rfl
  · cases isMark
    exact isRead.use _ _ rfl
  · rw [isRead.function _ rfl] at isMark
    cases isMark
  · rw [isRead.catchClause _ rfl] at isMark
    cases isMark
  · rw [isRead.withObject _ _ _ _ rfl] at isMark
    cases isMark
  · cases isMark

/-- Whether a text can be read. -/
def Program.isReadable (source : String) : Bool :=
  match Token.scan source with
  | .ok tokens => (Program.parse tokens).isOk
  | .error _ => false

theorem Program.exists_of_isReadable {source : String} (isReadable : Program.isReadable source = true) :
    ∃ tokens p, Token.scan source = .ok tokens ∧ Program.parse tokens = .ok p := by
  unfold Program.isReadable at isReadable
  split at isReadable
  · rename_i tokens isScanned
    cases isParsed : Program.parse tokens with
    | error _ => simp [isParsed, Except.isOk, Except.toBool] at isReadable
    | ok p => exact ⟨tokens, p, isScanned, isParsed⟩
  · cases isReadable

end Minifier
