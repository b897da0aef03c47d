import Mathlib.Data.List.Basic
import Minifier.Token.Scan

/-!
# Texts that are read as given lexemes

`Reads` says of a text that it falls into given lexemes, whatever was read before it. It is built up
from the end: a blank changes nothing (`Reads.space`), and a lexeme comes before what the rest of the
text is read as (`Reads.lexeme`). A whole text is then scanned as these lexemes and the end of the
input (`Reads.scan`).
-/

set_option autoImplicit false

namespace Minifier

/-- A character that starts a token, wherever a token may start. -/
def opensToken (c : Char) : Bool :=
  !Text.isLineTerminator c && !Text.isBlank c && c ≠ '\ufeff' && c ≠ '/'

/-- Tokens are the given lexemes and the end of the input, on one line. -/
structure Shows (lexemes : List Lexeme) (tokens : List Token) : Prop where
  lexemes_eq : tokens.map (·.lexeme) = lexemes ++ [.endOfInput]
  sameLine : ∀ token ∈ tokens.tail, token.newlineBefore = false

/-- A text is read as the given lexemes. Before the first token of all the line counts as new. -/
def Reads (text : List Char) (lexemes : List Lexeme) : Prop :=
  ∀ (fuel : Nat) (ctx : SlashContext) (before : List Token) (pos : Position), text.length < fuel →
    ∃ tokens, readTokens fuel ctx before ⟨pos, text⟩ = .ok (before.reverse ++ tokens) ∧
      Shows lexemes tokens ∧ ∀ token ∈ tokens, ctx.previous.isSome → token.newlineBefore = false

theorem readGap_opens {c : Char} (opens : opensToken c = true) (pos : Position) (cs : List Char) :
    readGap .blank {} pos (c :: cs) = .ok ({}, ⟨pos, c :: cs⟩) := by
  simp only [opensToken, Bool.and_eq_true, Bool.not_eq_true', decide_eq_true_eq, ne_eq] at opens
  obtain ⟨⟨⟨inLine, notBlank⟩, notMark⟩, notSlash⟩ := opens
  rw [readGap.eq_def]
  simp [inLine, notBlank, notMark, notSlash]

namespace Reads

variable {text rest : List Char} {lexemes : List Lexeme}

theorem nil : Reads [] [] := by
  intro fuel ctx before pos enough
  cases fuel with
  | zero => cases enough
  | succ fuel =>
    refine ⟨[⟨.endOfInput, pos.spanTo pos, ctx.previous.isNone, []⟩], ?_, ⟨rfl, by simp⟩, ?_⟩
    · simp [readTokens, readToken, readGap, readLexeme, bind, Except.bind, pure, Except.pure]
    · simp

theorem space (reads : Reads text lexemes) : Reads (' ' :: text) lexemes := by
  intro fuel ctx before pos enough
  cases fuel with
  | zero => cases enough
  | succ fuel => exact reads (fuel + 1) ctx before (pos.next ' ') (Nat.lt_of_succ_lt enough)

theorem lexeme {c : Char} {cs : List Char} {l : Lexeme} (opens : opensToken c = true)
    (read : ∀ regexAllowed pos, ∃ p,
      readLexeme regexAllowed ⟨pos, c :: cs ++ rest⟩ = .ok (l, ⟨p, rest⟩))
    (notEnd : l ≠ .endOfInput) (reads : Reads rest lexemes) :
    Reads (c :: cs ++ rest) (l :: lexemes) := by
  intro fuel ctx before pos enough
  cases fuel with
  | zero => cases enough
  | succ fuel =>
    obtain ⟨p, isRead⟩ := read ctx.regexAllowed pos
    let token : Token := ⟨l, pos.spanTo p, ctx.previous.isNone, []⟩
    have shorter : rest.length < fuel := by
      simp only [List.length_append, List.length_cons] at enough
      omega
    obtain ⟨tokens, isScanned, shows, sameLine⟩ :=
      reads fuel (ctx.push l) (token :: before) p shorter
    have first : readToken ctx ⟨pos, c :: cs ++ rest⟩ = .ok (token, ⟨p, rest⟩) := by
      have gap := readGap_opens opens pos (cs ++ rest)
      simp only [List.cons_append] at isRead ⊢
      simp [readToken, gap, isRead, bind, Except.bind, pure, Except.pure, token]
    refine ⟨token :: tokens, ?_, ⟨?_, fun t mem => sameLine t mem rfl⟩, fun t mem known => ?_⟩
    · simp only [readTokens, first, bind, Except.bind]
      rw [if_neg notEnd, isScanned]
      simp
    · simp [shows.lexemes_eq, token]
    · rcases List.mem_cons.mp mem with rfl | mem
      · simpa [token] using known
      · exact sameLine t mem rfl

theorem scan (reads : Reads text lexemes) :
    ∃ tokens, Token.scan (String.ofList text) = .ok tokens ∧ Shows lexemes tokens := by
  obtain ⟨tokens, isScanned, shows, -⟩ := reads (text.length + 1) {} [] .start (Nat.lt_succ_self _)
  refine ⟨tokens, ?_, shows⟩
  simpa [Token.scan, Cursor.ofText] using isScanned

end Reads

end Minifier
