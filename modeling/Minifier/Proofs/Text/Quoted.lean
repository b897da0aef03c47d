import Mathlib.Data.List.Count
import Mathlib.Data.List.Perm.Basic
import Minifier.Proofs.Token.Reading
import Minifier.Text.Quoted

/-!
# String literals are read as written

The writer of string literals and their reader were made apart: one has a table of characters that
need an escape, the other an automaton over escapes. Here they meet. The escape of one character is
read as that character (`readString_literalChar`), and so a whole literal is read as the value it
was written for, up to its closing quote and no further (`readLexeme_quoted`). Alone it is one token
on one line, and with the other quotes it would have at least as many escapes (`scan_quoted`).

The only escape that looks ahead is that of the zero character. What comes after it in the literal
is a digit only if the next character of the value is one (`isDigit_head_literalChars`).
-/

set_option autoImplicit false

namespace Minifier

open List

open Text (literalChar literalChars quoteFor quoted)

variable {c : Char} (chars : List Char)

variable {quote : Char} {value : List Char} {pos : Position} {cs : List Char}

/-! ## One escape -/

/-- A character that means nothing after a backslash stands for itself there. -/
theorem readString_escape (simple : simpleEscape? c = none) (plain : c ∉ ['0', 'x', 'u', '\r'])
    (inLine : Text.isLineTerminator c = false) (notOctal : isOctalDigit c = false) :
    readString quote value pos ('\\' :: c :: cs) =
      readString quote (c :: value) (pos.after ['\\', c]) cs := by
  simp only [mem_cons, not_mem_nil, or_false, not_or] at plain
  rw [readString.eq_def]
  simp [simple, plain, inLine, notOctal]

theorem readString_simple {e : Char} (known : simpleEscape? c = some e) :
    readString quote value pos ('\\' :: c :: cs) =
      readString quote (e :: value) (pos.after ['\\', c]) cs := by
  rw [readString.eq_def]
  simp [known]

theorem readString_zero (noDigit : cs.head?.any Char.isDigit = false) :
    readString quote value pos ('\\' :: '0' :: cs) =
      readString quote ('\x00' :: value) (pos.after ['\\', '0']) cs := by
  rw [readString.eq_def]
  simp [simpleEscape?, noDigit]

theorem readString_hex {a b : Char} (hex : [a, b].all isHexDigit = true) :
    readString quote value pos ('\\' :: 'x' :: a :: b :: cs) =
      readString quote (charOfCode (ofHexDigits [a, b]) :: value)
        (pos.after ['\\', 'x', a, b]) cs := by
  rw [readString.eq_def]
  simp [simpleEscape?, hex]
  rfl

theorem readString_unicode {a b d e : Char} (hex : [a, b, d, e].all isHexDigit = true) :
    readString quote value pos ('\\' :: 'u' :: a :: b :: d :: e :: cs) =
      readString quote (charOfCode (ofHexDigits [a, b, d, e]) :: value)
        (pos.after ['\\', 'u', a, b, d, e]) cs := by
  rw [readString.eq_def]
  simp [simpleEscape?, hex]
  rfl

theorem readString_plain (notQuote : c ≠ quote) (notBackslash : c ≠ '\\')
    (inLine : Text.isLineTerminator c = false) :
    readString quote value pos (c :: cs) = readString quote (c :: value) (pos.next c) cs := by
  rw [readString.eq_def]
  simp [notQuote, notBackslash, inLine]

/-- The two digits that a code below the blank is written with. -/
def controlDigits (n : Nat) : List Char :=
  (if n < 0x10 then ['0'] else []) ++ Text.hexDigits n

theorem controlDigits_spec (n : Nat) (control : n < 0x20) : ∃ a b, controlDigits n = [a, b] ∧
    [a, b].all isHexDigit = true ∧ charOfCode (ofHexDigits [a, b]) = Char.ofNat n := by
  have checked : ∀ n < 0x20, (controlDigits n).length = 2 ∧
      (controlDigits n).all isHexDigit = true ∧
      charOfCode (ofHexDigits (controlDigits n)) = Char.ofNat n := by decide
  obtain ⟨two, hex, code⟩ := checked n control
  obtain ⟨a, b, digits⟩ := length_eq_two.mp two
  rw [digits] at hex code
  exact ⟨a, b, digits, hex, code⟩

/-- The code of a control character is read back from its two digits. -/
theorem readString_control (control : c.toNat < 0x20) :
    readString quote value pos ('\\' :: 'x' :: controlDigits c.toNat ++ cs) =
      readString quote (c :: value) (pos.after ('\\' :: 'x' :: controlDigits c.toNat)) cs := by
  obtain ⟨a, b, digits, hex, code⟩ := controlDigits_spec c.toNat control
  rw [digits]
  simp only [cons_append, nil_append]
  rw [readString_hex hex, code, Char.ofNat_toNat]

/-- The escape of one character is read as the character. -/
theorem readString_literalChar (isQuote : quote = '"' ∨ quote = '\'') (c : Char)
    (next : Option Char)
    (ahead : next.any Char.isDigit = false → cs.head?.any Char.isDigit = false) :
    readString quote value pos (literalChar quote c next ++ cs) =
      readString quote (c :: value) (pos.after (literalChar quote c next)) cs := by
  fun_cases literalChar quote c next <;> subst_vars
  case case1 => exact readString_escape rfl (by decide) rfl rfl
  case case2 | case3 | case4 | case5 | case6 => exact readString_simple rfl
  case case7 | case8 => exact readString_unicode rfl
  case case9 => exact readString_hex rfl
  case case10 noDigit _ _ _ _ _ _ _ _ => exact readString_zero (ahead (by simpa using noDigit))
  case case11 => rcases isQuote with rfl | rfl <;> exact readString_escape rfl (by decide) rfl rfl
  case case12 small =>
    have digits : ['\\', 'x', '0'] ++ Text.hexDigits c.toNat =
        '\\' :: 'x' :: controlDigits c.toNat := by simp [controlDigits, small]
    rw [digits]
    exact readString_control (Nat.lt_of_lt_of_le small (by decide))
  case case13 large small =>
    have digits : ['\\', 'x'] ++ Text.hexDigits c.toNat = '\\' :: 'x' :: controlDigits c.toNat := by
      simp [controlDigits, large]
    rw [digits]
    exact readString_control small
  case case14 notBackslash notNewline notReturn _ _ _ notLine notParagraph _ notQuote _ _ =>
    refine readString_plain notQuote notBackslash ?_
    simp [Text.isLineTerminator, notNewline, notReturn, notLine, notParagraph]

/-! ## Whole literals -/

/-- A literal goes on with a digit only if the value does. -/
theorem isDigit_head_literalChars (isQuote : quote = '"' ∨ quote = '\'') (chars rest : List Char)
    (noDigit : chars.head?.any Char.isDigit = false) :
    (literalChars quote chars ++ quote :: rest).head?.any Char.isDigit = false := by
  cases chars with
  | nil => rcases isQuote with rfl | rfl <;> rfl
  | cons c chars =>
    simp only [literalChars]
    fun_cases literalChar quote c chars.head? <;> first | rfl | simpa using noDigit

/-- The characters between the quotes are read as the value, up to the closing quote. -/
theorem readString_literalChars (isQuote : quote = '"' ∨ quote = '\'') (rest : List Char) :
    ∀ (chars value : List Char) (pos : Position),
      readString quote value pos (literalChars quote chars ++ quote :: rest) =
        .ok (value.reverse ++ chars, ⟨pos.after (literalChars quote chars ++ [quote]), rest⟩) := by
  intro chars
  induction chars with
  | nil =>
    intro value pos
    rw [readString.eq_def]
    rcases isQuote with rfl | rfl <;> simp [literalChars, Position.after]
  | cons c chars ih =>
    intro value pos
    simp only [literalChars, append_assoc]
    rw [readString_literalChar isQuote c _ (isDigit_head_literalChars isQuote chars rest), ih]
    simp [Position.after]

theorem quoteFor_cases : quoteFor chars = '"' ∨ quoteFor chars = '\'' := by
  unfold quoteFor
  split
  · exact .inr rfl
  · exact .inl rfl

/-- A string literal is read as its value, whatever comes after it. -/
theorem readLexeme_quoted (value : String) (regexAllowed : Bool) (pos : Position)
    (rest : List Char) :
    readLexeme regexAllowed ⟨pos, quoted value.toList ++ rest⟩ =
      .ok (.string value, ⟨pos.after (quoted value.toList), rest⟩) := by
  have read := readString_literalChars (quoteFor_cases value.toList) rest value.toList []
    (pos.next (quoteFor value.toList))
  have isText : quoted value.toList ++ rest = quoteFor value.toList ::
      (literalChars (quoteFor value.toList) value.toList ++ quoteFor value.toList :: rest) := by
    simp [quoted]
  have ends : pos.after (quoted value.toList) = (pos.next (quoteFor value.toList)).after
      (literalChars (quoteFor value.toList) value.toList ++ [quoteFor value.toList]) := rfl
  rw [isText, ends]
  unfold readLexeme
  rcases quoteFor_cases value.toList with isQuote | isQuote <;> rw [isQuote] at read ⊢ <;>
    simp [isIdentifierStart, Text.isAlphabetic, startsNumber, read]

/-! ## The choice of quotes -/

/-- What is written for a character stays on its line. -/
theorem inLine_literalChar (isQuote : quote = '"' ∨ quote = '\'') (c : Char) (next : Option Char) :
    (literalChar quote c next).any Text.isLineTerminator = false := by
  have control : ∀ n < 0x20, (Text.hexDigits n).any Text.isLineTerminator = false := by decide
  fun_cases literalChar quote c next
  case case11 isChar => rcases isQuote with rfl | rfl <;> subst isChar <;> decide
  case case12 small =>
    rw [any_append, control c.toNat (Nat.lt_of_lt_of_le small (by decide))]
    decide
  case case13 small =>
    rw [any_append, control c.toNat small]
    decide
  case case14 notNewline notReturn _ _ _ notLine notParagraph _ _ _ _ =>
    simp [Text.isLineTerminator, notNewline, notReturn, notLine, notParagraph]
  all_goals decide

theorem inLine_literalChars (isQuote : quote = '"' ∨ quote = '\'') (chars : List Char) :
    (literalChars quote chars).any Text.isLineTerminator = false := by
  induction chars with
  | nil => rfl
  | cons c chars ih =>
    rw [literalChars, any_append, inLine_literalChar isQuote c chars.head?, ih]
    rfl

theorem literalChar_of_ne (notDouble : c ≠ '"') (notSingle : c ≠ '\'') (next : Option Char) :
    literalChar '"' c next = literalChar '\'' c next := by
  simp only [literalChar, if_neg notDouble, if_neg notSingle]

/-- The two kinds of quotes differ in the escapes of the quotes that the value has. -/
theorem perm_literalChars :
    List.Perm (literalChars '"' chars ++ List.replicate (chars.count '\'') '\\')
      (literalChars '\'' chars ++ List.replicate (chars.count '"') '\\') := by
  induction chars with
  | nil => exact .refl _
  | cons c chars ih =>
    simp only [literalChars, append_assoc]
    by_cases isDouble : c = '"'
    · subst isDouble
      have escaped : literalChar '"' '"' chars.head? = ['\\', '"'] := rfl
      have plain : literalChar '\'' '"' chars.head? = ['"'] := rfl
      rw [escaped, plain, count_cons_self, count_cons_of_ne (by decide), replicate_succ]
      exact (List.Perm.swap _ _ _).trans ((ih.cons _).trans perm_middle.symm |>.cons _)
    by_cases isSingle : c = '\''
    · subst isSingle
      have escaped : literalChar '\'' '\'' chars.head? = ['\\', '\''] := rfl
      have plain : literalChar '"' '\'' chars.head? = ['\''] := rfl
      rw [escaped, plain, count_cons_self, count_cons_of_ne (by decide), replicate_succ]
      exact ((perm_middle.trans (ih.cons _)).cons _).trans (List.Perm.swap _ _ _)
    · rw [literalChar_of_ne isDouble isSingle, count_cons_of_ne isDouble, count_cons_of_ne isSingle]
      exact ih.append_left _

/-- The quotes that a literal gets need as few escapes as the others would. -/
theorem escapes_quoteFor (isQuote : quote = '"' ∨ quote = '\'') :
    (literalChars (quoteFor chars) chars).count '\\' ≤ (literalChars quote chars).count '\\' ∧
      (literalChars (quoteFor chars) chars).length ≤ (literalChars quote chars).length := by
  have escapes := (perm_literalChars chars).count_eq '\\'
  have lengths := (perm_literalChars chars).length_eq
  simp only [count_append, count_replicate_self] at escapes
  simp only [length_append, length_replicate] at lengths
  unfold quoteFor
  split <;> rcases isQuote with rfl | rfl <;> omega

/-- The token of a literal is the string that it is for, it is on one line, and no other quotes
would need fewer escapes. -/
theorem scan_quoted (value : String) :
    (∃ token stop, Token.scan (String.ofList (quoted value.toList)) = .ok [token, stop] ∧
      token.lexeme = .string value ∧ stop.lexeme = .endOfInput) ∧
    (∀ c ∈ quoted value.toList, Text.isLineTerminator c = false) ∧
    ∀ quote ∈ ['"', '\''],
      (literalChars (quoteFor value.toList) value.toList).count '\\' ≤
          (literalChars quote value.toList).count '\\' ∧
        (quoted value.toList).length ≤
          (quote :: literalChars quote value.toList ++ [quote]).length := by
  have isQuote := quoteFor_cases value.toList
  refine ⟨?_, ?_, ?_⟩
  · have opens : opensToken (quoteFor value.toList) = true := by
      rcases isQuote with isQuote | isQuote <;> rw [isQuote] <;> rfl
    have reads : Reads (quoted value.toList ++ []) [.string value] :=
      Reads.nil.lexeme opens
        (fun regexAllowed pos => ⟨_, readLexeme_quoted value regexAllowed pos []⟩) nofun
    obtain ⟨tokens, isScanned, shows⟩ := reads.scan
    rw [append_nil] at isScanned
    obtain ⟨token, rest, rfl, isToken, isRest⟩ := map_eq_cons_iff.mp shows.lexemes_eq
    obtain ⟨stop, rfl, isStop⟩ := map_eq_singleton_iff.mp isRest
    exact ⟨token, stop, isScanned, isToken, isStop⟩
  · have quoteInLine : Text.isLineTerminator (quoteFor value.toList) = false := by
      rcases isQuote with isQuote | isQuote <;> rw [isQuote] <;> rfl
    have inLine : (quoted value.toList).any Text.isLineTerminator = false := by
      simp [quoted, quoteInLine, inLine_literalChars isQuote value.toList]
    exact fun c mem => Bool.eq_false_iff.mpr (any_eq_false.mp inLine c mem)
  · intro quote mem
    have fewer := escapes_quoteFor value.toList (by simpa using mem : quote = '"' ∨ quote = '\'')
    simpa [quoted] using fewer

/-- An apostrophe is not escaped, since double quotes are there to be used. -/
theorem scan_quoted_apostrophe :
    quoted "can't".toList = "\"can't\"".toList ∧
      (literalChars (quoteFor "can't".toList) "can't".toList).count '\\' ≤
        (literalChars '\'' "can't".toList).count '\\' :=
  ⟨by decide, ((scan_quoted "can't").2.2 '\'' (by decide)).1⟩

end Minifier
