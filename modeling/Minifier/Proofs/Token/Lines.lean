import Minifier.CommandLine.Message
import Minifier.Proofs.Token.Tiling

/-!
# Lines of tokens

The scanner counts line terminators one by one, while the lines that a user is shown end at line
feeds, with or without a carriage return before them. Both mean the same line for a token if and
only if line feeds are the only line terminators before it (`Token.scan_isShown_iff`). A carriage
return counts as a line of its own to the scanner, so where lines end with both, tokens are said to
be on lines that are not there (`scan_counts_returns`).
-/

set_option autoImplicit false

namespace Minifier

open List

namespace Position

theorem line_after (p : Position) (cs : List Char) :
    (p.after cs).line = p.line + cs.countP Text.isLineTerminator := by
  induction cs generalizing p with
  | nil => rfl
  | cons c cs ih =>
    show ((p.next c).after cs).line = _
    rw [ih, countP_cons, next]
    cases Text.isLineTerminator c with
    | true => simp only [if_true]; omega
    | false => simp

theorem column_after (p : Position) {cs : List Char}
    (inLine : ∀ c ∈ cs, Text.isLineTerminator c = false) :
    (p.after cs).column = p.column + cs.length := by
  induction cs generalizing p with
  | nil => rfl
  | cons c cs ih =>
    obtain ⟨here, more⟩ := forall_mem_cons.mp inLine
    show ((p.next c).after cs).column = _
    rw [ih _ more, next, here, length_cons]
    simp only [Bool.false_eq_true, if_false]
    omega

end Position

/-- A text is empty, or it ends with a line feed. -/
def EndsLine (cs : List Char) : Prop := cs = [] ∨ cs.getLast? = some '\n'

theorem EndsLine.tail {c : Char} {cs : List Char} (ends : EndsLine (c :: cs)) : EndsLine cs := by
  cases cs with
  | nil => exact .inl rfl
  | cons d cs => exact .inr (by simpa [EndsLine] using ends)

theorem EndsLine.column_eq {cs : List Char} (ends : EndsLine cs) :
    (Position.start.after cs).column = 1 := by
  obtain rfl | isLast := ends
  · rfl
  · obtain ⟨front, rfl⟩ := List.getLast?_eq_some_iff.mp isLast
    rw [Position.after_append]
    rfl

/-- A text as whole lines and the beginning of one more. -/
theorem exists_lastLine (cs : List Char) :
    ∃ earlier margin, cs = earlier ++ margin ∧ EndsLine earlier ∧ '\n' ∉ margin := by
  induction cs using List.reverseRecOn with
  | nil => exact ⟨[], [], rfl, .inl rfl, by simp⟩
  | append_singleton cs c ih =>
    by_cases isFeed : c = '\n'
    · exact ⟨cs ++ [c], [], by simp, .inr (by simp [isFeed]), by simp⟩
    · obtain ⟨earlier, margin, rfl, ends, inLine⟩ := ih
      exact ⟨earlier, margin ++ [c], by simp, ends, by simp [inLine, Ne.symm isFeed]⟩

namespace Text

theorem lines_ne_nil {cs : List Char} (nonempty : cs ≠ []) : lines cs ≠ [] := by
  fun_cases lines cs <;> simp_all

theorem lines_append (rest : List Char) {earlier : List Char} (ends : EndsLine earlier) :
    lines (earlier ++ rest) = lines earlier ++ lines rest ∧
      (lines earlier).length = earlier.count '\n' := by
  fun_induction lines earlier with
  | case1 => simp
  | case2 cs ih => simpa [lines] using ih ends.tail.tail
  | case3 cs ih => simpa [lines] using ih ends.tail
  | case4 c cs _ notFeed empty _ =>
    -- a text without lines is empty, and then it ends with `c`
    obtain rfl : cs = [] := Classical.byContradiction fun nonempty => lines_ne_nil nonempty empty
    simp [EndsLine] at ends
    exact absurd ends notFeed
  | case5 c cs notBoth notFeed line more isMore ih =>
    obtain ⟨whole, count⟩ := ih ends.tail
    cases cs with
    | nil => simp [lines] at isMore
    | cons d cs =>
      have goesOn : lines (d :: cs ++ rest) = line :: (more ++ lines rest) := by
        rw [whole, isMore, cons_append]
      constructor
      · rw [cons_append, lines, goesOn]
        · simp
        · intro cs' isReturn isFeed
          simp_all
        · exact notFeed
      · rw [count_cons_of_ne notFeed, ← count, isMore, length_cons, length_cons]

/-- What stands before a place in its line is shown before it. -/
theorem lines_margin {margin rest : List Char} (nonempty : rest ≠ [])
    (inLine : ∀ c ∈ margin, c ≠ '\n' ∧ c ≠ '\r') :
    ∃ line more, lines (margin ++ rest) = (margin ++ line) :: more := by
  induction margin with
  | nil =>
    obtain ⟨line, more, isMore⟩ := exists_cons_of_ne_nil (lines_ne_nil nonempty)
    exact ⟨line, more, isMore⟩
  | cons c margin ih =>
    obtain ⟨⟨notFeed, notReturn⟩, inLine⟩ := forall_mem_cons.mp inLine
    obtain ⟨line, more, isMore⟩ := ih inLine
    exact ⟨line, more, by simp [lines, notReturn, isMore]⟩

/-- Line feeds are line terminators, so there are at most as many of them, and as many only if
nothing else ends a line. -/
theorem count_feeds_eq_iff (cs : List Char) :
    cs.countP isLineTerminator = cs.count '\n' ↔ ∀ c ∈ cs, isLineTerminator c = true → c = '\n' := by
  have fewer (cs : List Char) : cs.count '\n' ≤ cs.countP isLineTerminator := by
    refine countP_mono_left fun c _ isFeed => ?_
    obtain rfl := beq_iff_eq.mp isFeed
    decide
  induction cs with
  | nil => simp
  | cons c cs ih =>
    have rest := fewer cs
    rw [countP_cons, count_cons, forall_mem_cons]
    by_cases isFeed : c = '\n'
    · subst isFeed
      have ends : isLineTerminator '\n' = true := by decide
      simpa [ends] using ih
    · cases ends : isLineTerminator c with
      | false => simpa [isFeed] using ih
      | true =>
        simp only [if_true, beq_iff_eq, isFeed, if_false, imp_false, not_true_eq_false, false_and,
          iff_false]
        omega

end Text

/-- A place is where a user is shown it: the line of its number is there, it is the one that its
offset lies in, and as many characters as its column says stand before it there. -/
def Span.IsShown (span : Span) (source : String) : Prop :=
  ∃ earlier margin line, takeBytes? span.start source.toList = some (earlier ++ margin) ∧
    EndsLine earlier ∧ '\n' ∉ margin ∧ span.line = earlier.count '\n' + 1 ∧
    (Text.lines source.toList)[span.line - 1]? = some (margin ++ line) ∧
    span.column = margin.length + 1

/-- Before a token stand the characters that its place counts, and some character stands after
them unless the input is over. -/
theorem Token.exists_before {source : String} {tokens : List Token} {token : Token}
    (isScanned : Token.scan source = .ok tokens) (mem : token ∈ tokens)
    (goesOn : token.lexeme ≠ .endOfInput) : ∃ before rest, source.toList = before ++ rest ∧
      rest ≠ [] ∧ token.span.start = (Position.start.after before).offset ∧
      token.span.line = (Position.start.after before).line ∧
      token.span.column = (Position.start.after before).column := by
  obtain ⟨text, before, after, isSource, isSpan⟩ :=
    ((Token.scan_isIn source).2 tokens isScanned token mem).covers
  have covers : token.span.Covers source text := ⟨before, after, isSource, isSpan⟩
  have isStart : token.span.start = (Position.start.after before).offset := by rw [isSpan]; rfl
  refine ⟨before, text ++ after, by simpa using isSource, fun isOver => ?_, isStart, ?_⟩
  · obtain ⟨earlier, later, rfl⟩ := append_of_mem mem
    obtain ⟨_, _, _, _, tile⟩ := (tiles_of_scan isScanned).2 earlier token later rfl
    have more := tile.start_lt_stop goesOn
    have inside := covers.stop_le.2
    rw [append_assoc, isOver, append_nil] at isSource
    rw [isStart, Position.offset_after, ← isSource, String.ofList_toList] at more
    exact absurd inside (Nat.not_le.mpr (by simpa [Position.start] using more))
  · rw [isSpan]
    exact ⟨rfl, rfl⟩

/-- A token is where a user is shown it if and only if line feeds alone end the lines before it. -/
theorem Token.scan_isShown_iff {source : String} {tokens : List Token} {token : Token}
    (isScanned : Token.scan source = .ok tokens) (mem : token ∈ tokens)
    (goesOn : token.lexeme ≠ .endOfInput) :
    ∃ before, takeBytes? token.span.start source.toList = some before ∧
      (token.span.IsShown source ↔ ∀ c ∈ before, Text.isLineTerminator c = true → c = '\n') := by
  obtain ⟨before, rest, isSource, goesOn, isStart, isLine, isColumn⟩ :=
    exists_before isScanned mem goesOn
  have isBefore : takeBytes? token.span.start source.toList = some before := by
    rw [isSource, isStart, Position.offset_after, Position.start, Nat.zero_add, takeBytes?_append]
  have isCount : token.span.line = 1 + before.countP Text.isLineTerminator :=
    isLine.trans (Position.line_after _ _)
  refine ⟨before, isBefore, fun isShown => ?_, fun feeds => ?_⟩
  · obtain ⟨earlier, margin, _, isBefore', _, inLine, isNumber, _⟩ := isShown
    obtain rfl : before = earlier ++ margin := Option.some.inj (isBefore.symm.trans isBefore')
    rw [← Text.count_feeds_eq_iff, count_append, count_eq_zero.mpr inLine]
    omega
  · obtain ⟨earlier, margin, rfl, ends, inLine⟩ := exists_lastLine before
    -- characters of the last line end no line, so they are neither line feeds nor returns
    have quiet : ∀ c ∈ margin, Text.isLineTerminator c = false := fun c mem =>
      Bool.eq_false_iff.mpr fun isEnd =>
        inLine (feeds c (mem_append_right _ mem) isEnd ▸ mem)
    have plain : ∀ c ∈ margin, c ≠ '\n' ∧ c ≠ '\r' := fun c mem => by
      have notEnd := quiet c mem
      constructor <;> rintro rfl <;> exact absurd notEnd (by decide)
    have isNumber : token.span.line = earlier.count '\n' + 1 := by
      rw [isCount, (Text.count_feeds_eq_iff _).mpr feeds, count_append, count_eq_zero.mpr inLine]
      omega
    obtain ⟨line, more, isMore⟩ := Text.lines_margin goesOn plain
    obtain ⟨whole, count⟩ := Text.lines_append (margin ++ rest) ends
    refine ⟨earlier, margin, line, isBefore, ends, inLine, isNumber, ?_, ?_⟩
    · rw [isSource, append_assoc, whole, isMore, isNumber, Nat.add_sub_cancel, ← count]
      simp
    · rw [isColumn, Position.after_append, Position.column_after _ quiet, ends.column_eq]
      omega

/-- The second token of a text of two lines, behind a blank. -/
theorem scan_isShown_iff_second : ∃ tokens token, Token.scan "x\n yy" = .ok tokens ∧
    token ∈ tokens ∧ token.lexeme ≠ .endOfInput ∧ token.span = ⟨3, 5, 2, 2⟩ ∧
    token.span.IsShown "x\n yy" := by
  have isScanned : Token.scan "x\n yy" = .ok [⟨.identifier "x", ⟨0, 1, 1, 1⟩, true, []⟩,
      ⟨.identifier "yy", ⟨3, 5, 2, 2⟩, true, []⟩, ⟨.endOfInput, ⟨5, 5, 2, 4⟩, false, []⟩] := by
    decide +kernel
  obtain ⟨before, isBefore, isShown_iff⟩ :=
    Token.scan_isShown_iff isScanned (.tail _ (.head _)) (by decide)
  refine ⟨_, _, isScanned, .tail _ (.head _), by decide, rfl, isShown_iff.mpr ?_⟩
  obtain rfl : before = ['x', '\n', ' '] := Option.some.inj (isBefore.symm.trans (by decide +kernel))
  simp [Text.isLineTerminator]

/-- A line that ends with a return and a feed counts twice, so the token of the second line is said
to be on a line that is not there. -/
theorem scan_counts_returns : ∃ tokens token, Token.scan "a\r\nb" = .ok tokens ∧
    token ∈ tokens ∧ token.lexeme ≠ .endOfInput ∧
    (Text.lines "a\r\nb".toList)[token.span.line - 1]? = none ∧
    ¬ token.span.IsShown "a\r\nb" := by
  have isScanned : Token.scan "a\r\nb" = .ok [⟨.identifier "a", ⟨0, 1, 1, 1⟩, true, []⟩,
      ⟨.identifier "b", ⟨3, 4, 3, 1⟩, true, []⟩, ⟨.endOfInput, ⟨4, 4, 3, 2⟩, false, []⟩] := by
    decide +kernel
  have isMissing : (Text.lines "a\r\nb".toList)[2]? = none := by decide
  refine ⟨_, ⟨.identifier "b", ⟨3, 4, 3, 1⟩, true, []⟩, isScanned, .tail _ (.head _), by decide,
    isMissing, fun isShown => ?_⟩
  obtain ⟨_, _, _, _, _, _, _, isThere, _⟩ := isShown
  cases isMissing.symm.trans isThere

end Minifier
