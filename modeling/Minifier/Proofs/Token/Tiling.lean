import Mathlib.Data.List.Infix
import Minifier.Proofs.Token.Place

/-!
# Tokens tile the source

A source is a sequence of tokens with gaps between them. A gap is made of blanks: white space, line
terminators, byte-order marks and whole comments (`Blank`). Nothing is lost and nothing is read
twice: the text of a source is that of its gaps and tokens in turn, and what a token says about the
gap before it can be read off that gap (`Token.scan_tiles`).
-/

set_option autoImplicit false

namespace Minifier

open List

variable {source : String} {cur' after : Cursor} {pos : Position} {cs body word read : List Char}
  (gap : Gap)

/-! ## Blanks -/

/-- A piece of a gap. The bodies of comments are without their delimiters. -/
inductive Blank where
  | space (c : Char)
  | lineComment (body : List Char)
  | blockComment (body : List Char)

namespace Blank

def text : Blank → List Char
  | space c => [c]
  | lineComment body => '/' :: '/' :: body
  | blockComment body => '/' :: '*' :: (body ++ ['*', '/'])

/-- A line comment goes to the end of its line, and a block comment to the first mark that ends
it. -/
def IsWhole (following : List Char) : Blank → Prop
  | space c => Text.isLineTerminator c = true ∨ Text.isBlank c = true ∨ c = '\ufeff'
  | lineComment body => (∀ c ∈ body, Text.isLineTerminator c = false) ∧
      ∀ c ∈ following.head?, Text.isLineTerminator c = true
  | blockComment body => ¬ ['*', '/'] <:+: body

/-- The comment that a blank is, if it survives. -/
def kept? : Blank → Option (CommentKind × String)
  | blockComment body =>
    let text := (blockComment body).text
    if ['/', '*', '!'] <+: text then some (.important, String.ofList text)
    else if ['/', '*', '@'] <+: text ∧ ['@', '*', '/'] <:+ text ∧
        6 ≤ (String.ofList text).utf8ByteSize then
      some (.conditional, String.ofList text)
    else none
  | _ => none

end Blank

/-- The text of a gap. -/
def gapText (gap : List Blank) : List Char := gap.flatMap Blank.text

/-- All blanks of a gap are whole, given the text after it. -/
def AreWhole (following : List Char) : List Blank → Prop
  | [] => True
  | blank :: gap => blank.IsWhole (gapText gap ++ following) ∧ AreWhole following gap

/-! ## Crossing a gap -/

/-- What a comment is, apart from its place. -/
def Comment.content (c : Comment) : CommentKind × String := (c.kind, c.text)

theorem length_le_utf8ByteSize (cs : List Char) : cs.length ≤ (String.ofList cs).utf8ByteSize := by
  induction cs with
  | nil => exact Nat.zero_le _
  | cons c cs ih =>
    have positive := c.utf8Size_pos
    rw [utf8ByteSize_ofList_cons, length_cons]
    omega

/-- A comment that starts with `/*@` is as long in bytes as in characters if it is short. -/
theorem six_le_length_iff (opens : ['/', '*', '@'] <+: (Blank.blockComment body).text) :
    6 ≤ (Blank.blockComment body).text.length ↔
      6 ≤ (String.ofList (Blank.blockComment body).text).utf8ByteSize := by
  refine ⟨fun long => Nat.le_trans long (length_le_utf8ByteSize _), fun long => ?_⟩
  match body with
  | [] | [c] =>
    simp [Blank.text] at opens <;> subst opens <;> exact absurd long (by decide)
  | c :: d :: body => simp [Blank.text]

theorem Gap.newline_addComment (text : List Char) (span : Span) :
    (gap.addComment text span).newline = gap.newline := by
  unfold addComment
  dsimp only
  split
  · rfl
  · split <;> rfl

/-- A block comment is added to a gap if it survives. -/
theorem Gap.content_addComment (body : List Char) (span : Span) :
    (gap.addComment (Blank.blockComment body).text span).comments.map Comment.content =
      gap.comments.map Comment.content ++ (Blank.blockComment body).kept?.toList := by
  have short := @six_le_length_iff body
  simp only [addComment, Blank.kept?]
  generalize (Blank.blockComment body).text = text at short
  have isImportant : "/*!".toList.isPrefixOf text = true ↔ ['/', '*', '!'] <+: text :=
    isPrefixOf_iff_prefix
  have isConditional : ("/*@".toList.isPrefixOf text && "@*/".toList.isSuffixOf text &&
      decide (6 ≤ text.length)) = true ↔ ['/', '*', '@'] <+: text ∧ ['@', '*', '/'] <:+ text ∧
        6 ≤ (String.ofList text).utf8ByteSize := by
    simp only [Bool.and_eq_true, isPrefixOf_iff_prefix, isSuffixOf_iff_suffix,
      decide_eq_true_eq, and_assoc]
    exact and_congr_right fun opens => and_congr_right fun _ => short opens
  simp only [isImportant, isConditional]
  split
  · simp [Comment.content]
  · split <;> simp [Comment.content]

/-- A reader has crossed some blanks, and knows what they bring. -/
structure Crosses (gap : Gap) (cur : Cursor) (blanks : List Blank) (gap' : Gap) (cur' : Cursor) :
    Prop where
  passes : cur.Passes (gapText blanks) cur'
  whole : AreWhole cur'.rest blanks
  newline : gap'.newline = (gap.newline || (gapText blanks).any Text.isLineTerminator)
  comments : gap'.comments.map Comment.content =
    gap.comments.map Comment.content ++ blanks.filterMap Blank.kept?

theorem Crosses.refl (cur : Cursor) : Crosses gap cur [] gap cur :=
  ⟨.refl cur, trivial, by simp [gapText], by simp⟩

theorem Crosses.cons {gap gap₁ gap' : Gap} {cur cur₁ cur' : Cursor} {blanks : List Blank}
    {blank : Blank} (more : Crosses gap₁ cur₁ blanks gap' cur') (passes : cur.Passes blank.text cur₁)
    (whole : blank.IsWhole cur₁.rest)
    (newline : gap₁.newline = (gap.newline || blank.text.any Text.isLineTerminator))
    (comments : gap₁.comments.map Comment.content =
      gap.comments.map Comment.content ++ blank.kept?.toList) :
    Crosses gap cur (blank :: blanks) gap' cur' where
  passes := passes.trans more.passes
  whole := ⟨more.passes.rest ▸ whole, more.whole⟩
  newline := by rw [more.newline, newline, Bool.or_assoc, ← any_append]; rfl
  comments := by
    rw [more.comments, comments, append_assoc, filterMap_cons]
    cases blank.kept? <;> rfl

/-- What is ahead of a reader inside a gap. In a comment it is first the rest of that comment. -/
def GapState.Leads (gap : Gap) (cur : Cursor) (gap' : Gap) (cur' : Cursor) : GapState → Prop
  | .blank => ∃ blanks, Crosses gap cur blanks gap' cur'
  | .lineComment => ∃ body blanks mid, cur.Passes body mid ∧
      (Blank.lineComment body).IsWhole mid.rest ∧ Crosses gap mid blanks gap' cur'
  | .blockComment start text => ∃ body blanks mid, cur.Passes (body ++ ['*', '/']) mid ∧
      ¬ ['*', '/'] <:+: body ∧
      Crosses ({ gap with newline := gap.newline || body.any Text.isLineTerminator }.addComment
        (text.reverse ++ (body ++ ['*', '/'])) (start.spanTo mid.pos)) mid blanks gap' cur'

/-- A space, after which the gap goes on. -/
theorem GapState.Leads.space {gap gap₁ gap' : Gap} {c : Char}
    (leads : GapState.blank.Leads gap₁ ⟨pos.next c, cs⟩ gap' cur')
    (isSpace : (Blank.space c).IsWhole cs)
    (newline : gap₁.newline = (gap.newline || Text.isLineTerminator c))
    (comments : gap₁.comments = gap.comments) : GapState.blank.Leads gap ⟨pos, c :: cs⟩ gap' cur' := by
  obtain ⟨blanks, crosses⟩ := leads
  refine ⟨.space c :: blanks, crosses.cons (.past pos [c] cs) isSpace ?_ ?_⟩
  · simpa [Blank.text] using newline
  · simp [comments, Blank.kept?]

theorem readGap_leads {gap' : Gap} (state : GapState) (gap : Gap) (pos : Position) (cs : List Char)
    (found : readGap state gap pos cs = .ok (gap', cur')) : state.Leads gap ⟨pos, cs⟩ gap' cur' := by
  fun_induction readGap state gap pos cs with
  | case1 | case6 =>
    cases found
    exact ⟨[], .refl _ _⟩
  | case2 gap pos cs ih =>
    obtain ⟨body, blanks, mid, passes, whole, crosses⟩ := ih found
    have inLine : body.any Text.isLineTerminator = false := by simpa using whole.1
    have slash : Text.isLineTerminator '/' = false := by decide
    refine ⟨.lineComment body :: blanks, crosses.cons (.trans (.past pos ['/', '/'] cs) passes) whole ?_ ?_⟩
    · simp [Blank.text, inLine, slash]
    · simp [Blank.kept?]
  | case3 gap pos cs ih =>
    obtain ⟨body, blanks, mid, passes, whole, crosses⟩ := ih found
    refine ⟨.blockComment body :: blanks, crosses.cons (.trans (.past pos ['/', '*'] cs) passes) whole ?_ ?_⟩
    · have slash : Text.isLineTerminator '/' = false := by decide
      have star : Text.isLineTerminator '*' = false := by decide
      simp [Gap.newline_addComment, Blank.text, slash, star]
    · exact Gap.content_addComment _ body _
  | case4 gap pos c cs _ _ isEnd ih => exact (ih found).space (.inl isEnd) (by simp [isEnd]) rfl
  | case5 gap pos c cs _ _ inLine isSpace ih =>
    refine (ih found).space (.inr (by simpa using isSpace)) ?_ rfl
    simp [eq_false_of_ne_true inLine]
  | case7 gap pos =>
    cases found
    exact ⟨[], [], ⟨pos, []⟩, .refl _, ⟨by simp, by simp⟩, .refl _ _⟩
  | case8 gap pos c cs isEnd ih =>
    have leads : GapState.blank.Leads gap ⟨pos, c :: cs⟩ gap' cur' :=
      (ih found).space (.inl isEnd) (by simp [isEnd]) rfl
    obtain ⟨blanks, crosses⟩ := leads
    exact ⟨[], blanks, _, .refl _, ⟨by simp, by simpa using isEnd⟩, crosses⟩
  | case9 gap pos c cs inLine ih =>
    obtain ⟨body, blanks, mid, passes, whole, crosses⟩ := ih found
    refine ⟨c :: body, blanks, mid, .trans (.past pos [c] cs) passes, ⟨?_, whole.2⟩, crosses⟩
    exact forall_mem_cons.mpr ⟨eq_false_of_ne_true inLine, whole.1⟩
  | case10 => cases found
  | case11 start text gap pos cs stop ih =>
    obtain ⟨blanks, crosses⟩ := ih found
    refine ⟨[], blanks, _, .past pos ['*', '/'] cs, by simp, ?_⟩
    simpa using crosses
  | case12 start text gap pos c cs notEnd ih =>
    obtain ⟨body, blanks, mid, passes, whole, crosses⟩ := ih found
    have first : Cursor.Passes ⟨pos, c :: cs⟩ [c] ⟨pos.next c, cs⟩ := .past pos [c] cs
    refine ⟨c :: body, blanks, mid, first.trans passes, ?_, ?_⟩
    · -- the mark that ends the comment does not start at `c`
      intro isInside
      rcases infix_cons_iff.mp isInside with starts | further
      · obtain ⟨left, isLeft⟩ := starts
        obtain ⟨rfl, rfl⟩ := List.cons.inj isLeft
        exact notEnd _ rfl passes.rest
      · exact whole further
    · simpa [Bool.or_assoc] using crosses

/-! ## Reading a lexeme -/

theorem of_bind_eq_ok {ε α β : Type} {m : Except ε α} {f : α → Except ε β} {b : β}
    (found : (m >>= f) = .ok b) : ∃ a, m = .ok a ∧ f a = .ok b := by
  cases m with
  | error e => cases found
  | ok a => exact ⟨a, rfl, found⟩

theorem Cursor.Bounds.length_le {α : Type} {cur : Cursor} {a : α} {reading : Reading (α × Cursor)}
    (bounds : cur.Bounds reading) (found : reading = .ok (a, after)) :
    after.rest.length ≤ cur.rest.length := by
  subst found
  obtain ⟨read, passes⟩ := bounds
  simp [passes.rest]

/-- A literal that starts with its point. -/
theorem length_readDecimal {d : Decimal} (found : readDecimal [] ⟨pos, '.' :: cs⟩ = .ok (d, after)) :
    after.rest.length ≤ cs.length := by
  have bounds : Cursor.Bounds _ (readDecimal [] ⟨pos, '.' :: cs⟩) :=
    bounds_afterPlaces [] _ (Cursor.takeWhile Char.isDigit ⟨pos.next '.', cs⟩).2
  exact Nat.le_trans (bounds.length_le found) (dropWhile_suffix _).length_le

/-- A number takes at least one character. -/
theorem length_readNumber {cur : Cursor} {value : Number} (starts : startsNumber cur.rest = true)
    (found : readNumber cur = .ok (value, after)) : after.rest.length < cur.rest.length := by
  have hexadecimal : ∀ (mark : Char) (rest : List Char), cur.rest = '0' :: mark :: rest →
      readNumber.hexadecimal cur mark = .ok (value, after) → after.rest.length < cur.rest.length := by
    intro mark rest isRest found
    unfold readNumber.hexadecimal at found
    dsimp only at found
    split at found
    · cases found
    · rename_i digits after' _ isTaken
      cases found
      have isAfter : after = _ := congrArg Prod.snd isTaken.symm
      rw [isAfter, isRest]
      exact Nat.lt_succ_of_le (Nat.le_succ_of_le (dropWhile_suffix _).length_le)
  unfold readNumber at found
  split at found
  · exact hexadecimal 'x' _ ‹_› found
  · exact hexadecimal 'X' _ ‹_› found
  · dsimp only at found
    have whole := Cursor.Passes.takeWhile Char.isDigit cur
    generalize isTaken : cur.takeWhile Char.isDigit = taken at whole found
    obtain ⟨digits, mid⟩ := taken
    have total : cur.rest.length = digits.length + mid.rest.length := by simp [whole.rest]
    split at found
    · cases found
      simp_all only [Bool.and_eq_true, decide_eq_true_eq]
      omega
    · obtain ⟨⟨d, after'⟩, isRead, isFound⟩ := of_bind_eq_ok found
      cases isFound
      cases digits with
      | nil =>
        -- the literal starts with its point
        obtain ⟨pos, rest⟩ := mid
        have isRest : cur.rest = rest := whole.rest
        have noDigit : cur.rest.takeWhile Char.isDigit = [] := congrArg Prod.fst isTaken
        have isPoint : ∃ cs, rest = '.' :: cs := by
          rw [isRest] at starts noDigit
          unfold startsNumber at starts
          split at starts
          · exact ⟨_, rfl⟩
          · rw [takeWhile_cons, if_pos starts] at noDigit
            cases noDigit
          · cases starts
        obtain ⟨cs, rfl⟩ := isPoint
        rw [isRest]
        exact Nat.lt_succ_of_le (length_readDecimal isRead)
      | cons digit digits =>
        have short := (bounds_readDecimal _ mid).length_le isRead
        simp only [length_cons] at total ⊢
        omega

/-- A word is its own text. -/
theorem propertyName?_ofWord {name : String} (isName : (Lexeme.ofWord word).propertyName? = some name) :
    String.ofList word = name := by
  unfold Lexeme.ofWord at isName
  dsimp only at isName
  split at isName
  · rename_i keyword isKeyword
    have isText := List.find?_some isKeyword
    cases isName
    simpa using (of_decide_eq_true isText).symm
  · cases isName
    rfl

theorem readLexeme_reads {regexAllowed : Bool} {cur : Cursor} {l : Lexeme}
    (found : readLexeme regexAllowed cur = .ok (l, after)) :
    ∃ read, cur.Passes read after ∧ (l = .endOfInput ↔ cur.rest = []) ∧ (read = [] ↔ cur.rest = []) ∧
      ∀ name, l.propertyName? = some name → String.ofList read = name := by
  obtain ⟨read, passes⟩ : ∃ read, cur.Passes read after := by
    have bounds := bounds_readLexeme regexAllowed cur
    rwa [found] at bounds
  obtain ⟨pos, rest⟩ := cur
  cases rest with
  | nil =>
    cases found
    exact ⟨[], .refl _, by simp, by simp, fun _ isName => (nomatch isName)⟩
  | cons c cs =>
    suffices known : l ≠ .endOfInput ∧ after.rest.length < (c :: cs).length ∧
        ∀ name, l.propertyName? = some name → String.ofList read = name by
      refine ⟨read, passes, by simp [known.1], ?_, known.2.2⟩
      have total := congrArg List.length passes.rest
      simp only [length_append] at total
      simp only [reduceCtorEq, iff_false]
      rintro rfl
      exact absurd known.2.1 (by simp [total])
    have left {cur : Cursor} (class_ : Char → Bool) :
        (cur.takeWhile class_).2.rest.length ≤ cur.rest.length := (dropWhile_suffix _).length_le
    unfold readLexeme at found
    dsimp only at found
    split at found
    · rename_i isStart
      cases found
      have isPart : isIdentifierPart c = true := by simp [isIdentifierPart, isStart]
      refine ⟨?_, ?_, fun name isName => ?_⟩
      · unfold Lexeme.ofWord
        dsimp only
        split <;> simp
      · simp only [Cursor.takeWhile, dropWhile_cons, isPart, if_true, length_cons]
        exact Nat.lt_succ_of_le (dropWhile_suffix _).length_le
      · have same := passes.rest.symm.trans (Cursor.Passes.takeWhile isIdentifierPart ⟨pos, c :: cs⟩).rest
        rw [append_cancel_right same]
        exact propertyName?_ofWord isName
    split at found
    · obtain ⟨_, isRead, isFound⟩ := of_bind_eq_ok found
      cases isFound
      exact ⟨nofun, length_readNumber ‹_› isRead, nofun⟩
    split at found
    · obtain ⟨_, isRead, isFound⟩ := of_bind_eq_ok found
      cases isFound
      exact ⟨nofun, Nat.lt_succ_of_le ((bounds_readString c [] _ cs).length_le isRead), nofun⟩
    split at found
    · obtain ⟨⟨pattern, mid⟩, isRead, isFound⟩ := of_bind_eq_ok found
      cases isFound
      have short := (bounds_readPattern false [] _ cs).length_le isRead
      exact ⟨nofun, Nat.lt_succ_of_le (Nat.le_trans (left _) short), nofun⟩
    split at found
    · rename_i mark rest isMark
      cases found
      refine ⟨nofun, ?_, nofun⟩
      have positive : 0 < mark.text.toList.length := by cases mark <;> decide
      rw [Punctuator.eq_append_of_read? isMark, length_append]
      exact Nat.lt_add_of_pos_left positive
    · cases found

/-! ## Tokens -/

/-- Where the last of some tokens ends. -/
def endOf (tokens : List Token) : Nat := (tokens.getLast?.map (·.span.stop)).getD 0

/-- How a token stands in a source, after some tokens and before others: the text that was read, the
gap, the text of the token, and the rest follow each other. -/
structure Token.Tiles (source : String) (before : List Token) (token : Token) (after : List Token)
    (read : List Char) (gap : List Blank) (text rest : List Char) : Prop where
  whole_eq : source.toList = read ++ gapText gap ++ text ++ rest
  previous : endOf before = (String.ofList read).utf8ByteSize
  start : token.span.start = (String.ofList (read ++ gapText gap)).utf8ByteSize
  stop : token.span.stop = (String.ofList (read ++ gapText gap ++ text)).utf8ByteSize
  gap_whole : AreWhole (text ++ rest) gap
  isEnd : token.lexeme = .endOfInput ↔ text ++ rest = []
  isEmpty : token.lexeme = .endOfInput ↔ text = []
  isLast : token.lexeme = .endOfInput ↔ after = []
  name : ∀ name, token.lexeme.propertyName? = some name → token.span.slice source = name
  newline : token.newlineBefore = true ↔
    before = [] ∨ ∃ c ∈ gapText gap, Text.isLineTerminator c = true
  comments : token.comments.map (fun c => (c.kind, c.text)) = gap.filterMap Blank.kept?

theorem Token.Tiles.start_lt_stop {before after : List Token} {token : Token} {gap : List Blank}
    {text rest : List Char} (tile : token.Tiles source before after read gap text rest)
    (goesOn : token.lexeme ≠ .endOfInput) : token.span.start < token.span.stop := by
  have positive := length_pos_of_ne_nil (mt tile.isEmpty.mpr goesOn)
  have long := length_le_utf8ByteSize text
  simp only [tile.start, tile.stop, String.ofList_append, String.utf8ByteSize_append]
  omega

theorem readTokens_tiles (fuel : Nat) : ∀ (ctx : SlashContext) (done : List Token)
    (cur : Cursor) (read : List Char) (tokens : List Token), cur.rest.length < fuel →
    (Cursor.ofText source).Passes read cur → endOf done.reverse = (String.ofList read).utf8ByteSize →
    (ctx.previous = none ↔ done = []) → readTokens fuel ctx done cur = .ok tokens →
    ∃ new ≠ [], tokens = done.reverse ++ new ∧ ∀ before token after, new = before ++ token :: after →
      ∃ read gap text rest, token.Tiles source (done.reverse ++ before) after read gap text rest := by
  induction fuel with
  | zero =>
    intro ctx done cur read tokens enough
    exact absurd enough (Nat.not_lt_zero _)
  | succ fuel ih =>
    intro ctx done cur read tokens enough passes isEnd isFirst found
    obtain ⟨⟨token, next⟩, isToken, found⟩ := of_bind_eq_ok found
    unfold readToken at isToken
    obtain ⟨⟨gap, mid⟩, isGap, isToken⟩ := of_bind_eq_ok isToken
    obtain ⟨blanks, crosses⟩ := readGap_leads .blank {} cur.pos cur.rest isGap
    have reached := passes.trans crosses.passes
    dsimp only at isToken
    split at isToken
    · cases isToken
    rename_i lexeme _ isRead
    cases isToken
    obtain ⟨text, reads, atEnd, isEmpty, isName⟩ := readLexeme_reads isRead
    have offset {cs : List Char} {cur : Cursor} (passes : (Cursor.ofText source).Passes cs cur) :
        cur.pos.offset = (String.ofList cs).utf8ByteSize := by
      rw [passes.pos, Position.offset_after]
      exact Nat.zero_add _
    have tiles (after : List Token) (isLast : lexeme = .endOfInput ↔ after = []) :
        Token.Tiles source done.reverse ⟨lexeme, mid.pos.spanTo next.pos,
          gap.newline || ctx.previous.isNone, gap.comments⟩ after read blanks text next.rest := {
      whole_eq := by rw [append_assoc, ← reads.rest, ← reached.rest]; rfl
      previous := isEnd
      start := offset reached
      stop := offset (reached.trans reads)
      gap_whole := reads.rest ▸ crosses.whole
      isEnd := reads.rest ▸ atEnd
      isEmpty := atEnd.trans isEmpty.symm
      isLast := isLast
      name := fun name known => by
        rw [Span.slice_of_covers (Cursor.IsIn.covers ⟨_, reached⟩ reads)]
        exact isName name known
      newline := by
        rw [crosses.newline]
        simp [isFirst, or_comm]
      comments := crosses.comments }
    dsimp only at found
    split at found
    · rename_i isOver
      cases found
      refine ⟨[_], by simp, reverse_cons, fun before token after split => ?_⟩
      cases before with
      | nil =>
        obtain ⟨rfl, rfl⟩ := List.cons.inj split
        exact ⟨_, _, _, _, append_nil done.reverse ▸ tiles [] (by simpa using isOver)⟩
      | cons first before => simp at split
    · rename_i goesOn
      have short : next.rest.length < fuel := by
        have positive := length_pos_of_ne_nil fun none => goesOn (atEnd.mpr (isEmpty.mp none))
        have total := congrArg List.length crosses.passes.rest
        simp only [reads.rest, length_append] at total
        omega
      obtain ⟨new, nonempty, rfl, tiled⟩ := ih _ _ next _ tokens short (reached.trans reads)
        (by simpa [endOf, Position.spanTo] using offset (reached.trans reads)) (by simp [SlashContext.push]) found
      refine ⟨_ :: new, by simp, by rw [reverse_cons, append_assoc]; rfl, ?_⟩
      intro before token after split
      cases before with
      | nil =>
        obtain ⟨rfl, rfl⟩ := List.cons.inj split
        exact ⟨_, _, _, _, append_nil done.reverse ▸ tiles new (by simp [goesOn, nonempty])⟩
      | cons first before =>
        obtain ⟨rfl, rfl⟩ := List.cons.inj split
        have known := tiled before token after rfl
        rwa [reverse_cons, append_assoc] at known

/-- The tokens of a source and the gaps between them are its text. The last token, and no other, is
the end of the input, at the end of the source. -/
structure Tiling (source : String) (tokens : List Token) : Prop where
  ends : ∃ front last, tokens = front ++ [last] ∧ last.lexeme = .endOfInput ∧
    last.span.start = source.utf8ByteSize ∧ last.span.stop = source.utf8ByteSize ∧
    ∀ token ∈ front, token.lexeme ≠ .endOfInput ∧ token.span.start < token.span.stop
  tiles : ∀ before token after, tokens = before ++ token :: after →
    ∃ read gap text rest, token.Tiles source before after read gap text rest

theorem Token.tiles_of_scan {tokens : List Token} (isScanned : Token.scan source = .ok tokens) :
    tokens ≠ [] ∧ ∀ before token after, tokens = before ++ token :: after →
      ∃ read gap text rest, token.Tiles source before after read gap text rest := by
  have enough : (Cursor.ofText source).rest.length < source.length + 1 := Nat.lt_succ_self _
  obtain ⟨new, nonempty, isNew, tiled⟩ :=
    readTokens_tiles _ {} [] _ [] tokens enough (.refl _) rfl (by simp) isScanned
  obtain rfl : tokens = new := isNew
  exact ⟨nonempty, tiled⟩

theorem Token.scan_tiles {source : String} {tokens : List Token}
    (isScanned : Token.scan source = .ok tokens) : Tiling source tokens := by
  obtain ⟨nonempty, tiled⟩ := Token.tiles_of_scan isScanned
  refine ⟨?_, tiled⟩
  obtain ⟨front, last, rfl⟩ : ∃ front last, tokens = front ++ [last] :=
    ⟨_, _, (dropLast_append_getLast nonempty).symm⟩
  obtain ⟨read, gap, text, rest, tile⟩ := tiled front last [] rfl
  have isEnd := tile.isLast.mpr rfl
  obtain ⟨rfl, rfl⟩ := append_eq_nil_iff.mp (tile.isEnd.mp isEnd)
  have size : (String.ofList (read ++ gapText gap)).utf8ByteSize = source.utf8ByteSize := by
    rw [← append_nil (read ++ gapText gap), ← append_nil (_ ++ []), ← tile.whole_eq,
      String.ofList_toList]
  refine ⟨front, last, rfl, isEnd, tile.start.trans size, ?_, fun token mem => ?_⟩
  · rw [tile.stop, append_nil, size]
  · obtain ⟨before, after, rfl⟩ := append_of_mem mem
    obtain ⟨_, _, _, _, tile⟩ := tiled before token (after ++ [last]) (by simp)
    have goesOn : token.lexeme ≠ .endOfInput := fun isOver => by simpa using tile.isLast.mp isOver
    exact ⟨goesOn, tile.start_lt_stop goesOn⟩

/-- Comments of both kinds, one that is dropped, and a line break inside a literal. -/
theorem scan_tiles_comments : ∃ tokens,
    Token.scan "a/*!é\n*/ /***///b\u2028='\\\n';/*@@*/" = .ok tokens ∧
      Tiling "a/*!é\n*/ /***///b\u2028='\\\n';/*@@*/" tokens := by
  cases isScanned : Token.scan "a/*!é\n*/ /***///b\u2028='\\\n';/*@@*/" with
  | ok tokens => exact ⟨tokens, rfl, Token.scan_tiles isScanned⟩
  | error e =>
    have isOk : (Token.scan "a/*!é\n*/ /***///b\u2028='\\\n';/*@@*/").isOk = true := by decide +kernel
    rw [isScanned] at isOk
    cases isOk

end Minifier
