import Mathlib.Data.List.Basic
import Minifier.Token.Scan

/-!
# Places of tokens

A reader goes over the characters that are left one by one, so the places it comes to lie between
two characters of the source, never inside one and never past the end. The span of every token, of
every comment that is kept, and of the fault if there is one, is therefore a stretch of the source
that can be cut out of it (`Span.Covers`, `Span.slice_of_covers`, `Token.scan_isIn`).

`Cursor.Passes` says what one cursor has read when it becomes another; every reader is shown to move
its cursor in that way, or to fail at a place it saw.
-/

set_option autoImplicit false

namespace Minifier

open List

/-! ## Places and bytes -/

theorem utf8ByteSize_ofList_cons (c : Char) (cs : List Char) :
    (String.ofList (c :: cs)).utf8ByteSize = c.utf8Size + (String.ofList cs).utf8ByteSize := by
  rw [← singleton_append, String.ofList_append, String.utf8ByteSize_append,
    ← String.singleton_eq_ofList, String.utf8ByteSize_singleton]

namespace Position

variable (p : Position)

theorem after_append (cs ds : List Char) : p.after (cs ++ ds) = (p.after cs).after ds :=
  foldl_append

theorem offset_next (c : Char) : (p.next c).offset = p.offset + c.utf8Size := by
  unfold next
  split <;> rfl

theorem offset_after (cs : List Char) :
    (p.after cs).offset = p.offset + (String.ofList cs).utf8ByteSize := by
  induction cs generalizing p with
  | nil => rfl
  | cons c cs ih =>
    show ((p.next c).after cs).offset = _
    rw [ih, offset_next, utf8ByteSize_ofList_cons, Nat.add_assoc]

end Position

theorem exists_utf8ByteSize_cons (c : Char) (cs : List Char) :
    ∃ count, (String.ofList (c :: cs)).utf8ByteSize = count + 1 := by
  have positive := c.utf8Size_pos
  exact ⟨(String.ofList (c :: cs)).utf8ByteSize - 1, by rw [utf8ByteSize_ofList_cons]; omega⟩

theorem dropBytes?_append (cs rest : List Char) :
    dropBytes? (String.ofList cs).utf8ByteSize (cs ++ rest) = some rest := by
  induction cs with
  | nil => simp [dropBytes?]
  | cons c cs ih =>
    obtain ⟨count, isCount⟩ := exists_utf8ByteSize_cons c cs
    rw [isCount, cons_append, dropBytes?, ← isCount, utf8ByteSize_ofList_cons,
      if_pos (Nat.le_add_right _ _), Nat.add_sub_cancel_left, ih]

theorem takeBytes?_append (cs rest : List Char) :
    takeBytes? (String.ofList cs).utf8ByteSize (cs ++ rest) = some cs := by
  induction cs with
  | nil => simp [takeBytes?]
  | cons c cs ih =>
    obtain ⟨count, isCount⟩ := exists_utf8ByteSize_cons c cs
    rw [isCount, cons_append, takeBytes?, ← isCount, utf8ByteSize_ofList_cons,
      if_pos (Nat.le_add_right _ _), Nat.add_sub_cancel_left, ih]
    rfl

/-- A span is that of a stretch of a source, which has some text: both of its ends lie between two
characters. -/
def Span.Covers (span : Span) (source : String) (text : List Char) : Prop :=
  ∃ before after, source.toList = before ++ text ++ after ∧
    span = (Position.start.after before).spanTo (Position.start.after (before ++ text))

namespace Span

variable {span : Span} {source : String} {text : List Char}

/-- The bytes before the span and in it are those of whole characters. -/
theorem Covers.exists_sizes (covers : span.Covers source text) : ∃ before after,
    source = String.ofList (before ++ (text ++ after)) ∧
    span.start = (String.ofList before).utf8ByteSize ∧
    span.stop = span.start + (String.ofList text).utf8ByteSize := by
  obtain ⟨before, after, isSource, rfl⟩ := covers
  refine ⟨before, after, ?_, ?_, ?_⟩
  · rw [← append_assoc, ← isSource, String.ofList_toList]
  · simp [Position.spanTo, Position.offset_after, Position.start]
  · simp [Position.spanTo, Position.after_append, Position.offset_after, Position.start]

theorem Covers.stop_le (covers : span.Covers source text) :
    span.start ≤ span.stop ∧ span.stop ≤ source.utf8ByteSize := by
  obtain ⟨before, after, rfl, isStart, isStop⟩ := covers.exists_sizes
  simp only [String.ofList_append, String.utf8ByteSize_append]
  omega

/-- Such a span is cut out of the source at the characters it covers. -/
theorem slice_of_covers (covers : span.Covers source text) :
    span.slice source = String.ofList text := by
  have inside := covers.stop_le
  obtain ⟨before, after, rfl, isStart, isStop⟩ := covers.exists_sizes
  unfold slice
  rw [Nat.min_eq_left inside.2, if_pos inside.1, isStop, Nat.add_sub_cancel_left, isStart,
    String.toList_ofList, dropBytes?_append]
  simp [takeBytes?_append]

end Span

/-! ## Moving a cursor -/

/-- A cursor that has read some characters is another cursor. -/
structure Cursor.Passes (cur : Cursor) (read : List Char) (cur' : Cursor) : Prop where
  rest : cur.rest = read ++ cur'.rest
  pos : cur'.pos = cur.pos.after read

/-- A reader that starts at a cursor answers one that has read on, or fails at a place between two
of the characters that were left. -/
def Cursor.Bounds {α : Type} (cur : Cursor) : Reading (α × Cursor) → Prop
  | .ok (_, cur') => ∃ read, cur.Passes read cur'
  | .error (_, pos) => ∃ read cur', cur.Passes read cur' ∧ cur'.pos = pos

namespace Cursor

variable {cur cur' cur'' : Cursor} {read read' : List Char}

namespace Passes

theorem refl (cur : Cursor) : cur.Passes [] cur := ⟨rfl, rfl⟩

theorem trans (first : cur.Passes read cur') (second : cur'.Passes read' cur'') :
    cur.Passes (read ++ read') cur'' where
  rest := by rw [first.rest, second.rest, append_assoc]
  pos := by rw [second.pos, first.pos, Position.after_append]

/-- Some of the characters that are left are read. -/
theorem past (pos : Position) (read rest : List Char) :
    Passes ⟨pos, read ++ rest⟩ read ⟨pos.after read, rest⟩ :=
  ⟨rfl, rfl⟩

theorem takeWhile (class_ : Char → Bool) (cur : Cursor) :
    cur.Passes (cur.takeWhile class_).1 (cur.takeWhile class_).2 :=
  ⟨takeWhile_append_dropWhile.symm, rfl⟩

theorem of_eat? {class_ : Char → Bool} {c : Char} (eaten : cur.eat? class_ = some (c, cur')) :
    cur.Passes [c] cur' := by
  obtain ⟨pos, rest⟩ := cur
  cases rest with
  | nil => cases eaten
  | cons d rest =>
    simp only [eat?, Option.ite_none_right_eq_some, Option.some.injEq, Prod.mk.injEq] at eaten
    obtain ⟨-, rfl, rfl⟩ := eaten
    exact past pos [d] rest

end Passes

namespace Bounds

variable {α β : Type}

theorem ok {a : α} (passes : cur.Passes read cur') : cur.Bounds (.ok (a, cur')) := ⟨read, passes⟩

theorem error {fault : LexicalFault} (passes : cur.Passes read cur') :
    cur.Bounds (.error (fault, cur'.pos) : Reading (α × Cursor)) :=
  ⟨read, cur', passes, rfl⟩

/-- A reader may start further on. -/
theorem after {reading : Reading (α × Cursor)} (passes : cur.Passes read cur')
    (bounds : cur'.Bounds reading) : cur.Bounds reading := by
  match reading, bounds with
  | .ok (_, _), ⟨_, more⟩ => exact .ok (passes.trans more)
  | .error (_, _), ⟨_, _, more, rfl⟩ => exact .error (passes.trans more)

theorem bind {reading : Reading (α × Cursor)} {f : α × Cursor → Reading (β × Cursor)}
    (first : cur.Bounds reading) (next : ∀ (a : α) (cur' : Cursor), cur'.Bounds (f (a, cur'))) :
    cur.Bounds (reading >>= f) := by
  match reading, first with
  | .ok (a, cur'), ⟨_, passes⟩ => exact .after passes (next a cur')
  | .error _, failed => exact failed

end Bounds

end Cursor

open Cursor (Passes Bounds)

/-! ## Numbers -/

/-- The digits of an exponent, which come after its sign. -/
theorem bounds_exponentDigits (negative : Bool) (cur : Cursor) :
    cur.Bounds (match cur.takeWhile Char.isDigit with
      | ([], _) => .error (.invalidExponent, cur.pos)
      | (digits, cur) => .ok (if negative then -(ofDigits digits : Int) else ofDigits digits, cur)) := by
  have passes := Passes.takeWhile Char.isDigit cur
  generalize cur.takeWhile Char.isDigit = taken at passes ⊢
  obtain ⟨digits, after⟩ := taken
  cases digits with
  | nil => exact .error (.refl cur)
  | cons => exact .ok passes

theorem bounds_readExponent (cur : Cursor) : cur.Bounds (readExponent cur) := by
  unfold readExponent
  split
  · exact .ok (.refl cur)
  · rename_i _ marked isMarked
    refine Bounds.after (.of_eat? isMarked) ?_
    cases isSign : marked.eat? fun c => c = '+' || c = '-' with
    | none => exact bounds_exponentDigits false marked
    | some signed => exact .after (.of_eat? isSign) (bounds_exponentDigits (signed.1 == '-') signed.2)

/-- What comes after the decimal places of a literal. -/
theorem bounds_afterPlaces (whole places : List Char) (cur : Cursor) :
    cur.Bounds (do
      let (exponent, cur) ← readExponent cur
      match cur.rest with
      | c :: _ => if isIdentifierStart c then throw (.identifierAfterNumber, cur.pos)
      | [] => pure ()
      return ((⟨ofDigits (whole ++ places), exponent - places.length⟩ : Decimal), cur)) := by
  refine Bounds.bind (bounds_readExponent cur) fun exponent cur' => ?_
  obtain ⟨pos, rest⟩ := cur'
  cases rest with
  | nil => exact .ok (.refl _)
  | cons c rest =>
    dsimp only
    split
    · exact .error (.refl ⟨pos, c :: rest⟩)
    · exact .ok (.refl _)

theorem bounds_readDecimal (whole : List Char) (cur : Cursor) :
    cur.Bounds (readDecimal whole cur) := by
  unfold readDecimal
  cases isPoint : cur.eat? (· = '.') with
  | none => exact bounds_afterPlaces whole [] cur
  | some pointed =>
    refine .after ((Passes.of_eat? isPoint).trans (.takeWhile Char.isDigit pointed.2)) ?_
    exact bounds_afterPlaces whole _ _

theorem bounds_readNumber (cur : Cursor) : cur.Bounds (readNumber cur) := by
  have hexadecimal : ∀ (mark : Char) (rest : List Char), cur.rest = '0' :: mark :: rest →
      cur.Bounds (readNumber.hexadecimal cur mark) := by
    intro mark rest isRest
    have opens : cur.Passes ['0', mark] ⟨cur.pos.after ['0', mark], cur.rest.drop 2⟩ :=
      ⟨by rw [isRest]; rfl, rfl⟩
    unfold readNumber.hexadecimal
    generalize (⟨cur.pos.after ['0', mark], cur.rest.drop 2⟩ : Cursor) = opened at opens ⊢
    have passes := Passes.takeWhile isHexDigit opened
    dsimp only
    generalize opened.takeWhile isHexDigit = taken at passes ⊢
    obtain ⟨digits, after⟩ := taken
    cases digits with
    | nil => exact .error opens
    | cons => exact .ok (opens.trans passes)
  unfold readNumber
  split
  · rename_i rest isRest
    exact hexadecimal 'x' rest isRest
  · rename_i rest isRest
    exact hexadecimal 'X' rest isRest
  · have passes := Passes.takeWhile Char.isDigit cur
    generalize cur.takeWhile Char.isDigit = taken at passes ⊢
    obtain ⟨whole, after⟩ := taken
    dsimp only
    split
    · exact .ok passes
    · exact .after passes ((bounds_readDecimal whole after).bind fun _ cur' => .ok (.refl cur'))

/-! ## Strings and patterns -/

/-- The place at which a bad escape shows is among the characters that were to be its digits. -/
theorem bounds_badEscapeAt (cs rest : List Char) (pos : Position) : Bounds ⟨pos, cs ++ rest⟩
      (.error (.invalidEscape, badEscapeAt pos cs) : Reading (List Char × Cursor)) := by
  induction cs generalizing pos with
  | nil => exact .error (.refl _)
  | cons c cs ih =>
    have first : Passes ⟨pos, c :: cs ++ rest⟩ [c] ⟨pos.next c, cs ++ rest⟩ := .past pos [c] _
    unfold badEscapeAt
    split
    · exact .after first (ih (pos.next c))
    · exact .error first

theorem bounds_readString (quote : Char) (value : List Char) (pos : Position) (cs : List Char) :
    Bounds ⟨pos, cs⟩ (readString quote value pos cs) := by
  fun_induction readString quote value pos cs with
  | case1 pos => exact .error (.refl _)
  | case2 _ pos => exact .error (.past pos ['\\'] [])
  | case20 _ pos cs => exact .ok (.past pos [quote] cs)
  | case21 _ pos c cs => exact .error (.past pos [c] cs)
  | case22 _ pos c cs _ _ _ _ ih => exact .after (.past pos [c] cs) ih
  -- an escape of one character
  | case3 _ pos c cs _ _ _ ih => exact .after (.past pos ['\\', c] cs) ih
  | case4 _ pos c cs _ _ _ ih => exact .after (.past pos ['\\', c] cs) ih
  | case11 _ pos cs _ _ _ _ _ ih => exact .after (.past pos ['\\', '\x0d', '\n'] cs) ih
  | case12 _ pos cs _ _ _ _ _ _ ih => exact .after (.past pos ['\\', '\x0d'] cs) ih
  | case13 _ pos c cs _ _ _ _ _ _ _ ih => exact .after (.past pos ['\\', c] cs) ih
  | case19 _ pos c cs _ _ _ _ _ _ _ _ ih => exact .after (.past pos ['\\', c] cs) ih
  -- a hexadecimal escape
  | case5 _ pos a b cs _ _ _ _ ih => exact .after (.past pos ['\\', 'x', a, b] cs) ih
  | case8 _ pos a b d e cs _ _ _ _ _ ih =>
    exact .after (.past pos ['\\', 'u', a, b, d, e] cs) ih
  | case6 _ pos a b cs =>
    exact .after (.past pos ['\\', 'x'] _) (bounds_badEscapeAt [a, b] cs _)
  | case9 _ pos a b d e cs =>
    exact .after (.past pos ['\\', 'u'] _) (bounds_badEscapeAt [a, b, d, e] cs _)
  | case7 _ pos cs =>
    have bounds := bounds_badEscapeAt cs [] (pos.after ['\\', 'x'])
    exact .after (.past pos ['\\', 'x'] _) (by rwa [append_nil] at bounds)
  | case10 _ pos cs =>
    have bounds := bounds_badEscapeAt cs [] (pos.after ['\\', 'u'])
    exact .after (.past pos ['\\', 'u'] _) (by rwa [append_nil] at bounds)
  -- an octal escape
  | case14 _ pos c => exact .error (.past pos ['\\', c] [])
  | case15 _ pos c _ _ _ _ _ _ _ _ d => exact .error (.past pos ['\\', c, d] [])
  | case16 _ pos c _ _ _ _ _ _ _ _ d _ _ e cs _ _ ih =>
    exact .after (.past pos ['\\', c, d, e] cs) ih
  | case17 _ pos c _ _ _ _ _ _ _ _ d _ _ e cs _ _ ih =>
    exact .after (.past pos ['\\', c, d] (e :: cs)) ih
  | case18 _ pos c _ _ _ _ _ _ _ _ d cs _ _ ih => exact .after (.past pos ['\\', c] (d :: cs)) ih

theorem bounds_readPattern (inClass : Bool) (pattern : List Char) (pos : Position) (cs : List Char) :
    Bounds ⟨pos, cs⟩ (readPattern inClass pattern pos cs) := by
  fun_induction readPattern inClass pattern pos cs with
  | case1 _ _ pos => exact .error (.refl _)
  | case2 _ _ pos => exact .error (.past pos ['\\'] [])
  | case3 _ _ pos c cs => exact .error (.past pos ['\\', c] cs)
  | case4 _ _ pos c cs _ _ ih => exact .after (.past pos ['\\', c] cs) ih
  | case5 _ _ pos c cs => exact .error (.past pos [c] cs)
  | case6 _ _ pos c cs => exact .ok (.past pos [c] cs)
  | case7 _ _ pos c cs _ _ _ _ _ ih => exact .after (.past pos [c] cs) ih

/-! ## Lexemes -/

/-- The text of a punctuator that is read is what the rest starts with. -/
theorem Punctuator.eq_append_of_read? {cs rest : List Char} {mark : Punctuator}
    (isMark : Punctuator.read? cs = some (mark, rest)) : cs = mark.text.toList ++ rest := by
  obtain ⟨p, -, isMark⟩ := exists_of_findSome?_eq_some isMark
  simp only [Option.map_eq_some_iff, Prod.mk.injEq] at isMark
  obtain ⟨left, isLeft, rfl, rfl⟩ := isMark
  exact (List.isPrefixOf?_eq_some_iff_append_eq.mp isLeft).symm

theorem bounds_readLexeme (regexAllowed : Bool) (cur : Cursor) :
    cur.Bounds (readLexeme regexAllowed cur) := by
  obtain ⟨pos, rest⟩ := cur
  unfold readLexeme
  cases rest with
  | nil => exact .ok (.refl _)
  | cons c cs =>
    dsimp only
    split
    · exact .ok (.takeWhile isIdentifierPart _)
    split
    · exact (bounds_readNumber _).bind fun _ cur' => .ok (.refl cur')
    split
    · refine .after (.past pos [c] cs) ?_
      exact (bounds_readString c [] _ cs).bind fun _ cur' => .ok (.refl cur')
    split
    · refine .after (.past pos [c] cs) ?_
      refine (bounds_readPattern false [] _ cs).bind fun _ cur' => ?_
      exact .ok (.takeWhile isIdentifierPart cur')
    split
    · rename_i mark rest isMark
      rw [Punctuator.eq_append_of_read? isMark]
      exact .ok (.past pos mark.text.toList rest)
    · exact .error (.past pos [c] cs)

/-! ## Gaps -/

/-- A cursor in a source, which has read what comes before. -/
def Cursor.IsIn (source : String) (cur : Cursor) : Prop :=
  ∃ before, (Cursor.ofText source).Passes before cur

/-- What is read between two cursors in a source is a stretch of it. -/
theorem Cursor.IsIn.covers {source : String} {cur cur' : Cursor} {read : List Char}
    (inside : cur.IsIn source) (passes : cur.Passes read cur') :
    (cur.pos.spanTo cur'.pos).Covers source read := by
  obtain ⟨before, start⟩ := inside
  refine ⟨before, cur'.rest, ?_, ?_⟩
  · rw [append_assoc, ← passes.rest, ← start.rest]
    rfl
  · rw [passes.pos, start.pos, Position.after_append]
    rfl

theorem Cursor.IsIn.passes {source : String} {cur cur' : Cursor} {read : List Char}
    (inside : cur.IsIn source) (passes : cur.Passes read cur') : cur'.IsIn source := by
  obtain ⟨before, start⟩ := inside
  exact ⟨before ++ read, start.trans passes⟩

/-- The comments of a gap stand in a source as they are. -/
def Gap.IsIn (source : String) (gap : Gap) : Prop :=
  ∀ c ∈ gap.comments, c.span.Covers source c.text.toList

theorem Gap.IsIn.addComment {source : String} {gap : Gap} {text : List Char} {span : Span}
    (inside : gap.IsIn source) (covers : span.Covers source text) :
    (gap.addComment text span).IsIn source := by
  have kept : ∀ kind, Gap.IsIn source
      { gap with comments := gap.comments ++ [⟨kind, String.ofList text, span⟩] } := by
    intro kind c mem
    rcases mem_append.mp mem with old | new
    · exact inside c old
    · obtain rfl := mem_singleton.mp new
      rwa [String.toList_ofList]
  unfold Gap.addComment
  dsimp only
  split
  · exact kept .important
  split
  · exact kept .conditional
  · exact inside

/-- An open block comment knows where it starts and what it has so far. -/
def GapState.IsIn (source : String) (cur : Cursor) : GapState → Prop
  | .blockComment start text => ∃ opened : Cursor,
    opened.IsIn source ∧ opened.pos = start ∧ opened.Passes text.reverse cur
  | _ => True

/-- A gap leads to a cursor in the source, or to a comment that is not closed. -/
def Gap.Ends (source : String) : Except LexicalError (Gap × Cursor) → Prop
  | .ok (gap, cur) => gap.IsIn source ∧ cur.IsIn source
  | .error e => ∃ text, e.span.Covers source text

theorem ends_readGap {source : String} (state : GapState) (gap : Gap) (pos : Position)
    (cs : List Char) (here : Cursor.IsIn source ⟨pos, cs⟩) (open_ : state.IsIn source ⟨pos, cs⟩)
    (inside : gap.IsIn source) : Gap.Ends source (readGap state gap pos cs) := by
  fun_induction readGap state gap pos cs with
  | case1 => exact ⟨inside, here⟩
  | case2 gap pos cs ih => exact ih (here.passes (.past pos ['/', '/'] cs)) trivial inside
  | case3 gap pos cs ih =>
    have passes : Passes ⟨pos, '/' :: '*' :: cs⟩ ['/', '*'] ⟨pos.after ['/', '*'], cs⟩ :=
      .past pos ['/', '*'] cs
    exact ih (here.passes passes) ⟨_, here, rfl, passes⟩ inside
  | case4 gap pos c cs _ _ _ ih => exact ih (here.passes (.past pos [c] cs)) trivial inside
  | case5 gap pos c cs _ _ _ _ ih => exact ih (here.passes (.past pos [c] cs)) trivial inside
  | case6 => exact ⟨inside, here⟩
  | case7 => exact ⟨inside, here⟩
  | case8 gap pos c cs _ ih => exact ih (here.passes (.past pos [c] cs)) trivial inside
  | case9 gap pos c cs _ ih => exact ih (here.passes (.past pos [c] cs)) trivial inside
  | case10 start text gap pos =>
    obtain ⟨opened, isOpened, rfl, passes⟩ := open_
    exact ⟨_, isOpened.covers passes⟩
  | case11 start text gap pos cs stop ih =>
    obtain ⟨opened, isOpened, rfl, passes⟩ := open_
    have closes : Passes ⟨pos, '*' :: '/' :: cs⟩ ['*', '/'] ⟨stop, cs⟩ := .past pos ['*', '/'] cs
    refine ih (here.passes closes) trivial (inside.addComment ?_)
    have covers := isOpened.covers (passes.trans closes)
    simpa using covers
  | case12 start text gap pos c cs _ ih =>
    obtain ⟨opened, isOpened, rfl, passes⟩ := open_
    have more : Passes ⟨pos, c :: cs⟩ [c] ⟨pos.next c, cs⟩ := .past pos [c] cs
    refine ih (here.passes more) ⟨opened, isOpened, rfl, ?_⟩ inside
    rw [reverse_cons]
    exact passes.trans more

/-! ## Tokens -/

/-- A token and its comments stand in a source. -/
structure Token.IsIn (source : String) (token : Token) : Prop where
  covers : ∃ text, token.span.Covers source text
  comments : ∀ c ∈ token.comments, c.span.Covers source c.text.toList

theorem readToken_isIn {source : String} (ctx : SlashContext) {cur : Cursor}
    (here : cur.IsIn source) :
    (∀ e, readToken ctx cur = .error e → ∃ text, e.span.Covers source text) ∧
      ∀ token cur', readToken ctx cur = .ok (token, cur') →
        token.IsIn source ∧ cur'.IsIn source := by
  have ends := ends_readGap .blank {} cur.pos cur.rest here trivial (fun _ mem => nomatch mem)
  unfold readToken
  match readGap .blank {} cur.pos cur.rest, ends with
  | .error e, failed =>
    refine ⟨?_, ?_⟩
    · rintro _ ⟨⟩
      exact failed
    · rintro _ _ ⟨⟩
  | .ok (gap, start), ⟨inside, there⟩ =>
    have bounds := bounds_readLexeme ctx.regexAllowed start
    simp only [bind, Except.bind]
    match readLexeme ctx.regexAllowed start, bounds with
    | .error (fault, pos), ⟨read, after, passes, isPos⟩ =>
      refine ⟨?_, ?_⟩
      · rintro _ ⟨⟩
        exact ⟨read, isPos ▸ there.covers passes⟩
      · rintro _ _ ⟨⟩
    | .ok (lexeme, after), ⟨read, passes⟩ =>
      refine ⟨?_, ?_⟩
      · rintro _ ⟨⟩
      · rintro _ _ ⟨⟩
        exact ⟨⟨⟨read, there.covers passes⟩, inside⟩, there.passes passes⟩

theorem readTokens_isIn {source : String} (fuel : Nat) :
    ∀ (ctx : SlashContext) (tokens : List Token) (cur : Cursor), cur.IsIn source →
      (∀ token ∈ tokens, token.IsIn source) →
      (∀ e, readTokens fuel ctx tokens cur = .error e → ∃ text, e.span.Covers source text) ∧
        ∀ all, readTokens fuel ctx tokens cur = .ok all → ∀ token ∈ all, token.IsIn source := by
  induction fuel with
  | zero =>
    intro ctx tokens cur _ inside
    refine ⟨?_, ?_⟩
    · rintro _ ⟨⟩
    · rintro _ ⟨⟩ token mem
      exact inside token (mem_reverse.mp mem)
  | succ fuel ih =>
    intro ctx tokens cur here inside
    obtain ⟨fails, reads⟩ := readToken_isIn ctx here
    unfold readTokens
    cases isToken : readToken ctx cur with
    | error e =>
      refine ⟨?_, ?_⟩
      · rintro _ ⟨⟩
        exact fails e isToken
      · rintro _ ⟨⟩
    | ok found =>
      obtain ⟨token, cur'⟩ := found
      obtain ⟨isIn, there⟩ := reads token cur' isToken
      have all : ∀ other ∈ token :: tokens, other.IsIn source := forall_mem_cons.mpr ⟨isIn, inside⟩
      simp only [bind, Except.bind]
      split
      · refine ⟨?_, ?_⟩
        · rintro _ ⟨⟩
        · rintro _ ⟨⟩ other mem
          exact all other (mem_reverse.mp mem)
      · exact ih (ctx.push token.lexeme) (token :: tokens) cur' there all

/-- Whatever becomes of a source, the places that are named lie in it. -/
theorem Token.scan_isIn (source : String) :
    (∀ e, Token.scan source = .error e → ∃ text, e.span.Covers source text) ∧
      ∀ tokens, Token.scan source = .ok tokens → ∀ token ∈ tokens, token.IsIn source :=
  readTokens_isIn _ {} [] (.ofText source) ⟨[], .refl _⟩ fun _ mem => nomatch mem

end Minifier
