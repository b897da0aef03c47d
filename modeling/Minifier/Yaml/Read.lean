import Minifier.Yaml.Basic

/-!
# Reading YAML

A reader for one document: block mappings and lists by indentation, flow mappings and lists in
brackets, plain and quoted scalars, comments, and the marks `---` and `...` around the document.
Anchors, tags, block scalars, explicit keys and directives are refused.

Indentation is a number `least`: the first column in which a value may stand. A block key is only
accepted where a line or a list item begins, and has its colon on its own line.
-/

set_option autoImplicit false

namespace Minifier

namespace Yaml

/-! ## Characters and places -/

def isBlank (c : Char) : Bool := c = ' ' || c = '\t'

def isBreak (c : Char) : Bool :=
  c = '\n' || c = '\r' || c = '\u0085' || c = '\u2028' || c = '\u2029'

/-- The characters that may stand in a document. -/
def isAllowed (c : Char) : Bool :=
  let n := c.toNat
  c = '\t' || c = '\n' || c = '\r' || (0x20 ≤ n && n ≤ 0x7e) || n = 0x85 ||
    (0xa0 ≤ n && n ≤ 0xfffd) || 0x10000 ≤ n

/-- Whether a text is at an end or a blank. -/
def isBlankOrEnd : List Char → Bool
  | [] => true
  | c :: _ => isBlank c || isBreak c

/-- The character that a line break stands for in a scalar. -/
def breakChar (c : Char) : Char := if c = '\u2028' || c = '\u2029' then c else '\n'

/-- A place in the text. -/
structure Cursor where
  rest : List Char
  line : Nat
  column : Nat
  /-- Whether a block key or list item may begin here. -/
  keyAllowed : Bool

namespace Cursor

/-- Goes on some characters in the same line. -/
def skip (cur : Cursor) (count : Nat) : Cursor :=
  { cur with rest := cur.rest.drop count, column := cur.column + count }

/-- Goes on over blanks, line breaks and comments. Outside brackets a line break allows a key, and
where a key is allowed tabs do not count as blanks. -/
def skipBlankFrom (flow inComment keyAllowed : Bool) (line column : Nat) : List Char → Cursor
  | [] => ⟨[], line, column, keyAllowed⟩
  | '\r' :: '\n' :: rest => skipBlankFrom flow false (keyAllowed || !flow) (line + 1) 0 rest
  | c :: rest =>
    if isBreak c then skipBlankFrom flow false (keyAllowed || !flow) (line + 1) 0 rest
    else if inComment || c = ' ' || (c = '\t' && (flow || !keyAllowed)) then
      skipBlankFrom flow inComment keyAllowed line (column + 1) rest
    else if c = '#' then skipBlankFrom flow true keyAllowed line (column + 1) rest
    else ⟨c :: rest, line, column, keyAllowed⟩

def skipBlank (flow : Bool) (cur : Cursor) : Cursor :=
  skipBlankFrom flow false cur.keyAllowed cur.line cur.column cur.rest

/-- A mark of three characters at the start of a line. -/
def isMark (cur : Cursor) (mark : Char) : Bool :=
  cur.column = 0 && cur.rest.take 3 = [mark, mark, mark] && isBlankOrEnd (cur.rest.drop 3)

/-- Whether the document ends here. -/
def isEnd (cur : Cursor) : Bool := cur.rest.isEmpty || cur.isMark '-' || cur.isMark '.'

/-- Whether a list item begins here. -/
def isItem (cur : Cursor) : Bool := cur.rest.head? = some '-' && isBlankOrEnd cur.rest.tail

/-- Whether the colon after a key is here. -/
def isColon (flow : Bool) (cur : Cursor) : Bool :=
  cur.rest.head? = some ':' && (flow || isBlankOrEnd cur.rest.tail)

/-- The colon after a key that began at a line, with only blanks before it. -/
def colon? (flow : Bool) (line : Nat) (cur : Cursor) : Option Cursor :=
  let next := cur.skipBlank flow
  if next.line = line && next.isColon flow then some next else none

end Cursor

/-! ## Gaps in scalars -/

/-- The blanks and line breaks between two words of a scalar. -/
structure Gap where
  /-- The blanks before the first line break. -/
  blanks : List Char
  breaks : List Char
  /-- The column of the first tab after a line break. -/
  tab? : Option Nat
  after : Cursor

/-- Goes over a gap. -/
def gapFrom (keyAllowed : Bool) (blanks breaks : List Char) (tab? : Option Nat)
    (line column : Nat) : List Char → Gap
  | '\r' :: '\n' :: rest => gapFrom keyAllowed blanks (breaks ++ ['\n']) tab? (line + 1) 0 rest
  | c :: rest =>
    if isBreak c then gapFrom keyAllowed blanks (breaks ++ [breakChar c]) tab? (line + 1) 0 rest
    else if isBlank c then
      if breaks.isEmpty then
        gapFrom keyAllowed (blanks ++ [c]) breaks tab? line (column + 1) rest
      else
        let tab? := tab?.or (if c = '\t' then some column else none)
        gapFrom keyAllowed blanks breaks tab? line (column + 1) rest
    else ⟨blanks, breaks, tab?, ⟨c :: rest, line, column, keyAllowed⟩⟩
  | [] => ⟨blanks, breaks, tab?, ⟨[], line, column, keyAllowed⟩⟩

def gap (cur : Cursor) : Gap := gapFrom cur.keyAllowed [] [] none cur.line cur.column cur.rest

/-- What a gap stands for in the scalar: its blanks; or a blank for one line break, and the others
for several. -/
def Gap.text (g : Gap) : List Char :=
  match g.breaks with
  | [] => g.blanks
  | ['\n'] => [' ']
  | '\n' :: more => more
  | breaks => breaks

/-! ## Scalars -/

def isBracketMark (c : Char) : Bool := [',', '[', ']', '{', '}'].contains c

/-- A word of a plain scalar: up to a blank, a colon before a blank, or a mark of the brackets
around it, which must not follow a colon. -/
def plainWord (flow : Bool) : List Char → Option (List Char × List Char)
  | [] => some ([], [])
  | c :: rest =>
    if isBlank c || isBreak c || (c = ':' && isBlankOrEnd rest) || (flow && isBracketMark c) then
      some ([], c :: rest)
    else if flow && c = ':' && rest.head?.any (fun c => c = '?' || isBracketMark c) then none
    else do
      let (word, rest) ← plainWord flow rest
      return (c :: word, rest)

/-- Characters that a plain scalar cannot begin with, besides those that depend on what follows. -/
def reserved : List Char := ['#', '&', '*', '!', '|', '>', '\'', '"', '%', '@', '\x60']

/-- Whether a plain scalar can begin with these characters. -/
def startsPlain (flow : Bool) : List Char → Bool
  | [] => false
  | c :: rest =>
    if c = '-' then !isBlankOrEnd rest
    else if c = '?' || c = ':' then !flow && !isBlankOrEnd rest
    else !isBlank c && !isBreak c && !isBracketMark c && !reserved.contains c

/-- The words of a plain scalar after the first. Outside brackets they are in no column before
`least`. -/
def plainRest (flow : Bool) (least : Nat) : Nat → Cursor → Option (List Char × Cursor)
  | 0, _ => none
  | fuel + 1, cur =>
    let g := gap cur
    let after := { g.after with keyAllowed := cur.keyAllowed || !g.breaks.isEmpty }
    if !flow && g.tab?.any (· < least) then none
    else if after.isEnd || after.rest.head? = some '#' || (!flow && after.column < least) then
      some ([], after)
    else do
      let (word, rest) ← plainWord flow after.rest
      if word.isEmpty then return ([], after)
      let next : Cursor := ⟨rest, after.line, after.column + word.length, false⟩
      let (more, last) ← plainRest flow least fuel next
      return (g.text ++ word ++ more, last)

/-- A plain scalar. -/
def plain (flow : Bool) (least : Nat) (cur : Cursor) : Option (Yaml × Cursor) := do
  guard (startsPlain flow cur.rest)
  let (word, rest) ← plainWord flow cur.rest
  guard (!word.isEmpty)
  let next : Cursor := ⟨rest, cur.line, cur.column + word.length, false⟩
  let (more, last) ← plainRest flow least (rest.length + 1) next
  return (scalar true (String.ofList (word ++ more)), last)

/-- The character that a letter after a backslash stands for. -/
def escape? : Char → Option Char
  | '0' => some '\x00'
  | 'a' => some '\x07'
  | 'b' => some '\x08'
  | 't' | '\t' => some '\t'
  | 'n' => some '\n'
  | 'v' => some '\x0b'
  | 'f' => some '\x0c'
  | 'r' => some '\r'
  | 'e' => some '\x1b'
  | ' ' => some ' '
  | '"' => some '"'
  | '/' => some '/'
  | '\\' => some '\\'
  | 'N' => some '\u0085'
  | '_' => some '\u00a0'
  | 'L' => some '\u2028'
  | 'P' => some '\u2029'
  | _ => none

/-- The number of hexadecimal digits after a letter that calls for them. -/
def escapeLength? : Char → Option Nat
  | 'x' => some 2
  | 'u' => some 4
  | 'U' => some 8
  | _ => none

/-- The character of an escape, and how many characters it takes after the backslash. -/
def readEscape? : List Char → Option (Char × Nat)
  | [] => none
  | c :: rest =>
    match escapeLength? c with
    | none => (escape? c).map (·, 1)
    | some count => do
      let digits := rest.take count
      guard (digits.length = count)
      let value ← digits? 16 digits
      if value.isValidChar then some (Char.ofNat value, count + 1) else none

/-- The rest of a quoted scalar. A backslash before a line break takes the place of the blank. -/
def quotedRest (quote : Char) : Nat → Cursor → Option (List Char × Cursor)
  | 0, _ => none
  | fuel + 1, cur =>
    if cur.isMark '-' || cur.isMark '.' then none
    else match cur.rest with
      | [] => none
      | c :: rest =>
        if c = quote then
          if quote = '\'' && rest.head? = some quote then do
            let (more, last) ← quotedRest quote fuel (cur.skip 2)
            return (quote :: more, last)
          else some ([], cur.skip 1)
        else if c = '\\' && quote = '"' then
          if rest.head?.any isBreak then do
            let g := gap (cur.skip 1)
            let (more, last) ← quotedRest quote fuel g.after
            return (g.breaks.drop 1 ++ more, last)
          else do
            let (value, count) ← readEscape? rest
            let (more, last) ← quotedRest quote fuel (cur.skip (count + 1))
            return (value :: more, last)
        else if isBlank c || isBreak c then do
          let g := gap cur
          let (more, last) ← quotedRest quote fuel g.after
          return (g.text ++ more, last)
        else do
          let (more, last) ← quotedRest quote fuel (cur.skip 1)
          return (c :: more, last)

/-- A scalar in quotes. -/
def quoted (quote : Char) (cur : Cursor) : Option (Yaml × Cursor) := do
  let start := { cur.skip 1 with keyAllowed := false }
  let (text, last) ← quotedRest quote (cur.rest.length + 1) start
  return (scalar false (String.ofList text), last)

/-! ## Values in brackets -/

mutual

/-- A value in brackets, at its first character. -/
def flowNode : Nat → Cursor → Option (Yaml × Cursor)
  | 0, _ => none
  | fuel + 1, cur =>
    if cur.isMark '-' || cur.isMark '.' then none
    else match cur.rest with
      | '[' :: _ => do
        let (items, last) ← flowItems fuel (cur.skip 1)
        return (list items, last)
      | '{' :: _ => do
        let (members, last) ← flowMembers fuel (cur.skip 1)
        return (mapping members, last)
      | '"' :: _ => quoted '"' cur
      | '\'' :: _ => quoted '\'' cur
      | _ => plain true 0 cur

/-- The value after a colon in brackets, which may be missing. -/
def flowValue : Nat → Cursor → Option (Yaml × Cursor)
  | 0, _ => none
  | fuel + 1, cur =>
    let cur := cur.skipBlank true
    if cur.rest.head?.any fun c => c = ',' || c = ']' || c = '}' then some (empty, cur)
    else flowNode fuel cur

/-- The items of a list up to its bracket. A comma may follow the last, and an item with a colon is
a mapping of its own. -/
def flowItems : Nat → Cursor → Option (List Yaml × Cursor)
  | 0, _ => none
  | fuel + 1, cur =>
    let start := cur.skipBlank true
    if start.rest.head? = some ']' then some ([], { start.skip 1 with keyAllowed := false })
    else do
      let (node, next) ← flowNode fuel start
      let (item, next) ← match next.colon? true start.line with
        | some colon => do
          let (value, next) ← flowValue fuel (colon.skip 1)
          pure (mapping [(node, value)], next)
        | none => pure (node, next)
      let next := next.skipBlank true
      match next.rest.head? with
      | some ',' => do
        let (items, last) ← flowItems fuel (next.skip 1)
        return (item :: items, last)
      | some ']' => return ([item], { next.skip 1 with keyAllowed := false })
      | _ => none

/-- The members of a mapping up to its bracket. A key without a colon has no value. -/
def flowMembers : Nat → Cursor → Option (List (Yaml × Yaml) × Cursor)
  | 0, _ => none
  | fuel + 1, cur =>
    let start := cur.skipBlank true
    if start.rest.head? = some '}' then some ([], { start.skip 1 with keyAllowed := false })
    else do
      let (key, next) ← flowNode fuel start
      let (value, next) ← match next.colon? true start.line with
        | some colon => flowValue fuel (colon.skip 1)
        | none => pure (empty, next)
      let next := next.skipBlank true
      match next.rest.head? with
      | some ',' => do
        let (members, last) ← flowMembers fuel (next.skip 1)
        return ((key, value) :: members, last)
      | some '}' => return ([(key, value)], { next.skip 1 with keyAllowed := false })
      | _ => none

end

/-! ## Values by indentation -/

/-- A value that is no block mapping or list, at its first character. -/
def leaf (fuel least : Nat) (cur : Cursor) : Option (Yaml × Cursor) :=
  match cur.rest with
  | '[' :: _ | '{' :: _ => flowNode fuel cur
  | '"' :: _ => quoted '"' cur
  | '\'' :: _ => quoted '\'' cur
  | _ => plain false least cur

/-- A key and the place of its colon, which stands in the line where the key begins. -/
def key? (fuel least : Nat) (cur : Cursor) : Option (Yaml × Cursor) :=
  if cur.isColon false then some (empty, cur)
  else do
    let (key, next) ← leaf fuel least cur
    return (key, ← next.colon? false cur.line)

mutual

/-- A value in no column before `least`. The items of a list that is the value of a key may stand
right below the key, one column before. -/
def blockNode : Nat → Nat → Bool → Cursor → Option (Yaml × Cursor)
  | 0, _, _, _ => none
  | fuel + 1, least, underKey, cur =>
    let cur := cur.skipBlank false
    let isList := cur.isItem && (least ≤ cur.column || (underKey && least = cur.column + 1))
    if cur.isEnd then some (empty, cur)
    else if isList then
      if cur.keyAllowed then do
        let (items, last) ← blockItems fuel cur.column (cur.column < least) (cur.skip 1)
        return (list items, last)
      else none
    else if cur.column < least then some (empty, cur)
    else if cur.isColon false then
      if cur.keyAllowed then do
        let (members, last) ← blockMembers fuel cur.column empty cur
        return (mapping members, last)
      else none
    else do
      let (node, next) ← leaf fuel least cur
      match next.colon? false cur.line with
      | some colon =>
        if cur.keyAllowed then do
          let (members, last) ← blockMembers fuel cur.column node colon
          return (mapping members, last)
        else none
      | none => return (node, next)

/-- The items of a list in a column, from behind the first dash. A list right below its key ends
before the next key. -/
def blockItems : Nat → Nat → Bool → Cursor → Option (List Yaml × Cursor)
  | 0, _, _, _ => none
  | fuel + 1, column, underKey, cur => do
    let (item, next) ← blockNode fuel (column + 1) false { cur with keyAllowed := true }
    let next := next.skipBlank false
    if next.isEnd || next.column < column then return ([item], next)
    else if next.column = column && next.isItem then
      let (items, last) ← blockItems fuel column underKey (next.skip 1)
      return (item :: items, last)
    else if next.column = column && underKey then return ([item], next)
    else none

/-- The members of a mapping in a column, from the colon of the first key. -/
def blockMembers : Nat → Nat → Yaml → Cursor → Option (List (Yaml × Yaml) × Cursor)
  | 0, _, _, _ => none
  | fuel + 1, column, key, colon => do
    let (value, next) ← blockNode fuel (column + 1) true { colon.skip 1 with keyAllowed := false }
    let next := next.skipBlank false
    if next.isEnd || next.column < column then return ([(key, value)], next)
    else if next.column = column then
      let (nextKey, nextColon) ← key? fuel (column + 1) next
      let (members, last) ← blockMembers fuel column nextKey nextColon
      return ((key, value) :: members, last)
    else none

end

/-! ## Documents -/

/-- Whether there is nothing more after a document. -/
def isFinished (cur : Cursor) : Bool :=
  let cur := cur.skipBlank false
  let cur := if cur.isMark '.' then { cur.skip 3 with keyAllowed := false }.skipBlank false else cur
  cur.rest.isEmpty

/-- The value of a text that is one document. -/
def read? (text : String) : Option Yaml := do
  let chars := text.toList
  guard (chars.all isAllowed)
  let chars := if chars.head? = some '\ufeff' then chars.tail else chars
  let start := (Cursor.mk chars 0 0 true).skipBlank false
  let start := if start.isMark '-' then { start.skip 3 with keyAllowed := false } else start
  let (value, last) ← blockNode (4 * chars.length + 4) 0 false start
  if isFinished last then some value else none

end Yaml

end Minifier
