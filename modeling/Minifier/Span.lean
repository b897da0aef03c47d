/-!
# Places in a source text

A `Span` is a stretch of source text: byte offsets of its two ends, and the line and column of its
start. Nodes that no source text stands for carry `Span.synthetic`, which every other span absorbs.
-/

set_option autoImplicit false

namespace Minifier

/-- Byte offsets `start` and `stop` into a source text, with the line and column of the start, both
counted from one. -/
structure Span where
  start : Nat
  stop : Nat
  line : Nat
  column : Nat
deriving DecidableEq, Repr

namespace Span

/-- The span of a node that no source text stands for. -/
def synthetic : Span := ⟨0, 0, 0, 0⟩

instance : Inhabited Span := ⟨synthetic⟩

/-- A span with neither extent nor line; the column does not count. -/
def isSynthetic (s : Span) : Bool := s.start = 0 && s.stop = 0 && s.line = 0

/-- The smallest span around both, at the line and column of the one that starts first. A synthetic
span on either side gives the other. -/
def combine (s t : Span) : Span :=
  if s.isSynthetic then t
  else if t.isSynthetic then s
  else
    let first := if s.start ≤ t.start then s else t
    ⟨min s.start t.start, max s.stop t.stop, first.line, first.column⟩

/-- The number of bytes covered; none when the ends are the wrong way round. -/
def length (s : Span) : Nat := s.stop - s.start

def isEmpty (s : Span) : Bool := s.length = 0

/-- The start as `line:column`. -/
def text (s : Span) : String := s!"{s.line}:{s.column}"

end Span

/-- What is left of a text after its first `count` bytes, unless that cuts a character or runs past
the end. -/
def dropBytes? : Nat → List Char → Option (List Char)
  | 0, cs => some cs
  | _ + 1, [] => none
  | count + 1, c :: cs =>
    if c.utf8Size ≤ count + 1 then dropBytes? (count + 1 - c.utf8Size) cs else none

/-- The first `count` bytes of a text, unless that cuts a character or runs past the end. -/
def takeBytes? : Nat → List Char → Option (List Char)
  | 0, _ => some []
  | _ + 1, [] => none
  | count + 1, c :: cs =>
    if c.utf8Size ≤ count + 1 then (takeBytes? (count + 1 - c.utf8Size) cs).map (c :: ·) else none

/-- The stretch of `source` that a span covers, its end cut to the end of the source. It is empty
when the span is the wrong way round or cuts a character. -/
def Span.slice (s : Span) (source : String) : String :=
  let stop := min s.stop source.utf8ByteSize
  if s.start ≤ stop then
    let chars := do takeBytes? (stop - s.start) (← dropBytes? s.start source.toList)
    String.ofList (chars.getD [])
  else ""

end Minifier
