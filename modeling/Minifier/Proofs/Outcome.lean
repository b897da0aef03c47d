import Minifier.Proofs.Parse.Position
import Minifier.Proofs.Scope.Closed
import Minifier.Proofs.Token.Place

/-!
# Nothing fails after the parser

A source that can be read is minified: the phases in which names are chosen follow each other on
every path, whatever the settings switch off (`exists_minify`). And nothing on the way is out of
range: tokens and faults are stretches of the source, the parser is always at one of the tokens,
every number of a scope or field is that of one, and the places at which lists are changed are in
them (`ReadsInside`, `WalksInside`, `BoundProgram.IsInside`, `PlacesInside`).
-/

set_option autoImplicit false

namespace Minifier

open List

/-! ## Places in lists -/

theorem length_takeWhile_le_filter {α : Type} {p q : α → Bool} (implies : ∀ a, p a = true → q a = true)
    (l : List α) : (l.takeWhile p).length ≤ (l.filter q).length := by
  have kept : ∀ a ∈ l.takeWhile p, q a = true := fun a mem =>
    implies a (all_eq_true.mp all_takeWhile a mem)
  have all := (takeWhile_sublist p (l := l)).filter q
  rw [filter_eq_self.mpr kept] at all
  exact all.length_le

/-- What stands before the insertion point is no function. -/
theorem Block.insertionPoint_le_rest (b : Block) :
    b.insertionPoint ≤ (b.statements.partition Statement.isFunction).2.length := by
  unfold Block.insertionPoint
  rw [partition_eq_filter_filter]
  refine length_takeWhile_le_filter (fun s isFirst => ?_) b.statements
  cases s <;> simp_all [Statement.isDirective, Statement.isFunction]

theorem length_hoistFunctions (index : Nat) (statements : List Statement) :
    (hoistFunctions index statements).value.length = statements.length := by
  unfold hoistFunctions
  split
  · rfl
  · have whole := congrArg List.length (take_append_drop index
      (statements.filter (not ∘ Statement.isFunction)))
    have parts := length_eq_length_filter_add (l := statements) Statement.isFunction
    simp only [partition_eq_filter_filter, Edited.value_of, length_append] at whole ⊢
    have rest : (statements.filter (not ∘ Statement.isFunction)).length =
      (statements.filter fun s => !s.isFunction).length := rfl
    omega

theorem lt_of_redundantCase {settings : Settings} {cases : List SwitchCase} {index : Nat}
    (found : redundantCase? settings cases = some index) : index < cases.length := by
  have mem := mem_of_find?_eq_some found
  exact mem_range.mp (mem_reverse.mp mem)

/-- The places at which lists are changed, and the characters of short names, are in range. -/
structure PlacesInside (settings : Settings) : Prop where
  insert : ∀ b : Block, b.insertionPoint ≤ b.statements.length
  /-- Functions are put among the statements that are none. -/
  hoist : ∀ b : Block, b.insertionPoint ≤ (b.statements.partition Statement.isFunction).2.length
  /-- The place is still there when the functions have moved. -/
  gather : ∀ b : Block, b.insertionPoint ≤ (Edited.when (settings.applies .moveFunctions)
    (hoistFunctions b.insertionPoint) b.statements).value.length
  removeCase : ∀ cases index, redundantCase? settings cases = some index → index < cases.length
  shortName : ∀ n, n % 64 < ShortName.nextChars.length ∧ n % 54 < ShortName.firstChars.length

theorem placesInside (settings : Settings) : PlacesInside settings where
  insert b := (takeWhile_sublist _).length_le
  hoist b := b.insertionPoint_le_rest
  gather b := by
    unfold Edited.when
    split
    · rw [length_hoistFunctions]
      exact (takeWhile_sublist _).length_le
    · exact (takeWhile_sublist _).length_le
  removeCase _ _ := lt_of_redundantCase
  shortName n := ⟨Nat.mod_lt _ (by decide), Nat.mod_lt _ (by decide)⟩

/-! ## Reading -/

/-- Whatever becomes of a source, nothing that its reader looks at is out of range. -/
structure ReadsInside (source : String) : Prop where
  /-- A stretch of the source is cut out of it, at offsets that fit a word. -/
  slice : ∀ (span : Span) text, span.Covers source text →
    span.stop < 2 ^ 32 ∧ span.slice source = String.ofList text
  fault : ∀ e, Token.scan source = .error e → ∃ text, e.span.Covers source text
  token : ∀ tokens, Token.scan source = .ok tokens → ∀ token ∈ tokens, token.IsIn source
  /-- Every rule of the parser goes from token to token, and the parser is always at one. -/
  rules : ∀ fuel, Parser.Rules Parser.anyName fuel
  stream : ∀ tokens, Token.scan source = .ok tokens → ∀ s,
    (TokenStream.ofTokens tokens).Follows s → s.IsAmong (TokenStream.ofTokens tokens).tokens
  complaint : ∀ tokens, Token.scan source = .ok tokens → ∀ e, Program.parse tokens = .error e →
    ∃ token ∈ (TokenStream.ofTokens tokens).tokens, e.found = token.lexeme ∧ e.span = token.span

theorem readsInside {source : String} (small : source.utf8ByteSize < 2 ^ 32) : ReadsInside source where
  slice _ _ covers := ⟨Nat.lt_of_le_of_lt covers.stop_le.2 small, Span.slice_of_covers covers⟩
  fault := (Token.scan_isIn source).1
  token := (Token.scan_isIn source).2
  rules := Parser.rules Parser.anyName
  stream tokens _ _ follows := (TokenStream.IsAmong.ofTokens tokens).follows follows
  complaint _ _ _ failed := Program.parse_isAbout failed

/-! ## Minifying -/

/-- At every step of the walks that make and change the tree, it is closed, and the open
scopes and the numbers given out so far are in range. -/
structure WalksInside (settings : Settings) : Prop where
  declarations : InStep Bind.inside {} Bind.declarations
  references : InStep Bind.inside {} (Bind.references settings)
  simplify : InStep Simplify.editing.bond {} (Simplify.rules settings)

theorem walksInside (settings : Settings) : WalksInside settings where
  declarations := Bind.declarations_inside
  references := Bind.references_inside settings
  simplify := Simplify.rules_inStep Simplify.editing settings

/-- A program that was read goes through all stages and is printed. -/
theorem exists_minify {source : String} {tokens : List Token} {p : Program}
    (isScanned : Token.scan source = .ok tokens) (isParsed : Program.parse tokens = .ok p)
    (settings : Settings) : ∃ named, p.Reaches named ∧
      ((p.bind settings).shrink settings).chooseNames settings = .ok named ∧
      (minify settings source).code = .ok (named.text settings) := by
  have unbound := Program.isUnbound_of_parse isScanned isParsed
  have start : p.Reaches (p.bind settings) := ⟨settings, .refl⟩
  obtain ⟨named, isNamed, -⟩ := Program.exists_chooseNames settings unbound
  refine ⟨named, (start.shrink settings).chooseNames isNamed, isNamed, ?_⟩
  simp only [minify, isScanned, Program.parseReported, isParsed, Program.minify, isNamed]

/-- There is output exactly if the source can be read, and neither reading it nor what comes after
looks at anything that is out of range. -/
theorem minify_total (settings : Settings) {source : String} (small : source.utf8ByteSize < 2 ^ 32) :
    ((∃ text, (minify settings source).code = .ok text) ↔
      ∃ tokens p, Token.scan source = .ok tokens ∧ Program.parse tokens = .ok p) ∧
    ReadsInside source ∧ WalksInside settings ∧ PlacesInside settings ∧
    ∀ tokens p, Token.scan source = .ok tokens → Program.parse tokens = .ok p →
      (∀ b, p.Reaches b → b.IsInside) ∧ p.Reaches (p.bind settings) ∧
      p.Reaches ((p.bind settings).shrink settings) ∧
      ∃ named, p.Reaches named ∧
        ((p.bind settings).shrink settings).chooseNames settings = .ok named ∧
        (minify settings source).code = .ok (named.text settings) := by
  refine ⟨⟨?_, ?_⟩, readsInside small, walksInside settings, placesInside settings,
    fun tokens p isScanned isParsed => ?_⟩
  · rintro ⟨text, isText⟩
    unfold minify Program.parseReported at isText
    split at isText
    · cases isText
    · rename_i tokens isScanned
      cases isParsed : Program.parse tokens with
      | error e => simp [isParsed] at isText
      | ok p => exact ⟨tokens, p, isScanned, isParsed⟩
  · rintro ⟨tokens, p, isScanned, isParsed⟩
    obtain ⟨named, -, -, isText⟩ := exists_minify isScanned isParsed settings
    exact ⟨_, isText⟩
  · have unbound := Program.isUnbound_of_parse isScanned isParsed
    have start : p.Reaches (p.bind settings) := ⟨settings, .refl⟩
    exact ⟨fun b reaches => reaches.isInside unbound, start, start.shrink settings,
      exists_minify isScanned isParsed settings⟩

/-- A kept comment with a character of two bytes, a function to move, and a clause to drop. -/
theorem minify_total_kept_comment :
    "/*!é*/function f(a){switch(a){case 1:break}function g(){return f}}".utf8ByteSize < 2 ^ 32 ∧
    ∃ text, (minify {}
      "/*!é*/function f(a){switch(a){case 1:break}function g(){return f}}").code = .ok text := by
  have small : "/*!é*/function f(a){switch(a){case 1:break}function g(){return f}}".utf8ByteSize <
      2 ^ 32 := by
    decide +kernel
  exact ⟨small, (minify_total {} small).1.mpr (Program.exists_of_isReadable (by decide +kernel))⟩

end Minifier
