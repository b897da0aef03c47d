import Mathlib.Algebra.Order.Field.Rat
import Mathlib.Data.List.Basic
import Mathlib.Data.List.TakeWhile
import Mathlib.Tactic.Ring
import Minifier.Token.Scan

/-!
# Number literals denote their digits

A literal is in one of several notations: digits with zeros, digits with an exponent, with a point
among them or before them, or scientific. All of them are digits, a point and an exponent, some of
which may be missing (`DecimalText`), and such a text is read as a decimal, all of it and nothing of
what comes after it (`DecimalText.decimal?_chars`). Which notation is chosen makes no difference to
the value (`Decimal.exists_text`), so the literal of a number denotes the shortest decimal that the
number has (`Number.literal_denotes`).
-/

set_option autoImplicit false

namespace Minifier

open List

namespace Decimal

/-- The number that a decimal stands for. -/
def value (d : Decimal) : ℚ := d.digits * 10 ^ d.exponent

end Decimal

/-! ## Reading -/

/-- The decimal that a number literal is read as. Hexadecimal and octal literals are none. -/
def decimal? (cur : Cursor) : Option (Reading (Decimal × Cursor)) :=
  match cur.rest with
  | '0' :: 'x' :: _ => none
  | '0' :: 'X' :: _ => none
  | _ =>
    let (whole, after) := cur.takeWhile Char.isDigit
    if 1 < whole.length && whole.head? = some '0' && whole.all isOctalDigit &&
        after.rest.head? ≠ some '.' then none
    else some (readDecimal whole after)

theorem readNumber_of_decimal? {cur after : Cursor} {d : Decimal}
    (read : decimal? cur = some (.ok (d, after))) : readNumber cur = .ok (.ofDecimal d, after) := by
  unfold readNumber
  split
  · rename_i isHex
    simp [decimal?, isHex] at read
  · rename_i isHex
    simp [decimal?, isHex] at read
  · rename_i notSmall notCapital
    unfold decimal? at read
    split at read
    · cases read
    · cases read
    · dsimp only at read ⊢
      split at read
      · cases read
      · rename_i notOctal
        rw [if_neg notOctal, Option.some.inj read]
        rfl

/-- Characters of a class are read up to one that is not of it. -/
theorem Cursor.takeWhile_append {class_ : Char → Bool} {cs rest : List Char}
    (all : ∀ c ∈ cs, class_ c = true) (ends : ∀ c ∈ rest.head?, class_ c = false) (pos : Position) :
    Cursor.takeWhile class_ ⟨pos, cs ++ rest⟩ = (cs, ⟨pos.after cs, rest⟩) := by
  have stop : rest.takeWhile class_ = [] ∧ rest.dropWhile class_ = rest := by
    cases rest with
    | nil => exact ⟨rfl, rfl⟩
    | cons c rest => simp [ends c rfl]
  simp only [Cursor.takeWhile]
  rw [takeWhile_append_of_pos all, dropWhile_append_of_pos all, stop.1, stop.2, append_nil]

theorem isIdentifierPart_of_isDigit {c : Char} (digit : c.isDigit = true) :
    isIdentifierPart c = true := by
  have all : ∀ n < 0x3A, 0x30 ≤ n → isIdentifierPart (Char.ofNat n) = true := by decide
  have isPoint : 0x30 ≤ c.toNat ∧ c.toNat ≤ 0x39 := by
    simp only [Char.isDigit, Bool.and_eq_true, decide_eq_true_eq] at digit
    exact digit
  have part := all c.toNat (by omega) isPoint.1
  rwa [Char.ofNat_toNat] at part

/-- Nothing after a text goes on with a word. -/
def EndsWord (rest : List Char) : Prop := ∀ c ∈ rest.head?, isIdentifierPart c = false

theorem EndsWord.of_part {rest : List Char} (ends : EndsWord rest) (class_ : Char → Bool)
    (part : ∀ c, class_ c = true → isIdentifierPart c = true) :
    ∀ c ∈ rest.head?, class_ c = false := by
  intro c mem
  rw [Bool.eq_false_iff]
  intro isClass
  have notPart := ends c mem
  rw [part c isClass] at notPart
  cases notPart

theorem EndsWord.notDigit {rest : List Char} (ends : EndsWord rest) :
    ∀ c ∈ rest.head?, c.isDigit = false :=
  ends.of_part _ fun _ => isIdentifierPart_of_isDigit

theorem isDigit_of_mem_digitText {c : Char} {n : Nat} (mem : c ∈ Nat.toDigits 10 n) :
    c.isDigit = true :=
  Nat.isDigit_of_mem_toDigits (by decide) (by decide) mem

/-- The digits of an exponent, which come after its sign. -/
theorem exponentDigits_toDigits (negative : Bool) (n : Nat) (pos : Position) {rest : List Char}
    (ends : EndsWord rest) :
    (match Cursor.takeWhile Char.isDigit ⟨pos, Nat.toDigits 10 n ++ rest⟩ with
      | ([], _) => (.error (.invalidExponent, pos) : Reading (Int × Cursor))
      | (digits, cur) => .ok (if negative then -(ofDigits digits : Int) else ofDigits digits, cur)) =
      .ok (if negative then -(n : Int) else n, ⟨pos.after (Nat.toDigits 10 n), rest⟩) := by
  have value : ofDigits (Nat.toDigits 10 n) = n := Nat.ofDigitChars_ten_toDigits
  rw [Cursor.takeWhile_append (fun _ => isDigit_of_mem_digitText) ends.notDigit]
  cases isText : Nat.toDigits 10 n with
  | nil => exact absurd isText Nat.toDigits_ne_nil
  | cons c cs =>
    rw [isText] at value
    simp only [value]

theorem readExponent_integerText (n : Int) (pos : Position) {rest : List Char}
    (ends : EndsWord rest) :
    readExponent ⟨pos, 'e' :: Decimal.integerText n ++ rest⟩ =
      .ok (n, ⟨pos.after ('e' :: Decimal.integerText n), rest⟩) := by
  unfold Decimal.integerText
  split
  · rename_i negative
    have digits := exponentDigits_toDigits true n.natAbs ((pos.next 'e').next '-') ends
    rw [if_pos rfl, show -(n.natAbs : Int) = n by omega] at digits
    exact digits
  · rename_i positive
    have digits := exponentDigits_toDigits false n.natAbs (pos.next 'e') ends
    rw [if_neg (by decide), show (n.natAbs : Int) = n by omega] at digits
    have noSign : Cursor.eat? (fun c => c = '+' || c = '-')
        ⟨pos.next 'e', Nat.toDigits 10 n.natAbs ++ rest⟩ = none := by
      cases isText : Nat.toDigits 10 n.natAbs with
      | nil => exact absurd isText Nat.toDigits_ne_nil
      | cons c cs =>
        have digit : c.isDigit = true := isDigit_of_mem_digitText (isText ▸ mem_cons_self)
        have notPlus : c ≠ '+' := by rintro rfl; cases digit
        have notMinus : c ≠ '-' := by rintro rfl; cases digit
        simp [Cursor.eat?, notPlus, notMinus]
    have marked : Cursor.eat? (fun c => c = 'e' || c = 'E')
        ⟨pos, 'e' :: Nat.toDigits 10 n.natAbs ++ rest⟩ =
        some ('e', ⟨pos.next 'e', Nat.toDigits 10 n.natAbs ++ rest⟩) := rfl
    unfold readExponent
    rw [marked]
    dsimp only
    rw [noSign]
    exact digits

/-- Digits, perhaps with a point among them, and perhaps with an exponent. -/
structure DecimalText where
  whole : List Char
  places : Option (List Char)
  power : Option Int

namespace DecimalText

variable (t : DecimalText)

/-- The digits that follow the point. -/
def fraction : List Char := t.places.getD []

/-- The point and the places. -/
def pointText : List Char := t.places.elim [] ('.' :: ·)

/-- The exponent. -/
def powerText : List Char := t.power.elim [] fun n => 'e' :: Decimal.integerText n

/-- The whole text. -/
def chars : List Char := t.whole ++ (t.pointText ++ t.powerText)

/-- The number it stands for. -/
def decimal : Decimal := ⟨ofDigits (t.whole ++ t.fraction), t.power.getD 0 - t.fraction.length⟩

/-- The text is a decimal literal: there are digits, and no zero before others. -/
structure IsLiteral : Prop where
  digits : ∀ c ∈ t.whole ++ t.fraction, c.isDigit = true
  some_digit : t.whole ++ t.fraction ≠ []
  no_zero : t.whole.head? = some '0' → t.whole = ['0']

/-- Nothing in a text that comes after goes on with the literal. -/
structure EndsBefore (rest : List Char) : Prop where
  word : EndsWord rest
  point : t.places = none → t.power = none → rest.head? ≠ some '.'

variable {t} {rest : List Char}

theorem readExponent_powerText (ends : EndsWord rest) (pos : Position) :
    readExponent ⟨pos, t.powerText ++ rest⟩ =
      .ok (t.power.getD 0, ⟨pos.after t.powerText, rest⟩) := by
  unfold powerText
  cases t.power with
  | some n => exact readExponent_integerText n pos ends
  | none =>
    have noMark : Cursor.eat? (fun c => c = 'e' || c = 'E') ⟨pos, rest⟩ = none := by
      have notMark := ends.of_part (fun c => c = 'e' || c = 'E') (by
        intro c isMark
        simp only [Bool.or_eq_true, decide_eq_true_eq] at isMark
        rcases isMark with rfl | rfl <;> rfl)
      cases rest with
      | nil => rfl
      | cons c rest => simpa [Cursor.eat?] using notMark c rfl
    simp [readExponent, noMark, Position.after]

/-- What comes after the digits of a literal is its exponent, and then none of it. -/
theorem readEnd_powerText (ends : EndsWord rest) (pos : Position) (whole places : List Char) :
    (do
      let (exponent, cur) ← readExponent ⟨pos, t.powerText ++ rest⟩
      match cur.rest with
      | c :: _ => if isIdentifierStart c then throw (.identifierAfterNumber, cur.pos)
      | [] => pure ()
      return ((⟨ofDigits (whole ++ places), exponent - places.length⟩ : Decimal), cur)) =
      (.ok (⟨ofDigits (whole ++ places), t.power.getD 0 - places.length⟩,
        ⟨pos.after t.powerText, rest⟩) : Reading (Decimal × Cursor)) := by
  rw [readExponent_powerText ends]
  cases rest with
  | nil => rfl
  | cons c rest =>
    have notStart := ends.of_part isIdentifierStart
      (fun c start => by simp [isIdentifierPart, start]) c rfl
    simp [bind, Except.bind, notStart, pure, Except.pure]

theorem readDecimal_pointText (literal : t.IsLiteral) (ends : t.EndsBefore rest) (pos : Position) :
    readDecimal t.whole ⟨pos, t.pointText ++ (t.powerText ++ rest)⟩ =
      .ok (t.decimal, ⟨pos.after (t.pointText ++ t.powerText), rest⟩) := by
  unfold readDecimal
  cases isPlaces : t.places with
  | none =>
    have noPoint : Cursor.eat? (· = '.') ⟨pos, t.powerText ++ rest⟩ = none := by
      unfold powerText
      cases isPower : t.power with
      | some n => rfl
      | none =>
        have notPoint := ends.point isPlaces isPower
        cases rest with
        | nil => rfl
        | cons c rest => simpa [Cursor.eat?] using notPoint
    have isDecimal : t.decimal =
        ⟨ofDigits (t.whole ++ []), t.power.getD 0 - ([] : List Char).length⟩ := by
      simp [decimal, fraction, isPlaces]
    simp only [pointText, isPlaces, Option.elim_none, nil_append, noPoint, isDecimal]
    exact readEnd_powerText ends.word pos t.whole []
  | some places =>
    have digits : ∀ c ∈ places, c.isDigit = true := fun c mem =>
      literal.digits c (mem_append_right _ (by simpa [fraction, isPlaces] using mem))
    have stop : ∀ c ∈ (t.powerText ++ rest).head?, c.isDigit = false := by
      unfold powerText
      cases t.power with
      | some n => simp
      | none => exact ends.word.notDigit
    have run := Cursor.takeWhile_append digits stop (pos.next '.')
    have point : Cursor.eat? (· = '.') ⟨pos, '.' :: (places ++ (t.powerText ++ rest))⟩ =
        some ('.', ⟨pos.next '.', places ++ (t.powerText ++ rest)⟩) := rfl
    have isDecimal : t.decimal =
        ⟨ofDigits (t.whole ++ places), t.power.getD 0 - places.length⟩ := by
      simp [decimal, fraction, isPlaces]
    have isPos : pos.after ('.' :: (places ++ t.powerText)) =
        ((pos.next '.').after places).after t.powerText := by
      simp [Position.after]
    simp only [pointText, isPlaces, Option.elim_some, cons_append, point, run, isDecimal, isPos]
    exact readEnd_powerText ends.word _ t.whole places

/-- What follows the digits before the point: the point, the exponent, or what ends the literal. -/
theorem head_pointText (ends : t.EndsBefore rest) :
    ∀ c ∈ (t.pointText ++ (t.powerText ++ rest)).head?,
      c = '.' ∨ c = 'e' ∨ isIdentifierPart c = false := by
  intro c mem
  unfold pointText powerText at mem
  cases isPlaces : t.places with
  | some places =>
    rw [isPlaces] at mem
    exact .inl (Option.some.inj mem).symm
  | none =>
    rw [isPlaces] at mem
    cases isPower : t.power with
    | some n =>
      rw [isPower] at mem
      exact .inr (.inl (Option.some.inj mem).symm)
    | none =>
      rw [isPower] at mem
      exact .inr (.inr (ends.word c mem))

/-- The text is read as a decimal literal, whatever comes after it. -/
theorem decimal?_chars (literal : t.IsLiteral) (ends : t.EndsBefore rest) (pos : Position) :
    decimal? ⟨pos, t.chars ++ rest⟩ = some (.ok (t.decimal, ⟨pos.after t.chars, rest⟩)) := by
  have isText : t.chars ++ rest = t.whole ++ (t.pointText ++ (t.powerText ++ rest)) := by
    simp [chars]
  have notHex : ∀ mark left, t.chars ++ rest = '0' :: mark :: left → mark ≠ 'x' ∧ mark ≠ 'X' := by
    intro mark left isHex
    have isMark : (t.pointText ++ (t.powerText ++ rest)).head? = some mark := by
      rw [isText] at isHex
      cases isWhole : t.whole with
      | nil =>
        -- without digits before it, the text starts with the point
        have isPoint : ∃ places, t.places = some places := by
          have some_digit := literal.some_digit
          rw [isWhole, nil_append, fraction] at some_digit
          cases isPlaces : t.places with
          | none => exact absurd (by rw [isPlaces]; rfl) some_digit
          | some places => exact ⟨places, rfl⟩
        obtain ⟨places, isPlaces⟩ := isPoint
        simp [isWhole, pointText, isPlaces] at isHex
      | cons c cs =>
        rw [isWhole] at isHex
        obtain ⟨rfl, isRest⟩ := List.cons.inj isHex
        have alone := literal.no_zero (by rw [isWhole]; rfl)
        obtain rfl : cs = [] := by simpa [isWhole] using alone
        rw [show t.pointText ++ (t.powerText ++ rest) = mark :: left from isRest]
        rfl
    have after := head_pointText ends mark isMark
    constructor <;> rintro rfl <;> rcases after with after | after | after <;> cases after
  have run : Cursor.takeWhile Char.isDigit ⟨pos, t.whole ++ (t.pointText ++ (t.powerText ++ rest))⟩ =
      (t.whole, ⟨pos.after t.whole, t.pointText ++ (t.powerText ++ rest)⟩) := by
    refine Cursor.takeWhile_append (fun c mem => literal.digits c (mem_append_left _ mem)) ?_ pos
    intro c mem
    rw [Bool.eq_false_iff]
    intro digit
    rcases head_pointText ends c mem with rfl | rfl | notPart
    · cases digit
    · cases digit
    · rw [isIdentifierPart_of_isDigit digit] at notPart
      cases notPart
  unfold decimal?
  split
  · rename_i isHex
    exact absurd rfl (notHex _ _ isHex).1
  · rename_i isHex
    exact absurd rfl (notHex _ _ isHex).2
  · have notOctal : (1 < t.whole.length && t.whole.head? = some '0') = false := by
      rw [Bool.eq_false_iff]
      intro octal
      simp only [Bool.and_eq_true, decide_eq_true_eq] at octal
      rw [literal.no_zero octal.2] at octal
      exact absurd octal.1 (by decide)
    have isPos : pos.after t.chars = (pos.after t.whole).after (t.pointText ++ t.powerText) := by
      simp [chars, Position.after]
    rw [isText, run]
    simp only [notOctal, Bool.false_and, Bool.false_eq_true, if_false]
    rw [readDecimal_pointText literal ends, isPos]

end DecimalText

/-! ## Notations -/

/-- The digits of a number start with a zero only if the number is zero. -/
theorem head_toDigits (n : Nat) (isHead : (Nat.toDigits 10 n).head? = some '0') : n = 0 := by
  induction n using Nat.strongRecOn with
  | ind n ih =>
    by_cases small : n < 10
    · have all : ∀ k < 10, Nat.digitChar k = '0' → k = 0 := by decide
      rw [Nat.toDigits_of_lt_base small] at isHead
      exact all n small (Option.some.inj isHead)
    · rw [Nat.toDigits_of_base_le (by decide) (by omega),
        List.head?_append_of_ne_nil _ Nat.toDigits_ne_nil] at isHead
      have isZero := ih (n / 10) (by omega) isHead
      omega

namespace Decimal

variable {d : Decimal}

theorem ofDigits_digitText (d : Decimal) : ofDigits d.digitText = d.digits :=
  Nat.ofDigitChars_ten_toDigits

theorem digitText_ne_nil (d : Decimal) : d.digitText ≠ [] := Nat.toDigits_ne_nil

variable (positive : d.digits ≠ 0)
include positive

theorem head_digitText : d.digitText.head? ≠ some '0' :=
  fun isHead => positive (head_toDigits _ isHead)

/-- Digits of a decimal with a point among them and an exponent to match are a literal for it. -/
theorem isLiteral_of_digits {t : DecimalText} (digits : t.whole ++ t.fraction = d.digitText)
    (power : t.power.getD 0 - t.fraction.length = d.exponent) : t.IsLiteral ∧ t.decimal = d := by
  refine ⟨⟨?_, ?_, ?_⟩, ?_⟩
  · rw [digits]
    exact fun _ => isDigit_of_mem_digitText
  · rw [digits]
    exact d.digitText_ne_nil
  · intro isHead
    refine absurd ?_ (head_digitText positive)
    rw [← digits, List.head?_append, isHead]
    rfl
  · rw [DecimalText.decimal, digits, ofDigits_digitText, power]

theorem exists_scientific :
    ∃ t : DecimalText, t.IsLiteral ∧ t.chars = d.scientific ∧ t.decimal = d ∧
      t.places ≠ some [] := by
  have count : (digitCount d.digits : Int) = d.digitText.length := rfl
  unfold scientific
  split
  · rename_i isEmpty
    exact absurd isEmpty d.digitText_ne_nil
  · rename_i digit isText
    have leads : d.leading = d.exponent := by simp [leading, count, isText]
    obtain ⟨literal, isDecimal⟩ := isLiteral_of_digits (t := ⟨[digit], none, some d.leading⟩)
      positive
      (by rw [isText]; rfl) (by simp [DecimalText.fraction, leads])
    exact ⟨_, literal, rfl, isDecimal, nofun⟩
  · rename_i digit rest several isText
    have leads : d.leading - rest.length = d.exponent := by
      simp only [leading, count, isText, length_cons]
      omega
    obtain ⟨literal, isDecimal⟩ := isLiteral_of_digits (t := ⟨[digit], some rest, some d.leading⟩)
      positive (by rw [isText]; rfl) (by simpa [DecimalText.fraction] using leads)
    refine ⟨_, literal, by simp [DecimalText.chars, DecimalText.pointText, DecimalText.powerText],
      isDecimal, ?_⟩
    rintro ⟨⟩
    exact several rfl

/-- Positional notation without a zero before the point. -/
def plain (d : Decimal) : List Char :=
  match d.positional with
  | '0' :: '.' :: rest => '.' :: rest
  | text => text

omit positive in
theorem plain_of_head (notZero : d.positional.head? ≠ some '0') : d.plain = d.positional := by
  unfold plain
  split
  · rename_i isText
    rw [isText] at notZero
    exact absurd rfl notZero
  · rfl

/-- A whole number is its digits and as many zeros as its exponent says. -/
theorem exists_whole (whole : 0 ≤ d.exponent) : ∃ t : DecimalText,
    t.IsLiteral ∧ t.chars = d.positional ∧ d.plain = d.positional ∧ t.decimal.value = d.value ∧
      t.places ≠ some [] := by
  obtain ⟨k, isExponent⟩ := Int.eq_ofNat_of_zero_le whole
  have isText : d.positional = d.digitText ++ List.replicate k '0' := by
    simp [positional, isExponent]
  have isHead : d.positional.head? = d.digitText.head? := by
    rw [isText, List.head?_append_of_ne_nil _ d.digitText_ne_nil]
  have notZero : d.positional.head? ≠ some '0' := isHead ▸ head_digitText positive
  refine ⟨⟨d.positional, none, none⟩, ⟨?_, ?_, fun isZero => absurd isZero notZero⟩, ?_,
    plain_of_head notZero, ?_, nofun⟩
  · intro c mem
    simp only [DecimalText.fraction, Option.getD_none, append_nil, isText, mem_append] at mem
    rcases mem with mem | mem
    · exact isDigit_of_mem_digitText mem
    · rw [eq_of_mem_replicate mem]
      rfl
  · simp [DecimalText.fraction, isText, d.digitText_ne_nil]
  · simp [DecimalText.chars, DecimalText.pointText, DecimalText.powerText]
  · have digits : ofDigits d.positional = 10 ^ k * d.digits := by
      calc
        ofDigits d.positional
            = Nat.ofDigitChars 10 (List.replicate k '0') (ofDigits d.digitText) := by
          rw [isText]
          exact Nat.ofDigitChars_append 0
        _ = 10 ^ k * d.digits := by rw [Nat.ofDigitChars_replicate_zero, ofDigits_digitText]
    simp [value, DecimalText.decimal, DecimalText.fraction, digits, isExponent]
    ring

theorem exists_plain :
    ∃ t : DecimalText, t.IsLiteral ∧ t.chars = d.plain ∧ t.decimal.value = d.value ∧
      t.places ≠ some [] := by
  by_cases whole : 0 ≤ d.exponent
  · obtain ⟨t, literal, isText, isPlain, isValue⟩ := exists_whole positive whole
    exact ⟨t, literal, isText.trans isPlain.symm, isValue⟩
  by_cases among : 0 < d.exponent + d.digitText.length
  · -- the point is among the digits
    let k := (d.exponent + d.digitText.length).toNat
    have isText : d.positional = d.digitText.take k ++ '.' :: d.digitText.drop k := by
      simp [positional, whole, among, k]
    have notZero : d.positional.head? ≠ some '0' := by
      have isHead : d.positional.head? = d.digitText.head? := by
        rw [isText]
        cases isDigits : d.digitText with
        | nil => exact absurd isDigits d.digitText_ne_nil
        | cons c cs =>
          obtain ⟨j, isK⟩ : ∃ j, k = j + 1 := ⟨k - 1, by omega⟩
          rw [isK]
          rfl
      exact isHead ▸ head_digitText positive
    obtain ⟨literal, isDecimal⟩ := isLiteral_of_digits
      (t := ⟨d.digitText.take k, some (d.digitText.drop k), none⟩) positive
      (take_append_drop k _) (by simp [DecimalText.fraction, k]; omega)
    refine ⟨_, literal, ?_, by rw [isDecimal], ?_⟩
    · rw [plain_of_head notZero, isText]
      simp [DecimalText.chars, DecimalText.pointText, DecimalText.powerText]
    · rw [ne_eq, Option.some.injEq, drop_eq_nil_iff]
      omega
  · -- the point is before the digits, with zeros in between
    let zeros := List.replicate (-(d.exponent + d.digitText.length)).toNat '0'
    have isPlain : d.plain = '.' :: (zeros ++ d.digitText) := by
      simp [plain, positional, whole, among, zeros]
    have digits : ofDigits (zeros ++ d.digitText) = d.digits := by
      calc
        ofDigits (zeros ++ d.digitText) = Nat.ofDigitChars 10 d.digitText (ofDigits zeros) :=
          Nat.ofDigitChars_append 0
        _ = ofDigits d.digitText := by rw [show ofDigits zeros = 0 from
          Nat.ofDigitChars_replicate_zero.trans (Nat.mul_zero _)]; rfl
        _ = d.digits := d.ofDigits_digitText
    refine ⟨⟨[], some (zeros ++ d.digitText), none⟩, ⟨?_, ?_, nofun⟩, ?_, ?_,
      by simp [d.digitText_ne_nil]⟩
    · intro c mem
      rcases mem_append.mp (show c ∈ zeros ++ d.digitText from mem) with mem | mem
      · rw [eq_of_mem_replicate mem]
        rfl
      · exact isDigit_of_mem_digitText mem
    · simp [DecimalText.fraction, d.digitText_ne_nil]
    · simp [isPlain, DecimalText.chars, DecimalText.pointText, DecimalText.powerText]
    · have isDecimal : DecimalText.decimal ⟨[], some (zeros ++ d.digitText), none⟩ = d := by
        simp only [DecimalText.decimal, DecimalText.fraction, Option.getD_some, Option.getD_none,
          nil_append, digits]
        congr 1
        simp [zeros]
        omega
      rw [isDecimal]

/-- The literal of a decimal is a decimal literal, and has its value. It does not end with a point. -/
theorem exists_closed_text :
    ∃ t : DecimalText, t.IsLiteral ∧ t.chars = d.literal ∧ t.decimal.value = d.value ∧
      t.places ≠ some [] := by
  unfold literal
  split
  · rename_i whole
    simp only [Bool.and_eq_true, decide_eq_true_eq] at whole
    split
    · obtain ⟨literal, isDecimal⟩ := isLiteral_of_digits (t := ⟨d.digitText, none, some d.exponent⟩)
        positive (by simp [DecimalText.fraction]) (by simp [DecimalText.fraction])
      exact ⟨_, literal, rfl, by rw [isDecimal], nofun⟩
    · obtain ⟨t, literal, isText, -, isValue⟩ := exists_whole positive whole.1
      exact ⟨t, literal, isText, isValue⟩
  · change ∃ t : DecimalText, t.IsLiteral ∧
      t.chars = (if d.scientific.length < d.plain.length then d.scientific else d.plain) ∧ _
    split
    · obtain ⟨t, literal, isText, isDecimal, placed⟩ := exists_scientific positive
      exact ⟨t, literal, isText, by rw [isDecimal], placed⟩
    · exact exists_plain positive

theorem exists_text :
    ∃ t : DecimalText, t.IsLiteral ∧ t.chars = d.literal ∧ t.decimal.value = d.value := by
  obtain ⟨t, literal, isText, isValue, -⟩ := exists_closed_text positive
  exact ⟨t, literal, isText, isValue⟩

end Decimal

/-! ## Numbers -/

namespace Number

variable {x : Number}

theorem significand_pos (notZero : x.isZero = false) : 0 < x.significand := by
  unfold significand
  split
  · rename_i isSmall
    have notNothing : x.fraction ≠ 0 := by simpa [isZero, isSmall] using notZero
    omega
  · have power : 0 < twoTo 52 := Nat.two_pow_pos 52
    omega

/-- Zero lies below every rounding interval, so it is never the nearest point of a grid. -/
theorem ne_zero_of_nearestOnGrid? {place : Int} {n : Nat} (positive : 0 < x.significand)
    (found : x.nearestOnGrid? place = some n) : n ≠ 0 := by
  have low : 0 < x.roundingInterval.low := by
    simp only [roundingInterval]
    split <;> omega
  have scale (k j : Nat) : 0 < twoTo k * tenTo j :=
    Nat.mul_pos (Nat.two_pow_pos k) (Nat.pow_pos (by decide))
  have bound := Nat.mul_pos low (scale (x.exponent - 2).toNat (-place).toNat)
  rintro rfl
  simp only [nearestOnGrid?] at found
  generalize x.roundingInterval.low * _ = least at found bound
  -- The point above is a successor, so zero can only be the point below.
  have below {k : Nat} (isZero : k = 0) (unit most : Nat) :
      (if x.roundingInterval.closed = true then decide (least ≤ k * unit) && decide (k * unit ≤ most)
        else decide (least < k * unit) && decide (k * unit < most)) = false := by
    subst isZero
    simp [Nat.ne_of_gt bound]
  split at found
  · rename_i isInside _
    split at found
    · exact absurd isInside (by rw [below (Option.some.inj found)]; decide)
    · exact absurd (Option.some.inj found) (Nat.succ_ne_zero _)
  · rename_i isInside _
    exact absurd isInside (by rw [below (Option.some.inj found)]; decide)
  · exact absurd (Option.some.inj found) (Nat.succ_ne_zero _)
  · contradiction

theorem digits_withoutTrailingZeros (fuel : Nat) (d : Decimal) (positive : d.digits ≠ 0) :
    (withoutTrailingZeros fuel d).digits ≠ 0 := by
  induction fuel generalizing d with
  | zero => exact positive
  | succ fuel ih =>
    rw [withoutTrailingZeros]
    split
    · rename_i trailing
      simp only [Bool.and_eq_true, decide_eq_true_eq] at trailing
      exact ih _ (by dsimp only; omega)
    · exact positive

theorem digits_shortest (notZero : x.isZero = false) : x.shortest.digits ≠ 0 := by
  have positive := significand_pos notZero
  rw [shortest]
  generalize found : List.findSome? _ _ = decimal?
  match decimal?, found with
  | none, _ => exact Nat.ne_of_gt positive
  | some d, found =>
    obtain ⟨count, -, isFound⟩ := exists_of_findSome?_eq_some found
    obtain ⟨digits, isNearest, rfl⟩ := Option.map_eq_some_iff.mp isFound
    exact digits_withoutTrailingZeros 20 ⟨digits, _⟩ (ne_zero_of_nearestOnGrid? positive isNearest)

/-- A finite number that is positive is written as its shortest decimal. -/
theorem literal_eq_shortest (finite : x.isNaN = false ∧ x.isInfinite = false)
    (positive : x.isNegative = false ∧ x.isZero = false) : x.literal = x.shortest.literal := by
  simp [literal, finite, positive]

theorem literal_denotes (finite : x.isNaN = false ∧ x.isInfinite = false)
    (positive : x.isNegative = false ∧ x.isZero = false) (pos : Position) :
    ∃ d : Decimal, decimal? ⟨pos, x.literal⟩ = some (.ok (d, ⟨pos.after x.literal, []⟩)) ∧
      readNumber ⟨pos, x.literal⟩ = .ok (.ofDecimal d, ⟨pos.after x.literal, []⟩) ∧
      d.value = ofDigits x.shortest.digitText *
        10 ^ (x.shortest.leading - x.shortest.digitText.length + 1) := by
  obtain ⟨t, literal, isText, isValue⟩ := Decimal.exists_text (digits_shortest positive.2)
  have ends : t.EndsBefore [] := ⟨nofun, nofun⟩
  have read := DecimalText.decimal?_chars literal ends pos
  rw [append_nil, isText, ← literal_eq_shortest finite positive] at read
  refine ⟨t.decimal, read, readNumber_of_decimal? read, ?_⟩
  have isPower : x.shortest.leading - x.shortest.digitText.length + 1 = x.shortest.exponent := by
    simp only [Decimal.leading, digitCount, Decimal.digitText]
    omega
  rw [isValue, isPower, Decimal.ofDigits_digitText, Decimal.value]

theorem literal_denotes_half :
    (⟨0x3FE0000000000000⟩ : Number).literal = ['.', '5'] ∧
      ∃ d : Decimal,
        decimal? ⟨.start, ['.', '5']⟩ = some (.ok (d, ⟨Position.start.after ['.', '5'], []⟩)) ∧
        readNumber ⟨.start, ['.', '5']⟩ = .ok (.ofDecimal d, ⟨Position.start.after ['.', '5'], []⟩) ∧
        d.value = 5 * 10 ^ (-1 : Int) := by
  have isText : (⟨0x3FE0000000000000⟩ : Number).literal = ['.', '5'] := by decide +kernel
  have shortest : (⟨0x3FE0000000000000⟩ : Number).shortest = ⟨5, -1⟩ := by decide +kernel
  have denotes := literal_denotes (x := ⟨0x3FE0000000000000⟩) (by decide +kernel)
    (by decide +kernel) .start
  rw [isText, shortest] at denotes
  exact ⟨isText, denotes⟩

end Number

end Minifier
