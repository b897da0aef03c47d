import Mathlib.Data.List.GetD
import Mathlib.Data.Set.Function
import Mathlib.Order.Monotone.Basic
import Minifier.Proofs.Scope.ShortName

/-!
# Short names come in order of length

The numbers stand for exactly the names over the alphabet, each of them for one (`bijOn_ofIndex`),
and a larger number never stands for a shorter name (`monotone_length_ofIndex`). So the search for
the next free name, which is bounded in the definition, is the unbounded one (`exists_next`), and
what is left out of an enumeration is never shorter than what is in it (`enumerates_shortest_first`).
-/

set_option autoImplicit false

namespace Minifier.ShortName

open List

variable {name : String} {skip : List String} {chars : List Char}

/-- Whether a text is a name over the alphabet. -/
def isShortName (name : String) : Bool :=
  match name.toList with
  | [] => false
  | c :: cs => firstChars.contains c && cs.all nextChars.contains

/-! ## Numbers and names -/

/-- A character of a list stands at one of its places. -/
theorem exists_getD {c : Char} (mem : c ∈ chars) (d : Char) :
    ∃ i < chars.length, chars.getD i d = c := by
  obtain ⟨i, lt, isThere⟩ := mem_iff_getElem.mp mem
  exact ⟨i, lt, by rw [getD_eq_getElem _ _ lt, isThere]⟩

theorem getD_mem {i : Nat} (lt : i < chars.length) (d : Char) : chars.getD i d ∈ chars := by
  rw [getD_eq_getElem _ _ lt]
  exact getElem_mem lt

theorem mem_nextChars_of_mem_tail {n : Nat} : ∀ c ∈ tail n, c ∈ nextChars := by
  fun_induction tail n with
  | case1 => simp
  | case2 n ih =>
    intro c mem
    rcases mem_cons.mp mem with rfl | mem
    · exact getD_mem (Nat.mod_lt n (by decide)) 'a'
    · exact ih c mem

/-- Every text over the characters to go on with is the tail of a number. -/
theorem exists_tail (cs : List Char) (known : ∀ c ∈ cs, c ∈ nextChars) : ∃ n, tail n = cs := by
  induction cs with
  | nil => exact ⟨0, by rw [tail]⟩
  | cons c cs ih =>
    obtain ⟨n, isTail⟩ := ih fun d mem => known d (mem_cons_of_mem c mem)
    obtain ⟨i, lt, isChar⟩ := exists_getD (known c mem_cons_self) 'a'
    have small : i < 64 := lt
    refine ⟨64 * n + i + 1, ?_⟩
    have digit : (64 * n + i) % 64 = i := by omega
    have rest : (64 * n + i) / 64 = n := by omega
    rw [tail, digit, rest, isChar, isTail]

theorem isShortName_ofIndex (index : Nat) : isShortName (ofIndex index) := by
  have start : firstChars.getD (index % 54) 'a' ∈ firstChars :=
    getD_mem (Nat.mod_lt index (by decide)) 'a'
  have parts := mem_nextChars_of_mem_tail (n := index / 54)
  simpa [isShortName, ofIndex] using ⟨start, parts⟩

/-- Every name over the alphabet has a number. -/
theorem exists_ofIndex (short : isShortName name) : ∃ index, ofIndex index = name := by
  unfold isShortName at short
  split at short
  · cases short
  · rename_i c cs isText
    simp only [Bool.and_eq_true, contains_eq_mem, decide_eq_true_eq, all_eq_true] at short
    obtain ⟨i, lt, isChar⟩ := exists_getD short.1 'a'
    have small : i < 54 := lt
    obtain ⟨n, isTail⟩ := exists_tail cs short.2
    refine ⟨54 * n + i, ?_⟩
    have digit : (54 * n + i) % 54 = i := by omega
    have rest : (54 * n + i) / 54 = n := by omega
    rw [ofIndex, digit, rest, isChar, isTail, ← isText, String.ofList_toList]

theorem bijOn_ofIndex : Set.BijOn ofIndex Set.univ {name | isShortName name} :=
  ⟨fun index _ => isShortName_ofIndex index, fun _ _ _ _ => ofIndex_injective,
    fun _ short => (exists_ofIndex short).imp fun _ isName => ⟨Set.mem_univ _, isName⟩⟩

theorem isIdentifier_of_isShortName (short : isShortName name) : isIdentifier name := by
  have starts : firstChars.all isIdentifierStart = true := by decide
  have parts : nextChars.all isIdentifierPart = true := by decide
  rw [all_eq_true] at starts parts
  unfold isShortName at short
  cases isText : name.toList with
  | nil => simp [isText] at short
  | cons c cs =>
    simp only [isText, Bool.and_eq_true, contains_eq_mem, decide_eq_true_eq, all_eq_true] at short
    simp only [isIdentifier, isText, Bool.and_eq_true, all_eq_true]
    exact ⟨starts c short.1, fun d mem => parts d (short.2 d mem)⟩

/-! ## Lengths -/

theorem monotone_length_tail : Monotone fun n => (tail n).length := by
  intro a b le
  induction a using Nat.strongRecOn generalizing b with
  | ind a ih =>
    cases a with
    | zero => simp [tail]
    | succ a =>
      obtain ⟨b, rfl⟩ := Nat.exists_eq_add_one_of_ne_zero (Nat.ne_zero_of_lt le)
      have shorter : (tail (a / 64)).length ≤ (tail (b / 64)).length :=
        ih (a / 64) (Nat.lt_succ_of_le (Nat.div_le_self a 64))
          (Nat.div_le_div_right (Nat.le_of_succ_le_succ le))
      simpa only [tail, length_cons, Nat.add_le_add_iff_right] using shorter

theorem monotone_length_ofIndex : Monotone fun index => (ofIndex index).length := by
  intro a b le
  have shorter := monotone_length_tail (Nat.div_le_div_right le : a / 54 ≤ b / 54)
  simpa [ofIndex] using shorter

/-! ## The search -/

/-- The search stops at the first free name. -/
theorem exists_nextAmong {fuel index : Nat} (free : isFree skip (nextAmong skip fuel index).1) :
    ∃ k ≥ index, nextAmong skip fuel index = (ofIndex k, k + 1) ∧
      ∀ j, index ≤ j → j < k → ¬ isFree skip (ofIndex j) := by
  have none_before {k j : Nat} (le : k ≤ j) (lt : j < k) : ¬ isFree skip (ofIndex j) := by omega
  induction fuel generalizing index with
  | zero => exact ⟨index, le_rfl, rfl, fun j => none_before⟩
  | succ fuel ih =>
    simp only [nextAmong] at free ⊢
    split
    · exact ⟨index, le_rfl, rfl, fun j => none_before⟩
    · rename_i taken
      rw [if_neg taken] at free
      obtain ⟨k, le, isNext, before⟩ := ih free
      refine ⟨k, by omega, isNext, fun j lower upper => ?_⟩
      rcases Nat.eq_or_lt_of_le lower with rfl | lower
      · exact taken
      · exact before j lower upper

/-- From every number on there is a next free name, and nothing free is passed over. -/
theorem exists_next (skip : List String) (index : Nat) :
    ∃ k ≥ index, next skip index = (ofIndex k, k + 1) ∧ isFree skip (ofIndex k) ∧
      ∀ j, index ≤ j → j < k → ¬ isFree skip (ofIndex j) := by
  have free := isFree_nextAmong (exists_isFree skip index)
  obtain ⟨k, le, isNext, before⟩ := exists_nextAmong free
  rw [isNext] at free
  exact ⟨k, le, isNext, free, before⟩

theorem length_enumerate (skip : List String) (count index : Nat) :
    (enumerate skip count index).length = count := by
  induction count generalizing index with
  | zero => rfl
  | succ count ih => rw [enumerate, length_cons, ih]

theorem isFree_iff : isFree skip name ↔ name ∉ skip ∧ ¬ isReservedWord name := by
  simp [isFree]

/-- A name of an enumeration is free, and the free names with smaller numbers are those before it. -/
theorem exists_index_enumerate {count index : Nat} {before after : List String}
    (split : enumerate skip count index = before ++ name :: after) :
    ∃ k ≥ index, name = ofIndex k ∧ isFree skip name ∧
      ∀ j ≥ index, isFree skip (ofIndex j) → (ofIndex j ∈ before ↔ j < k) := by
  induction count generalizing index before with
  | zero => simp [enumerate] at split
  | succ count ih =>
    obtain ⟨k, le, isNext, free, passed⟩ := exists_next skip index
    simp only [enumerate, isNext] at split
    cases before with
    | nil =>
      obtain ⟨rfl, -⟩ := List.cons.inj split
      refine ⟨k, le, rfl, free, fun j lower isFree => ?_⟩
      have notBefore : ¬ j < k := fun upper => passed j lower upper isFree
      simpa using notBefore
    | cons first before =>
      rw [cons_append] at split
      obtain ⟨rfl, rest⟩ := List.cons.inj split
      obtain ⟨m, beyond, isName, isFreeName, earlier⟩ := ih rest
      refine ⟨m, by omega, isName, isFreeName, fun j lower isFree => ?_⟩
      rw [mem_cons]
      rcases Nat.lt_trichotomy j k with less | rfl | more
      · exact absurd isFree (passed j lower less)
      · exact iff_of_true (.inl rfl) beyond
      · have apart : ofIndex j ≠ ofIndex k := fun same => by
          have := ofIndex_injective same
          omega
        rw [earlier j more isFree]
        exact or_iff_right apart

/-- The names that an enumeration without end would yield: as many as are asked for, each of them an
identifier that is free, comes up once, and is no longer than any other that is still to come. -/
theorem enumerates_shortest_first (skip : List String) :
    Set.BijOn ofIndex Set.univ {name | isShortName name} ∧
      Monotone (fun index => (ofIndex index).length) ∧
      (∀ index, ∃ k ≥ index, next skip index = (ofIndex k, k + 1) ∧ isFree skip (ofIndex k) ∧
        ∀ j, index ≤ j → j < k → ¬ isFree skip (ofIndex j)) ∧
      ∀ count, (enumerate skip count 0).length = count ∧
        ∀ before name after, enumerate skip count 0 = before ++ name :: after →
          isIdentifier name ∧ ¬ isReservedWord name ∧ name ∉ skip ∧ name ∉ before ∧
            ∀ other, isShortName other → ¬ isReservedWord other → other ∉ skip → other ∉ before →
              name.length ≤ other.length := by
  refine ⟨bijOn_ofIndex, monotone_length_ofIndex, exists_next skip, fun count =>
    ⟨length_enumerate skip count 0, fun before name after split => ?_⟩⟩
  obtain ⟨k, -, rfl, free, earlier⟩ := exists_index_enumerate split
  obtain ⟨notSkipped, notReserved⟩ := isFree_iff.mp free
  refine ⟨isIdentifier_of_isShortName (isShortName_ofIndex k), notReserved, notSkipped,
    fun mem => Nat.lt_irrefl k ((earlier k (Nat.zero_le k) free).mp mem), ?_⟩
  intro other short otherNotReserved otherNotSkipped left
  obtain ⟨j, rfl⟩ := exists_ofIndex short
  have later : ¬ j < k := fun upper =>
    left ((earlier j (Nat.zero_le j) (isFree_iff.mpr ⟨otherNotSkipped, otherNotReserved⟩)).mpr upper)
  exact monotone_length_ofIndex (Nat.le_of_not_lt later)

/-- Of the names with one character, `b` is the shortest one left when `a` is in use. -/
theorem enumerates_shortest_first_b :
    enumerate ["a"] 2 0 = ["b"] ++ "c" :: [] ∧ "c" ∉ ["b"] ∧
      ("c" : String).length ≤ ("do_" : String).length :=
  have split : enumerate ["a"] 2 0 = ["b"] ++ "c" :: [] := by decide +kernel
  have facts := ((enumerates_shortest_first ["a"]).2.2.2 2).2 ["b"] "c" [] split
  ⟨split, facts.2.2.2.1, facts.2.2.2.2 "do_" (by decide) (by decide) (by decide) (by decide)⟩

end Minifier.ShortName
