import Mathlib.Data.List.Nodup
import Mathlib.Data.List.Perm.Subperm
import Minifier.Scope.ShortName

/-!
# Short names are free

Different numbers are for different names (`ofIndex_injective`), so among more names than there are
to leave alone one is free, and the search for the first free one finds it (`isFree_first`). The fuel
of the search is enough, and which name is found depends only on what is left alone (`first_congr`).
-/

set_option autoImplicit false

namespace Minifier.ShortName

open List

variable (skip : List String)

theorem nodup_firstChars : firstChars.Nodup := by decide

theorem nodup_nextChars : nextChars.Nodup := by decide

/-- Places in a list without repetitions are told apart by what is there. -/
theorem getD_injective {chars : List Char} (nodup : chars.Nodup) {i j : Nat} {d : Char}
    (left : i < chars.length) (right : j < chars.length) (same : chars.getD i d = chars.getD j d) :
    i = j := by
  simp only [getD_eq_getElem?_getD, List.getElem?_eq_getElem left,
    List.getElem?_eq_getElem right, Option.getD_some] at same
  exact nodup.getElem_inj_iff.mp same

theorem tail_injective {a b : Nat} (same : tail a = tail b) : a = b := by
  induction a using Nat.strongRecOn generalizing b with
  | ind a ih =>
    cases a with
    | zero =>
      cases b with
      | zero => rfl
      | succ b => simp [tail] at same
    | succ a =>
      cases b with
      | zero => simp [tail] at same
      | succ b =>
        rw [tail, tail] at same
        obtain ⟨last, rest⟩ := List.cons.inj same
        have digits : a % 64 = b % 64 :=
          getD_injective nodup_nextChars (Nat.mod_lt a (by decide)) (Nat.mod_lt b (by decide)) last
        have quotients : a / 64 = b / 64 :=
          ih (a / 64) (Nat.lt_succ_of_le (Nat.div_le_self a 64)) rest
        omega

theorem ofIndex_injective {a b : Nat} (same : ofIndex a = ofIndex b) : a = b := by
  obtain ⟨head, rest⟩ := List.cons.inj (String.ofList_injective same)
  have digits : a % 54 = b % 54 :=
    getD_injective nodup_firstChars (Nat.mod_lt a (by decide)) (Nat.mod_lt b (by decide)) head
  have quotients : a / 54 = b / 54 := tail_injective rest
  omega

/-- The search finds a free name unless it comes to none. -/
theorem isFree_nextAmong {skip : List String} {fuel index : Nat}
    (some_free : ∃ k ≤ fuel, isFree skip (ofIndex (index + k))) :
    isFree skip (nextAmong skip fuel index).1 := by
  induction fuel generalizing index with
  | zero =>
    obtain ⟨k, le, free⟩ := some_free
    rwa [Nat.le_zero.mp le] at free
  | succ fuel ih =>
    simp only [nextAmong]
    split
    · assumption
    · rename_i taken
      obtain ⟨k, le, free⟩ := some_free
      cases k with
      | zero => exact absurd free taken
      | succ k => exact ih ⟨k, Nat.le_of_succ_le_succ le, by rwa [Nat.succ_add_eq_add_succ]⟩

/-- Among more names than there are to leave alone one is free. -/
theorem exists_isFree (index : Nat) :
    ∃ k ≤ skip.length + reservedWords.length, isFree skip (ofIndex (index + k)) := by
  let taken := skip ++ reservedWords
  by_contra none_free
  let names := (List.range (taken.length + 1)).map fun k => ofIndex (index + k)
  have distinct : names.Nodup :=
    nodup_range.map fun a b same => by
      have := ofIndex_injective same
      omega
  have subset : names ⊆ taken := by
    intro name mem
    obtain ⟨k, lower, rfl⟩ := mem_map.mp mem
    have notFree : ¬ isFree skip (ofIndex (index + k)) := fun free => none_free ⟨k, by
      have := mem_range.mp lower
      simp only [taken, length_append] at this
      omega, free⟩
    simp only [isFree, isReservedWord] at notFree
    simp only [taken, mem_append]
    simpa [or_iff_not_imp_left] using notFree
  have le := (subperm_of_subset distinct subset).length_le
  simp only [names, length_map, length_range] at le
  omega

theorem isFree_first : isFree skip (first skip) :=
  isFree_nextAmong (exists_isFree skip 0)

/-- A free name that was found stays the first one if the search may go on for longer. -/
theorem nextAmong_of_le {skip : List String} {fuel fuel' index : Nat}
    (free : isFree skip (nextAmong skip fuel index).1) (le : fuel ≤ fuel') :
    nextAmong skip fuel' index = nextAmong skip fuel index := by
  induction fuel generalizing fuel' index with
  | zero =>
    cases fuel' with
    | zero => rfl
    | succ fuel' => simpa only [nextAmong] using if_pos free
  | succ fuel ih =>
    obtain ⟨fuel', rfl⟩ := Nat.exists_eq_add_one_of_ne_zero (Nat.ne_zero_of_lt le)
    simp only [nextAmong] at free ⊢
    split
    · rfl
    · rename_i taken
      rw [if_neg taken] at free
      exact ih free (Nat.le_of_succ_le_succ le)

/-- Which name is the shortest free one depends on what is to be skipped only, not on its order. -/
theorem first_congr {skip skip' : List String} (same : ∀ name, name ∈ skip ↔ name ∈ skip') :
    first skip = first skip' := by
  have isFree_eq : isFree skip = isFree skip' := by
    funext name
    simp only [isFree, contains_eq_mem, same name]
  have search (fuel index : Nat) : nextAmong skip fuel index = nextAmong skip' fuel index := by
    induction fuel generalizing index with
    | zero => rfl
    | succ fuel ih => simp only [nextAmong, isFree_eq, ih]
  have free : isFree skip (nextAmong skip _ 0).1 := isFree_first skip
  have free' : isFree skip' (nextAmong skip' _ 0).1 := isFree_first skip'
  simp only [first, next]
  rcases Nat.le_total (skip.length + reservedWords.length) (skip'.length + reservedWords.length) with le | le
  · rw [← search, nextAmong_of_le free le]
  · rw [search, nextAmong_of_le free' le]

theorem first_not_mem : first skip ∉ skip := by
  have free := isFree_first skip
  simp only [isFree, Bool.and_eq_true, Bool.not_eq_true', contains_eq_mem] at free
  simpa using free.1

end Minifier.ShortName
