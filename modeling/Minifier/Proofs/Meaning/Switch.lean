import Mathlib.Data.List.Basic
import Mathlib.Data.List.ModifyLast
import Mathlib.Data.List.TakeWhile
import Minifier.Proofs.Simplify.Census
import Minifier.Simplify.Cases

/-!
# What a switch executes

Control enters a `switch` at the first clause whose test is equal to the subject, or at the default
clause if there is no such test, and goes on from clause to clause until it leaves. The statements that
it comes by are the trace of the `switch`; a `break` that only leaves is not counted.

Dropping clauses keeps the trace as long as no two tests are equal to the subject
(`Selection.trace_simplifyCases`). Without that it need not: a clause that only leaves hides a later
one with an equal test, and when it is dropped, control enters the later one
(`Selection.trace_repeated`).
-/

set_option autoImplicit false

namespace Minifier

open List

/-- One way through a `switch`: the values that its subject and its tests have, which of them are
equal, and at which statements control leaves, given the ones before. Jumps leave in any case. -/
structure Selection where
  Value : Type
  subject : Value
  value : Expr → Value
  equals : Value → Value → Bool
  leaves : List Statement → Statement → Bool

namespace Selection

variable {cases before after rest : List SwitchCase} {c : SwitchCase} {p : SwitchCase → Bool}
  {settings : Settings} {s : Statement}

variable (way : Selection)

/-- Whether the test of a clause is equal to the subject. -/
def selects (c : SwitchCase) : Bool :=
  c.test.any fun test => way.equals (way.value test) way.subject

/-- The clauses from the one at which control enters. -/
def entered (cases : List SwitchCase) : List SwitchCase :=
  match cases.dropWhile fun c => !way.selects c with
  | [] => cases.dropWhile fun c => c.test.isSome
  | chosen => chosen

/-- The statements of a list that are executed, after those in `past`. -/
def executed (way : Selection) (past : List Statement) : List Statement → List Statement
  | [] => []
  | s :: rest =>
    if s.isPlainBreak then []
    else if s.isJump || way.leaves past s then [s]
    else s :: executed way (past ++ [s]) rest

/-- The statements of all clauses. -/
def bodies (cases : List SwitchCase) : List Statement := cases.flatMap (·.body)

theorem bodies_append (xs ys : List SwitchCase) : bodies (xs ++ ys) = bodies xs ++ bodies ys :=
  flatMap_append

/-- The statements that are executed until control leaves the `switch`. -/
def trace (cases : List SwitchCase) : List Statement := way.executed [] (bodies (way.entered cases))

/-! ## Where control leaves -/

theorem executed_break (leaves : s.isPlainBreak) (past before after : List Statement) :
    way.executed past (before ++ s :: after) = way.executed past before := by
  induction before generalizing past with
  | nil => simp [executed, leaves]
  | cons first rest ih => simp only [cons_append, executed, ih]

theorem executed_jump (leaves : s.isJump) (past before after : List Statement) :
    way.executed past (before ++ s :: after) = way.executed past (before ++ [s]) := by
  induction before generalizing past with
  | nil => simp [executed, leaves]
  | cons first rest ih => simp only [cons_append, executed, ih]

/-- Nothing of what comes after a clause that ends with a jump is executed. -/
theorem executed_closed (past before after : List Statement) (c : SwitchCase) :
    way.executed past (before ++ (c.closed.body ++ after)) = way.executed past (before ++ c.body) := by
  unfold SwitchCase.closed
  split
  next jumps =>
    obtain ⟨s, isLast, leaves⟩ := (Option.any_eq_true _ _).1 jumps
    obtain ⟨first, body_eq⟩ := List.getLast?_eq_some_iff.1 isLast
    simp only [body_eq, append_assoc, singleton_append]
    rw [← append_assoc, way.executed_jump leaves, append_assoc]
  next =>
    simp only [append_assoc, singleton_append]
    rw [← append_assoc, way.executed_break rfl]

/-- Nor is anything of what comes after a clause that only leaves. -/
theorem executed_onlyLeaves (only : c.onlyLeaves rest.isEmpty) (past before : List Statement) :
    way.executed past (before ++ bodies (c :: rest)) = way.executed past before := by
  simp only [bodies, flatMap_cons]
  unfold SwitchCase.onlyLeaves at only
  split at only
  next empty =>
    rw [List.isEmpty_iff] at only
    simp [empty, only]
  next s single => rw [single, singleton_append, way.executed_break only]
  next => cases only

/-! ## Clauses without one of them -/

@[simp] theorem test_closed (c : SwitchCase) : c.closed.test = c.test := by
  unfold SwitchCase.closed
  split <;> rfl

/-- The clauses with a jump at the end of the last. -/
def closeLast (cases : List SwitchCase) : List SwitchCase := cases.modifyLast SwitchCase.closed

theorem dropWhile_closeLast (tests : ∀ c, p c.closed = p c) (cases : List SwitchCase) :
    (closeLast cases).dropWhile p = closeLast (cases.dropWhile p) := by
  obtain rfl | ⟨first, last, rfl⟩ := cases.eq_nil_or_concat'
  · rfl
  · rw [closeLast, modifyLast_concat, dropWhile_append, dropWhile_append]
    cases found : first.dropWhile p with
    | nil => cases hit : p last <;> simp [tests, hit, closeLast, List.modifyLast, List.modifyLast.go]
    | cons c rest => simp only [closeLast, isEmpty_cons, Bool.false_eq_true, if_false, modifyLast_concat]

theorem map_test_closeLast (cases : List SwitchCase) :
    (closeLast cases).map (·.test) = cases.map (·.test) := by
  obtain rfl | ⟨first, last, rfl⟩ := cases.eq_nil_or_concat'
  · rfl
  · simp [closeLast, modifyLast_concat]

theorem executed_closeLast (some_ : cases ≠ []) (past after : List Statement) :
    way.executed past (bodies (closeLast cases) ++ after) = way.executed past (bodies cases) := by
  obtain rfl | ⟨first, last, rfl⟩ := cases.eq_nil_or_concat'
  · exact absurd rfl some_
  · simp only [closeLast, modifyLast_concat, bodies, flatMap_append, flatMap_cons,
      flatMap_nil, append_nil, append_assoc]
    exact way.executed_closed past _ after last

/-- The clauses before one that only leaves, as they are left when it is dropped. -/
def keptBefore (before after : List SwitchCase) : List SwitchCase :=
  if after.isEmpty then before else closeLast before

private theorem modify_append_cons {α : Type} (f : α → α) (xs ys : List α) (x : α) :
    (xs ++ x :: ys).modify xs.length f = xs ++ f x :: ys := by
  induction xs with
  | nil => rfl
  | cons first rest ih => simp [ih]

/-- The clauses without one that only leaves: those before it no longer go on to those after. -/
theorem removeCase_eq (before after : List SwitchCase) (c : SwitchCase) :
    removeCase (before ++ c :: after) before.length = keptBefore before after ++ after := by
  have erased : (before ++ c :: after).eraseIdx before.length = before ++ after := by
    rw [eraseIdx_append_of_length_le (Nat.le_refl _), Nat.sub_self, eraseIdx_cons_zero]
  simp only [removeCase, erased, length_append, keptBefore]
  obtain rfl | ⟨first, last, rfl⟩ := before.eq_nil_or_concat'
  · simp [closeLast, List.modifyLast, List.modifyLast.go]
  · cases after with
    | nil => simp
    | cons next rest => simp [closeLast, modifyLast_concat, modify_append_cons]

theorem dropWhile_keptBefore (tests : ∀ c, p c.closed = p c) (before after : List SwitchCase) :
    (keptBefore before after).dropWhile p = keptBefore (before.dropWhile p) after := by
  unfold keptBefore
  split
  · rfl
  · exact dropWhile_closeLast tests before

theorem map_test_keptBefore (before after : List SwitchCase) :
    (keptBefore before after).map (·.test) = before.map (·.test) := by
  unfold keptBefore
  split
  · rfl
  · exact map_test_closeLast before

theorem forall_keptBefore (p : Option Expr → Prop) (all : ∀ c ∈ before, p c.test) :
    ∀ c ∈ keptBefore before after, p c.test := by
  intro c mem
  have kept : c.test ∈ (keptBefore before after).map (·.test) := mem_map_of_mem mem
  rw [map_test_keptBefore] at kept
  obtain ⟨d, old, same⟩ := mem_map.1 kept
  rw [← same]
  exact all d old

theorem keptBefore_ne_nil (some_ : before ≠ []) (after : List SwitchCase) :
    keptBefore before after ≠ [] := by
  intro empty
  have tests := map_test_keptBefore before after
  rw [empty, map_nil, eq_comm, map_eq_nil_iff] at tests
  exact some_ tests

theorem executed_keptBefore (some_ : before ≠ []) (past : List Statement) (after : List SwitchCase) :
    way.executed past (bodies (keptBefore before after ++ after)) =
      way.executed past (bodies before) := by
  unfold keptBefore
  split
  next empty => rw [List.isEmpty_iff.1 empty, append_nil]
  next =>
    rw [bodies_append]
    exact way.executed_closeLast some_ past (bodies after)

/-! ## Where control enters -/

theorem entered_append {chosen : List SwitchCase}
    (found : cases.dropWhile (fun c => !way.selects c) = chosen) (some_ : chosen ≠ [])
    (after : List SwitchCase) : way.entered (cases ++ after) = chosen ++ after := by
  obtain ⟨c, rest, rfl⟩ := exists_cons_of_ne_nil some_
  simp [entered, dropWhile_append, found]

theorem entered_of_unselected (none_ : ∀ c ∈ cases, way.selects c = false) :
    way.entered cases = cases.dropWhile fun c => c.test.isSome := by
  have found : cases.dropWhile (fun c => !way.selects c) = [] :=
    dropWhile_eq_nil_iff.2 fun c mem => by rw [none_ c mem]; rfl
  rw [entered, found]

theorem entered_of_later (unselected : ∀ c ∈ cases, way.selects c = false)
    (some_ : after.dropWhile (fun c => !way.selects c) ≠ []) :
    way.entered (cases ++ after) = after.dropWhile fun c => !way.selects c := by
  obtain ⟨c, rest, found⟩ := exists_cons_of_ne_nil some_
  rw [entered, dropWhile_append_of_pos (by simpa using unselected), found]

/-- If no test is equal to the subject and there is no default clause, nothing is executed. -/
theorem trace_of_unentered (unselected : ∀ c ∈ cases, way.selects c = false)
    (noDefault : ∀ c ∈ cases, c.test.isSome) : way.trace cases = [] := by
  rw [trace, way.entered_of_unselected unselected, dropWhile_eq_nil_iff.2 noDefault]
  rfl

/-- No two clauses of a kind: at most one test is equal to the subject, and at most one clause is the
default clause. -/
structure Distinct (cases : List SwitchCase) : Prop where
  tests : cases.countP way.selects ≤ 1
  defaults : cases.countP (·.test.isNone) ≤ 1

/-- If one of the clauses is of a kind, none of the others is. -/
private theorem others_of_countP (atMost : (before ++ c :: after).countP p ≤ 1) (hit : p c) :
    (∀ d ∈ before, p d = false) ∧ ∀ d ∈ after, p d = false := by
  rw [countP_append, countP_cons_of_pos hit] at atMost
  have first : before.countP p = 0 := by omega
  have second : after.countP p = 0 := by omega
  simp only [countP_eq_zero, Bool.not_eq_true] at first second
  exact ⟨first, second⟩

variable {way}

/-- Beside a clause that can go there is no default clause. -/
theorem Distinct.isSome_test {isLast : Bool} (distinct : way.Distinct (before ++ c :: after))
    (redundant : c.isRedundant settings (defaultIndex? (before ++ c :: after)).isSome isLast) :
    (∀ k ∈ before, k.test.isSome) ∧ ∀ k ∈ after, k.test.isSome := by
  rw [SwitchCase.isRedundant, Bool.and_eq_true] at redundant
  cases test : c.test with
  | none =>
    have others := others_of_countP distinct.defaults (by rw [test]; rfl)
    simpa only [← Option.not_isSome, Bool.not_eq_false'] using others
  | some _ =>
    simp only [test, Bool.and_eq_true, Bool.not_eq_true', Option.isSome_eq_false_iff] at redundant
    have noDefault := List.findIdx?_eq_none_iff.1 (Option.isNone_iff_eq_none.1 redundant.2.1.1)
    simp only [← Option.not_isSome, Bool.not_eq_false', forall_mem_append,
      forall_mem_cons] at noDefault
    exact ⟨noDefault.1, noDefault.2.2⟩

/-- Dropping a clause that can go leaves the trace as it is. -/
theorem Distinct.trace_without (distinct : way.Distinct (before ++ c :: after))
    (redundant : c.isRedundant settings (defaultIndex? (before ++ c :: after)).isSome after.isEmpty) :
    way.trace (keptBefore before after ++ after) = way.trace (before ++ c :: after) := by
  obtain ⟨beforeTests, afterTests⟩ := distinct.isSome_test redundant
  have only : c.onlyLeaves after.isEmpty := (Bool.and_eq_true _ _ ▸ redundant).1
  have skips : ∀ k : SwitchCase, (!way.selects k.closed) = !way.selects k := fun k => by
    simp [selects]
  cases found : before.dropWhile (fun c => !way.selects c) with
  | cons chosen rest =>
    -- Control enters before the clause, and leaves at its place at the latest.
    have old := way.entered_append found (cons_ne_nil _ _) (c :: after)
    have new := way.entered_append ((dropWhile_keptBefore skips before after).trans (by rw [found]))
      (keptBefore_ne_nil (cons_ne_nil _ _) after) after
    rw [trace, trace, old, new, way.executed_keptBefore (cons_ne_nil _ _), bodies_append,
      way.executed_onlyLeaves only]
  | nil =>
    have unselected : ∀ k ∈ before, way.selects k = false := by
      simpa using dropWhile_eq_nil_iff.1 found
    have keptUnselected : ∀ k ∈ keptBefore before after, way.selects k = false :=
      forall_keptBefore (fun test => (test.any fun t => way.equals (way.value t) way.subject) = false)
        unselected
    by_cases later : way.selects c = false ∧ ∃ k ∈ after, way.selects k = true
    · -- Control enters after the clause, with it or without it.
      obtain ⟨hit, k, mem, chosen⟩ := later
      have some_ : after.dropWhile (fun c => !way.selects c) ≠ [] := fun empty => by
        simpa [chosen] using dropWhile_eq_nil_iff.1 empty k mem
      have old : way.entered (before ++ [c] ++ after) = _ := way.entered_of_later
        (forall_mem_append.2 ⟨unselected, forall_mem_singleton.2 hit⟩) some_
      rw [append_assoc, singleton_append] at old
      rw [trace, trace, old, way.entered_of_later keptUnselected some_]
    · -- Control enters at the clause or not at all, and no other clause takes its place.
      have afterUnselected : ∀ k ∈ after, way.selects k = false := by
        intro k mem
        cases hit : way.selects c with
        | true => exact (others_of_countP distinct.tests hit).2 k mem
        | false => simpa using fun chosen => later ⟨hit, k, mem, chosen⟩
      have new : way.trace (keptBefore before after ++ after) = [] :=
        way.trace_of_unentered (forall_mem_append.2 ⟨keptUnselected, afterUnselected⟩)
          (forall_mem_append.2 ⟨forall_keptBefore (·.isSome) beforeTests, afterTests⟩)
      have old : way.entered (before ++ c :: after) = c :: after ∨
          way.entered (before ++ c :: after) = [] := by
        cases hit : way.selects c with
        | true =>
          left
          rw [entered, dropWhile_append_of_pos (by simpa using unselected),
            dropWhile_cons_of_neg (by simp [hit])]
        | false =>
          rw [way.entered_of_unselected (forall_mem_append.2
            ⟨unselected, forall_mem_cons.2 ⟨hit, afterUnselected⟩⟩),
            dropWhile_append_of_pos beforeTests, dropWhile_cons,
            dropWhile_eq_nil_iff.2 afterTests]
          split
          · exact .inr rfl
          · exact .inl rfl
      rw [new, trace]
      obtain atClause | nowhere := old
      · rw [atClause]
        exact (way.executed_onlyLeaves only [] []).symm
      · rw [nowhere]
        rfl

/-! ## The rules -/

theorem countP_test {cases' : List SwitchCase} {p : Option Expr → Bool}
    (same : cases'.map (·.test) = cases.map (·.test)) :
    cases'.countP (fun c => p c.test) = cases.countP (fun c => p c.test) := by
  have mapped : ∀ cs : List SwitchCase, cs.countP (fun c => p c.test) = (cs.map (·.test)).countP p :=
    fun cs => by rw [countP_map]; rfl
  rw [mapped, mapped, same]

theorem Distinct.without (distinct : way.Distinct (before ++ c :: after)) :
    way.Distinct (keptBefore before after ++ after) := by
  have fewer : ∀ p : Option Expr → Bool, (keptBefore before after ++ after).countP (fun c => p c.test) ≤
      (before ++ c :: after).countP (fun c => p c.test) := by
    intro p
    rw [countP_append, countP_append, countP_cons, countP_test (map_test_keptBefore before after)]
    omega
  exact ⟨(fewer _).trans distinct.tests, (fewer _).trans distinct.defaults⟩

/-- Where control enters does not depend on the body of the last clause. -/
theorem entered_concat (first : List SwitchCase) {c d : SwitchCase} (same : d.test = c.test) :
    (∃ chosen, way.entered (first ++ [c]) = chosen ++ [c] ∧ way.entered (first ++ [d]) = chosen ++ [d]) ∨
      (way.entered (first ++ [c]) = [] ∧ way.entered (first ++ [d]) = []) := by
  have selects : way.selects d = way.selects c := by rw [Selection.selects, Selection.selects, same]
  simp only [entered, dropWhile_append, dropWhile_cons, dropWhile_nil, selects, same]
  cases first.dropWhile (fun c => !way.selects c) with
  | cons chosen rest => exact .inl ⟨chosen :: rest, rfl, rfl⟩
  | nil =>
    cases way.selects c with
    | true => exact .inl ⟨[], rfl, rfl⟩
    | false =>
      cases first.dropWhile (fun c => c.test.isSome) with
      | cons chosen rest => exact .inl ⟨chosen :: rest, rfl, rfl⟩
      | nil =>
        cases c.test.isSome with
        | true => exact .inr ⟨rfl, rfl⟩
        | false => exact .inl ⟨[], rfl, rfl⟩

/-- The clauses of a list of which the last ends with a `break`, without it. -/
theorem dropTrailingBreak_cases (cases : List SwitchCase) :
    (dropTrailingBreak cases).value = cases ∨
      ∃ first last body s, cases = first ++ [last] ∧ last.body = body ++ [s] ∧ s.isPlainBreak ∧
        (dropTrailingBreak cases).value = first ++ [{ last with body }] := by
  unfold dropTrailingBreak
  split
  next last isLast =>
    split
    next leaves =>
      right
      obtain ⟨first, rfl⟩ := List.getLast?_eq_some_iff.1 isLast
      obtain ⟨s, isFinal, plain⟩ := (Option.any_eq_true _ _).1 leaves
      obtain ⟨body, body_eq⟩ := List.getLast?_eq_some_iff.1 isFinal
      exact ⟨first, last, body, s, rfl, body_eq, plain, by simp [body_eq]⟩
    next => exact .inl rfl
  next => exact .inl rfl

theorem trace_dropTrailingBreak (cases : List SwitchCase) :
    way.trace (dropTrailingBreak cases).value = way.trace cases := by
  obtain same | ⟨first, last, body, s, rfl, body_eq, leaves, trimmed⟩ := dropTrailingBreak_cases cases
  · rw [same]
  · rw [trimmed, trace, trace]
    obtain ⟨chosen, old, new⟩ | ⟨old, new⟩ := @entered_concat way first last { last with body } rfl
    · rw [old, new, bodies_append, bodies_append]
      simp only [bodies, flatMap_cons, flatMap_nil, append_nil, body_eq]
      rw [← append_assoc, way.executed_break leaves]
    · rw [old, new]

theorem Distinct.dropTrailingBreak (distinct : way.Distinct cases) :
    way.Distinct (dropTrailingBreak cases).value := by
  have tests : (Minifier.dropTrailingBreak cases).value.map (·.test) = cases.map (·.test) := by
    obtain same | ⟨first, last, body, s, rfl, -, -, trimmed⟩ := dropTrailingBreak_cases cases
    · rw [same]
    · simp [trimmed]
  exact ⟨(countP_test tests).trans_le distinct.tests, (countP_test tests).trans_le distinct.defaults⟩

/-- A clause that can go, with those before and after it. -/
theorem split_of_redundantCase {index : Nat} (found : redundantCase? settings cases = some index) :
    ∃ before c after, cases = before ++ c :: after ∧ index = before.length ∧
      c.isRedundant settings (defaultIndex? cases).isSome after.isEmpty := by
  have redundant := List.find?_some found
  obtain ⟨c, here, redundant⟩ := (Option.any_eq_true _ _).1 redundant
  obtain ⟨lt, rfl⟩ := List.getElem?_eq_some_iff.1 here
  refine ⟨cases.take index, cases[index], cases.drop (index + 1), ?_, ?_, ?_⟩
  · rw [getElem_cons_drop, take_append_drop]
  · rw [length_take, Nat.min_eq_left lt.le]
  · have isLast : (cases.drop (index + 1)).isEmpty = decide (index + 1 = cases.length) := by
      rw [Bool.eq_iff_iff, List.isEmpty_iff, drop_eq_nil_iff, decide_eq_true_iff]
      omega
    rwa [isLast]

theorem Distinct.trace_dropRedundant (settings : Settings) (fuel : Nat)
    (distinct : way.Distinct cases) :
    way.trace (dropRedundant settings fuel cases).1.value = way.trace cases := by
  induction fuel generalizing cases with
  | zero => rfl
  | succ fuel ih =>
    unfold dropRedundant
    split
    next => rfl
    next index found =>
      obtain ⟨before, c, after, rfl, rfl, redundant⟩ := split_of_redundantCase found
      rw [removeCase_eq]
      exact (ih distinct.without).trans (distinct.trace_without redundant)

variable (way)

/-- Cleaning up the clauses of a `switch` leaves what it executes as it is, under all settings,
whatever the values of its tests and its subject, as long as no two tests are equal to the subject and
there is only one default clause. -/
theorem trace_simplifyCases (settings : Settings) (cases : List SwitchCase)
    (distinct : way.Distinct cases) :
    way.trace (simplifyCases settings cases).1.value = way.trace cases := by
  simp only [simplifyCases]
  have trim : ∀ cs, way.trace (Edited.when (settings.applies .dropTrailingBreak) dropTrailingBreak
      cs).value = way.trace cs := fun cs =>
    Edited.when_value (fun cs' => way.trace cs' = way.trace cs) _ _ cs rfl
      (trace_dropTrailingBreak cs)
  have trimmed : way.Distinct (Edited.when (settings.applies .dropTrailingBreak) dropTrailingBreak
      cases).value :=
    Edited.when_value way.Distinct _ _ cases distinct distinct.dropTrailingBreak
  rw [trim, trimmed.trace_dropRedundant, trim]

/-! ## Clauses for tests -/

private def clause (test : Option Nat) (body : List Statement) : SwitchCase :=
  ⟨test.map fun n => .number ⟨n.toUInt64⟩, body, .synthetic⟩

private def callOf (name : String) : Statement :=
  .expr (.synthetic (.call (.synthetic (.ident ⟨name, .synthetic, none⟩)) []))

private def leave : Statement := .breakTo none .synthetic

/-- The way through a `switch` over a number, with numbers for tests. No statement but jumps leaves. -/
private def wayOf (subject : Nat) : Selection where
  Value := Option Number
  subject := some ⟨subject.toUInt64⟩
  value e := match e.form with
    | .number n => some n
    | _ => none
  equals a b := a == b
  leaves _ _ := false

/-- `case 1:f();case 2:break;case 3:g();default:break`, entered at its first clause. -/
theorem trace_simplifyCases_fallThrough :
    (wayOf 1).Distinct [clause (some 1) [callOf "f"], clause (some 2) [leave],
        clause (some 3) [callOf "g"], clause none [leave]] ∧
      (wayOf 1).trace (simplifyCases {} [clause (some 1) [callOf "f"], clause (some 2) [leave],
        clause (some 3) [callOf "g"], clause none [leave]]).1.value = [callOf "f"] :=
  have distinct : (wayOf 1).Distinct [clause (some 1) [callOf "f"], clause (some 2) [leave],
    clause (some 3) [callOf "g"], clause none [leave]] := ⟨by decide, by decide⟩
  ⟨distinct, ((wayOf 1).trace_simplifyCases {} _ distinct).trans rfl⟩

/-- Of `case 1:break;case 1:g()` nothing is executed for a 1; without its first clause `g()` is. -/
theorem trace_repeated :
    (wayOf 1).trace [clause (some 1) [leave], clause (some 1) [callOf "g"]] = [] ∧
      (wayOf 1).trace (simplifyCases {} [clause (some 1) [leave],
        clause (some 1) [callOf "g"]]).1.value = [callOf "g"] :=
  ⟨rfl, rfl⟩

end Selection

end Minifier
