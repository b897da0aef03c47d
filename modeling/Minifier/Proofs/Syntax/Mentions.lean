import Minifier.Proofs.Syntax.Related

/-!
# Mentions

The fields that are mentioned in a tree, as a census of it. The names in use are read off the nodes of
a tree, and come to the same (`Program.coe_mentions`). Both sides are seen as marks: a mention is a mark
of use with a field, and the marks of declarations are passed over.
-/

set_option autoImplicit false

namespace Minifier

open Multiset

/-- The fields that are mentioned in a tree. -/
def mentions : Census (Multiset FieldId) where
  use _ id := id.field.toList
  declare _ := 0
  function _ body := body
  handler _ body := body
  withBody _ body := body

/-- The field that a mark mentions. -/
def Mark.mention? : Mark → Option FieldId
  | .use id => id.field
  | _ => none

/-- What a construct has on its own mentions nothing. -/
theorem mentions_of_head {head : List Mark} (quiet : ∀ id, .use id ∉ head) (marks : Multiset Mark) :
    ((head : Multiset Mark) + marks).filterMap Mark.mention? = marks.filterMap Mark.mention? := by
  have none_ : head.filterMap Mark.mention? = [] := by
    refine List.filterMap_eq_nil_iff.mpr fun mark mem => ?_
    cases mark with
    | use id => exact absurd mem (quiet id)
    | _ => rfl
  rw [filterMap_add, filterMap_coe, none_, coe_nil, zero_add]

theorem markCensus_relates_mentions : markCensus.Relates mentions
    fun a b => b = a.filterMap Mark.mention? where
  zero := rfl
  add := by
    intro a a₁ b b₁ first second
    rw [filterMap_add, first, second]
  use isCallee id := by
    obtain ⟨name, span, field⟩ := id
    cases field <;> rfl
  declare id := rfl
  function fn same := by
    refine same.trans (mentions_of_head (fun id => ?_) _).symm
    cases isScope : fn.scope <;> simp [Function.headMarks, scopeMarks, isScope]
  handler clause same := by
    refine same.trans (mentions_of_head (fun id => ?_) _).symm
    cases isScope : clause.scope <;> simp [CatchClause.headMarks, scopeMarks, isScope]
  withBody scope same := by
    refine same.trans (mentions_of_head (fun id => ?_) _).symm
    cases scope <;> simp [scopeMarks]

/-- The fields of the names in use at some nodes are what their marks mention. -/
theorem filterMap_field_use (nodes : List Node) :
    (nodes.filterMap Node.use?).filterMap (·.field) = (marksOf nodes).filterMap Mark.mention? := by
  have opens (scope : Option ScopeId) : (scope.map Mark.scope).bind Mark.mention? = none := by
    cases scope <;> rfl
  simp only [marksOf, List.filterMap_filterMap]
  congr 1
  funext n
  rcases n with _ | s | ⟨form, span⟩ | fn | _ | _ | clause | _ | _
  case statement => cases s <;> simp [Node.use?, Node.mark?, opens]
  case expr => cases form <;> simp [Node.use?, Node.mark?, Mark.mention?]
  all_goals simp [Node.use?, Node.mark?, Mark.mention?, opens]

/-- The fields of the names in use are the mentions. -/
theorem Program.coe_mentions (p : Program) :
    (p.uses.filterMap (·.field) : Multiset FieldId) = p.census mentions := by
  rw [Program.uses, filterMap_field_use, markCensus_relates_mentions.related p, ← p.coe_marks,
    filterMap_coe]
  rfl

theorem Statement.coe_mentions (s : Statement) :
    ((s.nodes.filterMap Node.use?).filterMap (·.field) : Multiset FieldId) = s.census mentions := by
  rw [filterMap_field_use, s.marks_eq, markCensus_relates_mentions.related_statement s, ← s.coe_marks,
    filterMap_coe]

end Minifier
