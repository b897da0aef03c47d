/-!
# Edited values

The outcome of a transformation: the value it leaves, and whether it did anything. Transformations
that follow each other did something if one of them did.
-/

set_option autoImplicit false

namespace Minifier

/-- A value after a transformation. -/
structure Edited (α : Type) where
  value : α
  changed : Bool

namespace Edited

variable {α β : Type}

instance : Monad Edited where
  pure value := ⟨value, false⟩
  bind x f :=
    let y := f x.value
    ⟨y.value, x.changed || y.changed⟩

/-- A value that is not what it was. -/
def of (value : α) : Edited α := ⟨value, true⟩

/-- What a rule makes of a value, if it applies. -/
def orElse (value : α) : Option α → Edited α
  | some edited => of edited
  | none => pure value

/-- Makes a transformation only if it is asked for. -/
def when (applies : Bool) (rule : α → Edited α) (value : α) : Edited α :=
  if applies then rule value else pure value

end Edited

end Minifier
