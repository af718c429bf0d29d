/-! # Slots

A part of a record that a caller may leave out.  Leaving it out and naming it without giving it a
value are two ways of saying the same, and `Slot.value?` does not tell them apart; but a record that
is handed back is handed back as it was written.
-/
namespace Toolpath

/-- A part of a record that may be left out. -/
inductive Slot (α : Type)
  | missing
  | empty
  | filled (value : α)
  deriving DecidableEq

namespace Slot

/-- The value in a slot, if there is one. -/
def value? : Slot α → Option α
  | missing => none
  | empty => none
  | filled value => some value

/-- A slot for a value there may be. -/
def ofOption : Option α → Slot α
  | none => missing
  | some value => filled value

@[simp] theorem value?_ofOption (value : Option α) : (ofOption value).value? = value := by
  cases value <;> rfl

end Slot
end Toolpath
