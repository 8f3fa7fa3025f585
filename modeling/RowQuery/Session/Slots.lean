/-!
# Slots

Things that are kept by number. A name stands for the slot that it was last given to; a slot keeps
what is in it when its name goes to another.
-/

namespace RowQuery

/-- Things in numbered slots, some of which have names. -/
structure Slots (α : Type) where
  items : List α := []
  names : List (String × Nat) := []

namespace Slots

variable {α : Type}

/-- The slot that a name stands for now. -/
def find? (s : Slots α) (name : String) : Option Nat := s.names.lookup name

/-- What is in a slot. -/
def get? (s : Slots α) (slot : Nat) : Option α := s.items[slot]?

/-- Puts something else into a slot. -/
def set (s : Slots α) (slot : Nat) (item : α) : Slots α := { s with items := s.items.set slot item }

/-- Puts something into a new slot. -/
def add (s : Slots α) (item : α) : Nat × Slots α :=
  (s.items.length, { s with items := s.items ++ [item] })

/-- Gives a name to a slot; an older meaning of the name is covered up. -/
def rename (s : Slots α) (name : String) (slot : Nat) : Slots α :=
  { s with names := (name, slot) :: s.names }

end Slots

end RowQuery
