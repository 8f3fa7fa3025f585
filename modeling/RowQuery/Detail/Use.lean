import RowQuery.Error

/-!
# Uses of details

A plain value may not be fit for the use that is made of it: a name has to be a text, a limit a number,
a choice the name of a member, and an integer that is written must not be too long. Each use gives what
it needs of the value, or says why the value is not fit.
-/

namespace RowQuery

namespace Detail

/-- A value that has to be a text, because it needs a part that only texts have. -/
def textWith (part : String) : Detail → Except Error String
  | .text s => .ok s
  | other => .error (.lacks other.className part)

/-- A name or a text that is to be quoted. -/
def quotable (d : Detail) : Except Error String := d.textWith "replace"

/-- Two values one after the other, which have to be texts. -/
def append : Detail → Detail → Except Error String
  | .text s, .text t => .ok (s ++ t)
  | left, right => .error (.unjoinable left right)

mutual

/-- Whether a value can be written: an integer needs no more digits than are read of a numeral, and so do
    those inside of a value. -/
def isWritable : Detail → Bool
  | .int n => (Nat.toDigits 10 n.natAbs).length ≤ Number.maxDigits
  | .list items => allWritable items
  | .record entries => entriesWritable entries
  | _ => true

/-- Whether all items of a list can be written. -/
def allWritable : List Detail → Bool
  | [] => true
  | item :: items => item.isWritable && allWritable items

/-- Whether the values of all entries of a record can be written. -/
def entriesWritable : List (String × Detail) → Bool
  | [] => true
  | (_, value) :: entries => value.isWritable && entriesWritable entries

end

/-- The plain text of a value that has to be written. -/
def written (d : Detail) : Except Error String :=
  if d.isWritable then .ok d.plain else .error .longNumeral

/-- The member of an enumeration with a given name. -/
def member {α : Type} (enumeration : String) (ofName? : String → Option α) (d : Detail) :
    Except Error α :=
  match d with
  | .text name => match ofName? name with
    | some a => .ok a
    | none => .error (.notAMember enumeration d)
  | _ => .error (.notAMember enumeration d)

end Detail

/-- The join type with a given name. -/
def JoinType.ofDetail (d : Detail) : Except Error JoinType := d.member "JoinType" JoinType.ofName?

/-- The operation with a given name. -/
def Operation.ofDetail (d : Detail) : Except Error Operation :=
  d.member "Operation" Operation.ofName?

/-- The kind of columns with a given name; null stands for none. -/
def ColumnKind.ofDetail (d : Detail) : Except Error (Option ColumnKind) :=
  if d == .null then .ok none else (d.member "ColumnKind" ColumnKind.ofName?).map some

end RowQuery
