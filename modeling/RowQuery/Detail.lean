import RowQuery.Number.Shortest
import RowQuery.Text.Quoted

/-!
# Details

A detail is a plain value: it goes along with a message, or a setting holds it. Its display is what
a message shows. Equality of details is decided by `same`.
-/

namespace RowQuery

open RowQuery.Number

/-- A plain value. -/
inductive Detail where
  | null
  | bool (b : Bool)
  | int (n : Int)
  | float (x : Binary64)
  | text (s : String)
  | list (items : List Detail)
  | record (entries : List (String × Detail))
  deriving Inhabited, Repr

namespace Detail

mutual

/-- Whether two values are the same. -/
def same : Detail → Detail → Bool
  | .null, .null => true
  | .bool a, .bool b => a == b
  | .int m, .int n => m == n
  | .float x, .float y => x == y
  | .text s, .text t => s == t
  | .list xs, .list ys => sameItems xs ys
  | .record es, .record fs => sameEntries es fs
  | _, _ => false

/-- Whether two lists have the same items. -/
def sameItems : List Detail → List Detail → Bool
  | [], [] => true
  | x :: xs, y :: ys => x.same y && sameItems xs ys
  | _, _ => false

/-- Whether two records have the same entries in the same order. -/
def sameEntries : List (String × Detail) → List (String × Detail) → Bool
  | [], [] => true
  | (k, x) :: es, (l, y) :: fs => k == l && x.same y && sameEntries es fs
  | _, _ => false

end

mutual

/-- Values are the same exactly if they are equal. -/
theorem same_iff (a b : Detail) : a.same b = true ↔ a = b := by
  cases a <;> cases b <;> simp [same]
  · exact sameItems_iff _ _
  · exact sameEntries_iff _ _

/-- Lists have the same items exactly if they are equal. -/
theorem sameItems_iff (xs ys : List Detail) : sameItems xs ys = true ↔ xs = ys := by
  match xs, ys with
  | [], [] => simp [sameItems]
  | [], _ :: _ => simp [sameItems]
  | _ :: _, [] => simp [sameItems]
  | x :: xs, y :: ys => simp [sameItems, same_iff x y, sameItems_iff xs ys]

/-- Records have the same entries exactly if they are equal. -/
theorem sameEntries_iff (es fs : List (String × Detail)) : sameEntries es fs = true ↔ es = fs := by
  match es, fs with
  | [], [] => simp [sameEntries]
  | [], _ :: _ => simp [sameEntries]
  | _ :: _, [] => simp [sameEntries]
  | (k, x) :: es, (l, y) :: fs => simp [sameEntries, same_iff x y, sameEntries_iff es fs, and_assoc]

end

instance : DecidableEq Detail := fun a b => decidable_of_iff (a.same b = true) (same_iff a b)

instance : Coe String Detail := ⟨.text⟩

/-- The spelling of a truth value. -/
def displayBool (b : Bool) : String := if b then "True" else "False"

mutual

/-- The display of a value. -/
def display : Detail → String
  | .null => "None"
  | .bool b => displayBool b
  | .int n => toString n
  | .float x => x.display
  | .text s => Text.display s
  | .list items => Text.displayList (displayAll items)
  | .record entries => "\x7b" ++ ", ".intercalate (displayEntries entries) ++ "\x7d"

/-- The displays of the items of a list. -/
def displayAll : List Detail → List String
  | [] => []
  | item :: items => item.display :: displayAll items

/-- The displays of the entries of a record. -/
def displayEntries : List (String × Detail) → List String
  | [] => []
  | (key, value) :: entries => (Text.display key ++ ": " ++ value.display) :: displayEntries entries

end

/-- The plain text of a value: its display, or for a text the text itself. -/
def plain : Detail → String
  | .text s => s
  | other => other.display

/-- A text that may be missing; null if it is. -/
def ofText? (s : Option String) : Detail := s.elim .null .text

/-- The detail that lists some texts. -/
def texts (items : List String) : Detail := .list (items.map .text)

/-- Whether a value counts as true: nothing that is missing, zero or empty does. -/
def isTrue : Detail → Bool
  | .null => false
  | .bool b => b
  | .int n => n != 0
  | .float x => x.magnitude != 0
  | .text s => s != ""
  | .list items => !items.isEmpty
  | .record entries => !entries.isEmpty

/-- The word for the class of a value. -/
def className : Detail → String
  | .null => "NoneType"
  | .bool _ => "bool"
  | .int _ => "int"
  | .float _ => "float"
  | .text _ => "str"
  | .list _ => "list"
  | .record _ => "dict"

end Detail

end RowQuery
