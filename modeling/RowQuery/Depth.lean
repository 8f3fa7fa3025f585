import RowQuery.Error
import RowQuery.Number.Numeral

/-!
# Depths

How many relations a path may cross is a number in the settings, and a depth is compared with it. A
value that is no number has no order with a depth.
-/

namespace RowQuery

open RowQuery.Number

/-- The number that a value is; truth values are zero and one. -/
def Detail.numeral? : Detail → Option Numeral
  | .int n => some (.ofInt n)
  | .bool b => some (.ofInt (if b then 1 else 0))
  | .float x => some (.ofBinary64 x)
  | _ => none

/-- Whether a value exceeds a limit. Both have to be numbers, or both texts. -/
def Detail.exceeds (value limit : Detail) : Except Error Bool :=
  match value, limit with
  | .int m, .int n => .ok (n < m)
  | .text s, .text t => .ok (t < s)
  | _, _ => match value.numeral?, limit.numeral? with
    | some x, some y => .ok (y.less x)
    | _, _ => .error (.incomparable value limit)

namespace Depth

/-- Refuses a path that crosses more relations than the limit allows. -/
def check (limit depth : Detail) (path : String) : Except Error Unit := do
  if ← depth.exceeds limit then
    throw (.tooDeep path limit)

/-- A number of relations that no path crosses. -/
def beyond : Nat := 1 <<< 1024

/-- How many relations a path may cross, starting with none. -/
def budget (limit : Detail) : Nat :=
  match limit with
  | .int n => n.toNat
  | other => match other.numeral? with
    | some x => x.floor?.getD beyond
    | none => 0

/-- Why a path that has used up its budget may not go on. -/
def fault (limit : Detail) (path : String) : Error :=
  match (Detail.int 0).exceeds limit with
  | .ok _ => .tooDeep path limit
  | .error e => e

end Depth

end RowQuery
