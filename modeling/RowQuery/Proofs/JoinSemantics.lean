import RowQuery.Proofs.WhereStructure

/-!
# What joins mean

The rows that a compiled query selects from a database. Rows of the root table are put together with rows
of each joined table in turn, as far as these satisfy the condition of the join. A left join also keeps
what finds no row, with nulls in its place; a right join keeps the rows that nothing was put together
with. Of what was put together, that is selected which satisfies the condition of the query.
-/

namespace RowQuery.Sql

/-- The condition of a join. -/
def JoinStep.on (j : JoinStep) : Predicate :=
  match j.discriminator with
  | none => .sameColumn j.left j.right
  | some x => .and (.sameColumn j.left j.right) x.predicate

/-- A join is written with its condition behind `ON`. -/
theorem JoinStep.tokens_eq (d : Dialect) (j : JoinStep) :
    j.tokens d = Token.words j.type.words ++ [.space, .name d j.table] ++ Token.spaced "ON" ++
      j.on.tokens d := by
  unfold JoinStep.tokens JoinStep.on
  cases j.discriminator <;> rfl

variable {δ : Type}

/-- A row all of whose columns are null. -/
def nullRow : Row δ := fun _ => none

namespace JoinStep

/-- What some rows are put together to with the rows of a joined table. -/
def partners (E : Engine δ) (db : Database δ) (j : JoinStep) (scopes : Scopes δ) : List (Scopes δ) :=
  ((db j.table).map fun row => (j.table, row) :: scopes).filter fun joined => j.on.Holds E db joined

/-- The rows of a joined table that nothing is put together with. -/
def strangers (E : Engine δ) (db : Database δ) (j : JoinStep) (rows : List (Scopes δ)) : List (Row δ) :=
  (db j.table).filter fun row => rows.all fun scopes => !decide (j.on.Holds E db ((j.table, row) :: scopes))

/-- What is joined before, put together with the rows of one more table. The tables that were joined
    before are null where a right join finds nothing. -/
def join (E : Engine δ) (db : Database δ) (tables : List String) (rows : List (Scopes δ)) (j : JoinStep) :
    List (Scopes δ) :=
  match j.type with
  | .inner => rows.flatMap (j.partners E db)
  | .left => rows.flatMap fun scopes =>
      if (j.partners E db scopes).isEmpty then [(j.table, nullRow) :: scopes] else j.partners E db scopes
  | .right => rows.flatMap (j.partners E db) ++
      (j.strangers E db rows).map fun row => (j.table, row) :: tables.map fun t => (t, nullRow)

end JoinStep

/-- What is joined before, put together with the rows of several more tables in turn. -/
def joinAll (E : Engine δ) (db : Database δ) :
    List String → List (Scopes δ) → List JoinStep → List (Scopes δ)
  | _, rows, [] => rows
  | tables, rows, j :: js => joinAll E db (j.table :: tables) (j.join E db tables rows) js

/-! ## Left joins -/

/-- Some rows and what a left join makes of them: they are put together with a row that satisfies the
    condition, or with nulls if there is none. -/
def LeftJoined (E : Engine δ) (db : Database δ) (j : JoinStep) (scopes joined : Scopes δ) : Prop :=
  (∃ row ∈ db j.table, j.on.Holds E db ((j.table, row) :: scopes) ∧ joined = (j.table, row) :: scopes) ∨
    (∀ row ∈ db j.table, ¬ j.on.Holds E db ((j.table, row) :: scopes)) ∧
      joined = (j.table, nullRow) :: scopes

/-- Some rows and what several left joins make of them. -/
def LeftJoinedAll (E : Engine δ) (db : Database δ) : List JoinStep → Scopes δ → Scopes δ → Prop
  | [], scopes, joined => joined = scopes
  | j :: js, scopes, joined => ∃ next, LeftJoined E db j scopes next ∧ LeftJoinedAll E db js next joined

section Left

variable {E : Engine δ} {db : Database δ} {j : JoinStep} {js : List JoinStep} {tables : List String}
  {rows : List (Scopes δ)} {scopes joined : Scopes δ}

theorem mem_partners : joined ∈ j.partners E db scopes ↔
    ∃ row ∈ db j.table, j.on.Holds E db ((j.table, row) :: scopes) ∧
      joined = (j.table, row) :: scopes := by
  simp only [JoinStep.partners, List.mem_filter, List.mem_map, decide_eq_true_eq]
  constructor
  · rintro ⟨⟨row, member, rfl⟩, holds⟩
    exact ⟨row, member, holds, rfl⟩
  · rintro ⟨row, member, holds, rfl⟩
    exact ⟨⟨row, member, rfl⟩, holds⟩

theorem mem_join_left (left : j.type = .left) :
    joined ∈ j.join E db tables rows ↔ ∃ scopes ∈ rows, LeftJoined E db j scopes joined := by
  simp only [JoinStep.join, left, List.mem_flatMap]
  refine exists_congr fun scopes => and_congr_right fun _ => ?_
  by_cases none : (j.partners E db scopes).isEmpty = true
  · have alone : ∀ row ∈ db j.table, ¬ j.on.Holds E db ((j.table, row) :: scopes) := by
      intro row member holds
      have partner := mem_partners.mpr ⟨row, member, holds, rfl⟩
      rw [List.isEmpty_iff.mp none] at partner
      cases partner
    rw [if_pos none, List.mem_singleton]
    constructor
    · intro same
      exact .inr ⟨alone, same⟩
    · rintro (⟨row, member, holds, _⟩ | ⟨_, same⟩)
      · exact absurd holds (alone row member)
      · exact same
  · rw [if_neg none, mem_partners]
    constructor
    · exact .inl
    · rintro (found | ⟨alone, _⟩)
      · exact found
      · have empty : j.partners E db scopes = [] := by
          apply List.eq_nil_iff_forall_not_mem.mpr
          intro other member
          obtain ⟨row, inTable, holds, _⟩ := mem_partners.mp member
          exact alone row inTable holds
        simp [empty] at none

/-- Left joins treat all rows apart. -/
theorem mem_joinAll_left (left : ∀ j ∈ js, j.type = .left) :
    joined ∈ joinAll E db tables rows js ↔ ∃ scopes ∈ rows, LeftJoinedAll E db js scopes joined := by
  induction js generalizing tables rows with
  | nil => simp [joinAll, LeftJoinedAll]
  | cons j js ih =>
    rw [joinAll, ih fun k member => left k (by simp [member])]
    constructor
    · rintro ⟨next, inJoin, rest⟩
      obtain ⟨scopes, member, first⟩ := (mem_join_left (left j (by simp))).mp inJoin
      exact ⟨scopes, member, next, first, rest⟩
    · rintro ⟨scopes, member, next, first, rest⟩
      exact ⟨next, (mem_join_left (left j (by simp))).mpr ⟨scopes, member, first⟩, rest⟩

/-- What one left join comes to: a row that satisfies the condition is joined, or none does and nulls
    are. -/
theorem exists_leftJoinedAll_cons {Q : Scopes δ → Prop} :
    (∃ joined, LeftJoinedAll E db (j :: js) scopes joined ∧ Q joined) ↔
      (∃ row ∈ db j.table, j.on.Holds E db ((j.table, row) :: scopes) ∧
        ∃ joined, LeftJoinedAll E db js ((j.table, row) :: scopes) joined ∧ Q joined) ∨
      (∀ row ∈ db j.table, ¬ j.on.Holds E db ((j.table, row) :: scopes)) ∧
        ∃ joined, LeftJoinedAll E db js ((j.table, nullRow) :: scopes) joined ∧ Q joined := by
  constructor
  · rintro ⟨joined, ⟨_, ⟨row, member, holds, rfl⟩ | ⟨alone, rfl⟩, rest⟩, asked⟩
    · exact .inl ⟨row, member, holds, joined, rest, asked⟩
    · exact .inr ⟨alone, joined, rest, asked⟩
  · rintro (⟨row, member, holds, joined, rest, asked⟩ | ⟨alone, joined, rest, asked⟩)
    · exact ⟨joined, ⟨_, .inl ⟨row, member, holds, rfl⟩, rest⟩, asked⟩
    · exact ⟨joined, ⟨_, .inr ⟨alone, rfl⟩, rest⟩, asked⟩

theorem exists_leftJoinedAll_nil {Q : Scopes δ → Prop} :
    (∃ joined, LeftJoinedAll E db [] scopes joined ∧ Q joined) ↔ Q scopes :=
  exists_eq_left

/-- Joined rows stand in front, so the row of the root table stays the last. -/
theorem LeftJoinedAll.getLast? (joins : LeftJoinedAll E db js scopes joined) (some : scopes ≠ []) :
    joined.getLast? = scopes.getLast? := by
  induction js generalizing scopes with
  | nil => rw [joins]
  | cons j js ih =>
    obtain ⟨next, first, rest⟩ := joins
    have grown : ∃ scope, next = scope :: scopes := by
      rcases first with ⟨row, _, _, rfl⟩ | ⟨_, rfl⟩
      · exact ⟨_, rfl⟩
      · exact ⟨_, rfl⟩
    obtain ⟨scope, rfl⟩ := grown
    rw [ih rest (by simp), List.getLast?_cons_of_ne_nil some]

end Left

end RowQuery.Sql

namespace RowQuery.Compile

open RowQuery.Schema RowQuery.Sql

variable {δ : Type}

namespace Compiled

/-- What the rows of the root table are put together to with those of the joined tables. -/
def joinedRows (E : Engine δ) (db : Database δ) (c : Compiled) : List (Scopes δ) :=
  joinAll E db [c.table] ((db c.table).map fun row => [(c.table, row)]) c.joins.flatten

/-- Whether a row of the root table is selected: it is put together to rows that satisfy the condition. -/
def Selects (E : Engine δ) (db : Database δ) (c : Compiled) (row : Row δ) : Prop :=
  ∃ scopes ∈ c.joinedRows E db, scopes.getLast? = some (c.table, row) ∧
    ∀ p ∈ c.condition?, p.Holds E db scopes

/-- With left joins, a row of the root table is selected if what they make of it satisfies the
    condition. -/
theorem selects_of_left {E : Engine δ} {db : Database δ} {c : Compiled} {row : Row δ}
    (left : ∀ j ∈ c.joins.flatten, j.type = .left) :
    c.Selects E db row ↔ row ∈ db c.table ∧ ∃ joined,
      LeftJoinedAll E db c.joins.flatten [(c.table, row)] joined ∧
        ∀ p ∈ c.condition?, p.Holds E db joined := by
  unfold Selects joinedRows
  simp only [mem_joinAll_left left, List.mem_map]
  constructor
  · rintro ⟨joined, ⟨_, ⟨other, member, rfl⟩, joins⟩, last, holds⟩
    rw [joins.getLast? (by simp)] at last
    cases last
    exact ⟨member, joined, joins, holds⟩
  · rintro ⟨member, joined, joins, holds⟩
    exact ⟨joined, ⟨_, ⟨row, member, rfl⟩, joins⟩, joins.getLast? (by simp), holds⟩

end Compiled

/-- The condition that decides which rows are selected is what the text of the condition says. -/
theorem read_compileQuery {ctx : Context} {strict : Bool} {q : Query} {subject : Subject}
    {table : Option String} {c : Compiled} (key : PlainKey ctx.settings)
    (ok : (compileQuery ctx strict q subject table).result = .ok c) :
    read c.whereText c.args = c.condition? := by
  obtain ⟨s, yields⟩ := compileQuery_eq_ok ok
  have filters := yields.forall_filters (P := Formed ctx s.schema c.table) formed_narrowed
  have search := yields.forall_search (P := Formed ctx s.schema c.table) fun searched =>
    formed_searched searched (fun f => List.mem_of_mem_filter) (by simp)
  exact Compiled.read_where (plain_compileQuery key ok) (fun p member => (filters p member).regular)
    fun p member => (search p member).regular

end RowQuery.Compile
