import RowQuery.Proofs.JoinSemantics
import RowQuery.Proofs.JoinedRelations

/-!
# Where discriminators stand

A table that several kinds of rows share is joined with a discriminator, which says what kind is meant.
The discriminators of the relations that filters or search go through are conditions of the query, each of
them once. Those of the relations that are joined for preloads or sorts only are part of the condition of
the join, where they restrict what is joined and not what is selected. So no such table is joined without
its discriminator.
-/

namespace RowQuery.Sql

/-- Discriminators whose columns are quoted are told apart by how they are written. -/
theorem Discriminator.eq_of_text_eq {d : Dialect} {x y : Discriminator} (plain : x.column.Plain)
    (plain' : y.column.Plain) (same : x.predicate.text d = y.predicate.text d) : x = y := by
  have reads : ∀ {z : Discriminator}, z.column.Plain → read (z.predicate.text d) [] = some z.predicate := by
    intro z plain
    refine read_text d ?_ trivial
    intro c member
    cases List.mem_singleton.mp member
    exact plain
  have equal : some x.predicate = some y.predicate := by
    rw [← reads plain, ← reads plain', same]
  cases x
  cases y
  cases equal
  rfl

end RowQuery.Sql

namespace RowQuery.Compile

open RowQuery.Schema RowQuery.Sql RowQuery.Join

/-- A relation with a discriminator is joined by one table, on the discriminator as well. -/
theorem Link.Written.inlined_eq {settings : Settings} {link : Link} {clause : JoinClause}
    {x : Discriminator} (written : link.Written settings true clause)
    (isType : link.config.discriminator? = some x) :
    ∃ j : JoinStep, clause = [j] ∧ j.table = link.config.table ∧ j.left.table = some link.base ∧
      j.on = .and (.sameColumn j.left j.right) x.predicate := by
  obtain ⟨own, made, rfl⟩ := written
  rw [isType] at made ⊢
  cases made with
  | polymorphic plan named => exact ⟨_, rfl, rfl, rfl, rfl⟩

/-- The discriminators of a compiled query stand where they belong. -/
structure Compiled.Discriminated (ctx : Context) (q : Query) (schema : Schema) (c : Compiled) : Prop where
  /-- They are the last conditions. -/
  placed : c.whereTokens = Token.joined (Token.spaced "AND")
    (Compiled.conditionTokens { c with discriminators := [] } ++
      c.discriminators.map fun x => x.predicate.tokens c.joinStyle)
  nodup : (c.discriminators.map fun x => x.predicate.text c.joinStyle).Nodup
  /-- These are the discriminators of the relations that filters or search go through. -/
  conditions : ∀ x, x ∈ c.discriminators ↔
    ∃ link : Link, link.Used ctx q schema c ∧ link.config.discriminator? = some x
  used : ∀ link : Link, link.Used ctx q schema c →
    ∃ clause ∈ c.joins, link.Written ctx.settings false clause
  /-- Relations that are joined for preloads or sorts only have theirs in the join. -/
  inlined : ∀ link : Link, link.Brought ctx q schema c → ∀ x ∈ link.config.discriminator?,
    ∃ j : JoinStep, [j] ∈ c.joins ∧ j.table = link.config.table ∧ j.left.table = some link.base ∧
      j.on = .and (.sameColumn j.left j.right) x.predicate
  /-- There are no other joins. -/
  constrained : ∀ clause ∈ c.joins, ∃ link : Link, link.Joins ctx q schema c clause ∧
    ∀ x ∈ link.config.discriminator?, x ∈ c.discriminators ∨
      ∀ j ∈ clause, j.on = .and (.sameColumn j.left j.right) x.predicate

namespace Stages.Yield

variable {ctx : Context} {strict : Bool} {q : Query} {subject : Subject} {table : Option String}
  {c : Compiled} {s : Stages}

/-- No discriminator is among the conditions twice. -/
theorem nodup_discriminators (yields : s.Yield ctx strict q subject table c) :
    (c.discriminators.map fun x => x.predicate.text c.joinStyle).Nodup := by
  have same : c.discriminators = s.discriminators := by rw [yields.compiled]
  have plain : ∀ x ∈ c.discriminators, x.column.Plain := by
    rw [same]
    exact (plain_requestJoins yields.joins).2
  have distinct : c.discriminators.Nodup := by
    rw [same]
    rcases requestJoins_eq_ok.mp yields.joins with
      ⟨_, _, empty⟩ | ⟨r, needed, loaded, further, _, joined, _, _⟩
    · rw [empty]
      exact List.nodup_nil
    · obtain ⟨found, _, _, types⟩ := joins_eq_ok.mp joined
      rw [types]
      exact Text.nodup_mergeNew List.nodup_nil _
  refine List.Nodup.map_on ?_ distinct
  intro x inside y inside' same
  exact Discriminator.eq_of_text_eq (plain x inside) (plain y inside') same

/-- Every join is that of a relation whose discriminator, if it has one, is among the conditions or in the
    join. -/
theorem constrained (yields : s.Yield ctx strict q subject table c) {clause : JoinClause}
    (member : clause ∈ c.joins) : ∃ link : Link, link.Joins ctx q s.schema c clause ∧
      ∀ x ∈ link.config.discriminator?, x ∈ c.discriminators ∨
        ∀ j ∈ clause, j.on = .and (.sameColumn j.left j.right) x.predicate := by
  obtain ⟨link, joins⟩ := yields.link_of_mem_joins member
  refine ⟨link, joins, ?_⟩
  intro x isType
  cases joins with
  | used used written => exact .inl (yields.mem_discriminators_iff.mpr ⟨link, used, isType⟩)
  | brought brought written =>
    obtain ⟨j, rfl, _, _, on⟩ := written.inlined_eq isType
    refine .inr fun k inside => ?_
    cases List.mem_singleton.mp inside
    exact on

end Stages.Yield

namespace Books

/-- The remarks are joined, from a table of their own. -/
def remarking : Context :=
  { lending with
    registry := some { entries := [("Remarks",
      { type := .polymorphic, table := "remark", joinType := .left
        keys := { polymorphicId := some "OwnerID", polymorphicType := some "OwnerType"
                  polymorphicValue := some "loan" } })] } }

/-- Loans with a remark, by the notes of the book. -/
def remarked : Query :=
  { filters := [⟨"Remarks.Stars", .greater, "3"⟩, ⟨"Remarks.Body", .like, "%x%"⟩]
    sorts := [⟨"Book.Notes.Body", .ascending⟩, ⟨"Remarks.Stars", .ascending⟩], preloads := ["Remarks"] }

end Books

end RowQuery.Compile
