import RowQuery.Proofs.QueryCore

/-!
# Tables that are selected from once

Every table goes by its own name in a compiled query, so none should be brought in twice. Where the
relations that are joined have tables of their own, none is: filters, search, preloads and several sorts
may share a relation, and it is joined once. This rests on sorts that cross a relation at the same path
joining it from the same table. A relation to the root table itself, or two relations to one table, bring
a table in twice. So does a nested relation that is preloaded and sorted through: a preload joins it from
the root table, a sort from the table before it.
-/

namespace RowQuery.Text

/-- The parts between separators hold none. -/
theorem not_mem_splitChars (sep : Char) (cs : List Char) :
    ∀ part ∈ (splitChars sep cs).1 :: (splitChars sep cs).2, sep ∉ part := by
  induction cs with
  | nil => simp [splitChars]
  | cons c cs ih =>
    by_cases separator : c = sep
    · simp only [splitChars, separator, if_true, List.mem_cons, forall_eq_or_imp]
      exact ⟨List.not_mem_nil, List.forall_mem_cons.mp ih⟩
    · simp only [splitChars, separator, if_false]
      intro part member
      rcases List.mem_cons.mp member with rfl | later
      · intro inside
        rcases List.mem_cons.mp inside with same | inside
        · exact separator same.symm
        · exact ih _ List.mem_cons_self inside
      · exact ih part (List.mem_cons_of_mem _ later)

/-- What stands before the first separator, or before the end. -/
theorem takeWhile_of_not_mem {sep : Char} {cs rest : List Char} (free : sep ∉ cs)
    (ends : ∀ c ∈ rest.head?, c = sep) : (cs ++ rest).takeWhile (· != sep) = cs := by
  have other : ∀ c ∈ cs, (c != sep) = true := by
    intro c member
    simpa using ne_of_mem_of_not_mem member free
  rw [List.takeWhile_append_of_pos other]
  cases rest with
  | nil => simp
  | cons c rest =>
    cases ends c rfl
    simp

end RowQuery.Text

namespace RowQuery

/-- The segments of a path hold no dot. -/
theorem Path.not_mem_segments (s : String) : ∀ segment ∈ (Path.ofText s).segments, '.' ∉ segment.toList := by
  have parts := Text.not_mem_splitChars '.' s.toList
  intro segment member
  simp only [Path.segments, Path.ofText, ← List.map_cons] at member
  obtain ⟨part, inParts, rfl⟩ := List.mem_map.mp member
  simpa using parts part inParts

end RowQuery

namespace RowQuery.Compile

open RowQuery.Schema RowQuery.Sql RowQuery.Join

/-! ## One relation at each path -/

section SortLinks

variable {ctx : Context} {rest rest' : List String} {head head' table walked : String} {schema : Schema}
  {link link' : Link}

/-- A relation that a sort crosses is the first one, or it is crossed behind this. -/
theorem sortLinks_cases (member : link ∈ sortLinks ctx rest head schema table walked) :
    ∃ next more f related config, rest = next :: more ∧ schema.get? head = some f ∧
      (ctx.related f).result = .ok related ∧ sortConfig ctx table (walked ++ head) f = .ok config ∧
      (link = ⟨walked ++ head, table, config⟩ ∨
        link ∈ sortLinks ctx more next related config.table (walked ++ head ++ ".")) := by
  cases rest with
  | nil => simp [sortLinks] at member
  | cons next more =>
    rw [sortLinks] at member
    split at member
    · cases member
    · rename_i f found
      split at member
      · split at member
        · rename_i related config target configured
          exact ⟨next, more, f, related, config, rfl, found, target, configured, List.mem_cons.mp member⟩
        · cases member
      · cases member

/-- The path of a relation starts with what was walked before it and with the first segment. -/
theorem path_of_sortLinks (member : link ∈ sortLinks ctx rest head schema table walked) :
    ∃ more, link.path = walked ++ head ++ more := by
  induction rest generalizing head schema table walked with
  | nil => simp [sortLinks] at member
  | cons next rest ih =>
    obtain ⟨_, _, f, related, config, same, _, _, _, rfl | behind⟩ := sortLinks_cases member
    · exact ⟨"", by simp⟩
    · cases same
      obtain ⟨more, path⟩ := ih behind
      exact ⟨"." ++ next ++ more, by simp [path, String.append_assoc]⟩

/-- A relation behind another one has a longer path. -/
theorem path_ne_of_sortLinks (behind : link ∈ sortLinks ctx rest head schema table (walked ++ ".")) :
    link.path ≠ walked := by
  intro equal
  obtain ⟨more, path⟩ := path_of_sortLinks behind
  have lengths := congrArg String.length (path.symm.trans equal)
  have dot : ".".length = 1 := rfl
  simp only [String.length_append] at lengths
  omega

/-- A registered relation is joined as it is registered. -/
theorem config_of_sortLinks {config : Config} (member : link ∈ sortLinks ctx rest head schema table walked)
    (known : ctx.config? link.path = some config) : link.config = config := by
  induction rest generalizing head schema table walked with
  | nil => simp [sortLinks] at member
  | cons next rest ih =>
    obtain ⟨_, _, f, related, other, same, _, _, configured, rfl | behind⟩ := sortLinks_cases member
    · simp only [sortConfig, (sortRegistry_of_config? known).2, Except.ok.injEq] at configured
      exact configured.symm
    · cases same
      exact ih behind

/-- The path of a relation tells the first segment: what stands between what was walked before and the
    next dot. -/
theorem head_of_sortLinks (free : '.' ∉ head.toList)
    (member : link ∈ sortLinks ctx rest head schema table walked) :
    ∃ tail, link.path = walked ++ tail ∧ tail.toList.takeWhile (· != '.') = head.toList := by
  obtain ⟨next, more, f, related, config, rfl, _, _, _, rfl | behind⟩ := sortLinks_cases member
  · have alone : (head.toList ++ []).takeWhile (· != '.') = head.toList :=
      Text.takeWhile_of_not_mem free (by simp)
    exact ⟨head, rfl, by simpa using alone⟩
  · obtain ⟨last, path⟩ := path_of_sortLinks behind
    have before : (head.toList ++ '.' :: (next ++ last).toList).takeWhile (· != '.') = head.toList :=
      Text.takeWhile_of_not_mem free (by simp)
    exact ⟨head ++ "." ++ next ++ last, by simp [path, String.append_assoc], by simpa using before⟩

/-- Sorts that cross a relation at the same path join it from the same table and by the same
    configuration. -/
theorem sortLinks_unique (undotted : ∀ s ∈ head :: rest, '.' ∉ s.toList)
    (undotted' : ∀ s ∈ head' :: rest', '.' ∉ s.toList)
    (member : link ∈ sortLinks ctx rest head schema table walked)
    (member' : link' ∈ sortLinks ctx rest' head' schema table walked) (same : link.path = link'.path) :
    link = link' := by
  induction rest generalizing rest' head head' schema table walked with
  | nil => simp [sortLinks] at member
  | cons next rest ih =>
    have heads : head = head' := by
      obtain ⟨tail, path, isHead⟩ := head_of_sortLinks (undotted head List.mem_cons_self) member
      obtain ⟨tail', path', isHead'⟩ := head_of_sortLinks (undotted' head' List.mem_cons_self) member'
      have tails : tail = tail' := (String.append_right_inj walked).mp (by rw [← path, same, path'])
      rw [← String.toList_inj, ← isHead, ← isHead', tails]
    subst heads
    obtain ⟨_, _, f, related, config, isRest, found, target, configured, here⟩ := sortLinks_cases member
    obtain ⟨next', more', f', related', config', isRest', found', target', configured', here'⟩ :=
      sortLinks_cases member'
    cases isRest
    subst isRest'
    cases found.symm.trans found'
    cases target.symm.trans target'
    cases configured.symm.trans configured'
    rcases here with rfl | behind
    · rcases here' with rfl | behind'
      · rfl
      · exact absurd same.symm (path_ne_of_sortLinks behind')
    · rcases here' with rfl | behind'
      · exact absurd same (path_ne_of_sortLinks behind)
      · refine ih (fun s inside => ?_) (fun s inside => ?_) behind behind'
        · exact undotted s (List.mem_cons_of_mem _ inside)
        · exact undotted' s (List.mem_cons_of_mem _ inside)

end SortLinks

/-! ## Joins -/

/-- Relations that are joined for preloads or sorts only, and have the same path, are the same, if a
    preloaded one is sorted through from the root table. -/
theorem Link.Brought.unique {ctx : Context} {q : Query} {schema : Schema} {c : Compiled} {link link' : Link}
    (once : ∀ l l' : Link, l.Preloaded ctx q c → l'.Sorted ctx q schema c → ¬ Uses ctx q schema l.path →
      l.path = l'.path → l.base = l'.base)
    (brought : link.Brought ctx q schema c) (brought' : link'.Brought ctx q schema c)
    (same : link.path = link'.path) : link = link' := by
  -- A preloaded relation is registered, and a sort crosses it by the registered configuration.
  have mixed : ∀ {l l' : Link}, l.Preloaded ctx q c → l'.Sorted ctx q schema c →
      ¬ Uses ctx q schema l.path → l.path = l'.path → l = l' := by
    intro l l' preloaded sorted unused same
    have base := once l l' preloaded sorted unused same
    obtain ⟨sort, term, e, _, _, crosses⟩ := sorted
    have config := config_of_sortLinks crosses (same ▸ preloaded.known)
    exact Link.ext same base config.symm
  rcases brought.1 with preloaded | sorted
  · rcases brought'.1 with preloaded' | sorted'
    · have configs := preloaded'.known
      rw [← same, preloaded.known] at configs
      exact Link.ext same (preloaded.base.trans preloaded'.base.symm) (Option.some.inj configs)
    · exact mixed preloaded sorted' brought.2 same
  · rcases brought'.1 with preloaded' | sorted'
    · exact (mixed preloaded' sorted brought'.2 same.symm).symm
    · obtain ⟨sort, _, _, _, _, crosses⟩ := sorted
      obtain ⟨sort', _, _, _, _, crosses'⟩ := sorted'
      exact sortLinks_unique (Path.not_mem_segments sort.name) (Path.not_mem_segments sort'.name) crosses
        crosses' same

/-- A relation is joined by one clause, if a preloaded one is sorted through from the root table. -/
theorem Link.Joins.unique {ctx : Context} {q : Query} {schema : Schema} {c : Compiled} {link link' : Link}
    {clause clause' : JoinClause}
    (once : ∀ l l' : Link, l.Preloaded ctx q c → l'.Sorted ctx q schema c → ¬ Uses ctx q schema l.path →
      l.path = l'.path → l.base = l'.base)
    (joins : link.Joins ctx q schema c clause) (joins' : link'.Joins ctx q schema c clause')
    (same : link.path = link'.path) : clause = clause' := by
  cases joins with
  | used used written =>
    cases joins' with
    | used used' written' =>
      have configs := used'.known
      rw [← same, used.known] at configs
      have links : link = link' :=
        Link.ext same (used.base.trans used'.base.symm) (Option.some.inj configs)
      exact written'.unique (links ▸ written)
    | brought brought' written' => exact absurd (same ▸ used.uses) brought'.2
  | brought brought written =>
    cases joins' with
    | used used' written' => exact absurd (same ▸ used'.uses) brought.2
    | brought brought' written' =>
      have links := brought.unique once brought' same
      exact written'.unique (links ▸ written)

/-- No table is brought in twice if no joined relation leads to the root table or to a table twice,
    relations at different paths lead to different tables, and a relation that is preloaded and sorted
    through is crossed by the sort from the table that the preload joins it from, the root table. -/
theorem nodup_visible {ctx : Context} {strict : Bool} {q : Query} {subject : Subject}
    {table : Option String} {c : Compiled} {schema : Schema}
    (ok : (compileQuery ctx strict q subject table).result = .ok c)
    (described : ctx.schemaOf subject = .ok schema)
    (own : ∀ l : Link, l.Joined ctx q schema c → (c.table :: l.config.tables).Nodup)
    (apart : ∀ l l' : Link, l.Joined ctx q schema c → l'.Joined ctx q schema c → l.path ≠ l'.path →
      l.config.tables.Disjoint l'.config.tables)
    (once : ∀ l l' : Link, l.Preloaded ctx q c → l'.Sorted ctx q schema c → ¬ Uses ctx q schema l.path →
      l.path = l'.path → l.base = l'.base) : c.visible.Nodup := by
  obtain ⟨s, yields⟩ := compileQuery_eq_ok ok
  cases described.symm.trans yields.schema
  have single : ∀ clause ∈ c.joins, (c.table :: clause.map (·.table)).Nodup := by
    intro clause member
    obtain ⟨link, joins⟩ := yields.link_of_mem_joins member
    rw [joins.tables_eq]
    exact own link joins.joined
  have joined : (c.joins.flatten.map (·.table)).Nodup := by
    rw [List.map_flatten, List.nodup_flatten]
    constructor
    · intro tables member
      obtain ⟨clause, inJoins, rfl⟩ := List.mem_map.mp member
      exact (List.nodup_cons.mp (single clause inJoins)).2
    · rw [List.pairwise_map]
      refine yields.nodup_joins.pairwise_of_forall_ne ?_
      intro clause member clause' member' different
      obtain ⟨link, joins⟩ := yields.link_of_mem_joins member
      obtain ⟨link', joins'⟩ := yields.link_of_mem_joins member'
      rw [joins.tables_eq, joins'.tables_eq]
      apply apart link link' joins.joined joins'.joined
      exact fun same => different (joins.unique once joins' same)
  have root : c.table ∉ c.joins.flatten.map (·.table) := by
    intro member
    obtain ⟨j, inside, same⟩ := List.mem_map.mp member
    obtain ⟨clause, inJoins, inClause⟩ := List.mem_flatten.mp inside
    refine (List.nodup_cons.mp (single clause inJoins)).1 ?_
    rw [← same]
    exact List.mem_map.mpr ⟨j, inClause, rfl⟩
  exact joined.append (List.nodup_singleton _) (List.disjoint_singleton.mpr root)

theorem nodup_visible_loans :
    ∃ c, (compileQuery Books.borrowing true Books.borrowed (.entity "Loan") none).result = .ok c ∧
      c.visible = ["book", "author", "note", "loan"] ∧ c.visible.Nodup := by
  obtain ⟨c, ok, root, tables⟩ : ∃ c,
      (compileQuery Books.borrowing true Books.borrowed (.entity "Loan") none).result = .ok c ∧
      c.table = "loan" ∧ c.visible = ["book", "author", "note", "loan"] := ⟨_, rfl, rfl, rfl⟩
  have joined : ∀ l : Link, l.Joined Books.borrowing Books.borrowed Books.loan c →
      l.path = "Book" ∧ l.config.tables = ["book"] ∨ l.path = "Book.Author" ∧ l.config.tables = ["author"] ∨
        l.path = "Remarks" ∧ l.config.tables = ["note"] := by
    rintro l (used | brought)
    · have path := Books.uses_borrowed.mp used.uses
      have known := used.known
      rw [path] at known
      rw [← Option.some.inj known]
      exact .inl ⟨path, rfl⟩
    · exact .inr (Books.brought_borrowed root brought).1
  refine ⟨c, ok, tables, nodup_visible ok rfl ?_ ?_ ?_⟩
  · intro l isJoined
    rw [root]
    rcases joined l isJoined with ⟨_, tables⟩ | ⟨_, tables⟩ | ⟨_, tables⟩
    all_goals
      rw [tables]
      decide
  · intro l l' isJoined isJoined' different
    rcases joined l isJoined with ⟨path, tables⟩ | ⟨path, tables⟩ | ⟨path, tables⟩
    all_goals
      rcases joined l' isJoined' with ⟨path', tables'⟩ | ⟨path', tables'⟩ | ⟨path', tables'⟩
      all_goals simp [path, path', tables, tables'] at different ⊢
  · rintro l l' preloaded ⟨sort, term, e, paired, _, crosses⟩ _ _
    -- The sorts cross one relation each.
    have inside : sort ∈ Books.borrowed.sorts := (List.of_mem_zip paired).1
    have base : l'.base = c.table := by
      simp only [Books.borrowed, List.mem_cons, List.not_mem_nil, or_false] at inside
      rcases inside with rfl | rfl | rfl
      all_goals rw [List.mem_singleton.mp crosses]
    rw [preloaded.base, base]

namespace Books

/-- A volume of a series, with the volume before it. -/
def volume : Schema :=
  { entity := "Volume", table := "volume"
    fields := [{ name := "Title", column := "title" },
      { name := "Prequel", column := "Prequel", relation := .direct, target := some "Volume"
        targetTable := some "volume" }] }

def series : Context := { context with schemaOf := fun _ => .ok volume }

end Books

/-- The volumes before the volumes of a series are joined under the name of these. -/
theorem visible_repeats_volumes :
    ∃ c, (compileQuery Books.series true { sorts := [⟨"Prequel.Title", .ascending⟩] } (.entity "Volume")
        none).result = .ok c ∧
      c.visible = ["volume", "volume"] ∧ ¬ c.visible.Nodup :=
  ⟨_, rfl, rfl, by decide +kernel⟩

/-- The authors of lent books are joined from the loan for a preload and from the book for a sort, although
    loans, books and authors have different tables. -/
theorem visible_repeats_authors :
    ∃ c, (compileQuery Books.borrowing true
        { preloads := ["Book.Author"], sorts := [⟨"Book.Author.Name", .ascending⟩] } (.entity "Loan")
        none).result = .ok c ∧
      c.joins.flatten.map (fun j => (j.table, j.left)) =
        [("author", .of "loan" "AuthorID"), ("book", .of "loan" "BookID"), ("author", .of "book" "AuthorID")] ∧
      ¬ c.visible.Nodup :=
  ⟨_, rfl, by decide +kernel, by decide +kernel⟩

end RowQuery.Compile
