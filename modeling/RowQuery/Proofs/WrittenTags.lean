import RowQuery.Join.Tag
import RowQuery.Proofs.FilterPrinting
import RowQuery.Proofs.OwnerRestriction
import RowQuery.Proofs.RegistryHistory

/-!
# Tags for configurations

Every valid configuration has tags that are read as it, and the words, their case and the order of the pairs are free. A
tag of a configuration names its relationship and gives each of its entries once: the table, the join type and the keys
of its group. All entries are then there before the conventions are asked for the missing ones, so neither the field
that carries the tag nor the table that it is seen from has a part in what is read.
-/

namespace RowQuery.Text

/-- A text that can stand as an entry of a tag: it is there, has no blanks around it and has no commas. -/
structure IsEntry (s : String) : Prop where
  trimmed : trim s = s
  there : s ≠ ""
  free : ',' ∉ s.toList

/-- A text that is there and has neither blanks nor the marks of a tag. -/
def IsSolid (s : String) : Prop := s ≠ "" ∧ ∀ c ∈ s.toList, isBlank c = false ∧ c ≠ ',' ∧ c ≠ ':'

instance (s : String) : Decidable (IsSolid s) :=
  decidable_of_iff ((s != "" && s.toList.all fun c => !isBlank c && c != ',' && c != ':') = true)
    (by simp [IsSolid, and_assoc])

namespace IsSolid

variable {s : String}

theorem isEntry (solid : IsSolid s) : IsEntry s where
  there := solid.1
  free := fun comma => (solid.2 _ comma).2.1 rfl
  trimmed := by
    rw [trim, trimChars_of_ends, String.ofList_toList]
    · intro c first
      exact (solid.2 c (List.mem_of_mem_head? first)).1
    · intro c last
      exact (solid.2 c (List.mem_of_mem_getLast? last)).1

/-- A text is solid if its form in another case is, for blanks and marks have no case. -/
theorem of_map {f : Char → Char} (caseless : ∀ c, isBlank c = true ∨ c = ',' ∨ c = ':' → f c = c)
    (solid : IsSolid (String.ofList (s.toList.map f))) : IsSolid s := by
  obtain ⟨there, each⟩ := solid
  constructor
  · rintro rfl
    exact there rfl
  · intro c member
    by_cases mark : isBlank c = true ∨ c = ',' ∨ c = ':'
    · have kept : c ∈ (String.ofList (s.toList.map f)).toList := by
        rw [String.toList_ofList, List.mem_map]
        exact ⟨c, member, caseless c mark⟩
      exact each c kept
    · simpa [not_or] using mark

end IsSolid

theorem caseless {c : Char} (mark : isBlank c = true ∨ c = ',' ∨ c = ':') : small c = c ∧ capital c = c := by
  have notKelvin : c ≠ '\u212A' := by rintro rfl; revert mark; decide
  have notDotless : c ≠ '\u0131' := by rintro rfl; revert mark; decide
  have notLong : c ≠ '\u017F' := by rintro rfl; revert mark; decide
  have codes : ¬(65 ≤ c.toNat ∧ c.toNat ≤ 90) ∧ ¬(97 ≤ c.toNat ∧ c.toNat ≤ 122) := by
    rcases mark with blank | rfl | rfl
    · simp only [isBlank, Bool.or_eq_true, Bool.and_eq_true, decide_eq_true_eq, beq_iff_eq] at blank
      omega
    · decide
    · decide
  have notCapital : ¬(c.val ≥ 'A'.val ∧ c.val ≤ 'Z'.val) := codes.1
  have notSmall : ¬(c.val ≥ 'a'.val ∧ c.val ≤ 'z'.val) := codes.2
  constructor
  · rw [small, if_neg notKelvin]
    exact dif_neg notCapital
  · rw [capital, if_neg notDotless, if_neg notLong]
    exact dif_neg notSmall

/-- A pair is cut at its first colon. -/
theorem cut?_append {word : String} (free : ':' ∉ word.toList) (text : String) :
    cut? ':' (word ++ ":" ++ text) = some (word, text) := by
  have chars : (word ++ ":" ++ text).toList = word.toList ++ ':' :: text.toList := by simp
  have before : ∀ c ∈ word.toList, (c != ':') = true := by
    intro c member
    simpa using fun same : c = ':' => free (same ▸ member)
  rw [cut?, chars, List.span_eq_takeWhile_dropWhile, List.takeWhile_append_of_pos before,
    List.dropWhile_append_of_pos before]
  simp

/-- A pair of a word and a text is an entry of a tag. -/
theorem isEntry_pair {word text : String} (solid : IsSolid word) (entry : IsEntry text) :
    IsEntry (word ++ ":" ++ text) := by
  have chars : (word ++ ":" ++ text).toList = word.toList ++ ':' :: text.toList := by simp
  have texts : trimChars text.toList = text.toList := by
    simpa [trim] using congrArg String.toList entry.trimmed
  constructor
  · rw [trim, chars, trimChars_of_ends, ← chars, String.ofList_toList]
    · intro c first
      obtain ⟨d, ds, start⟩ := List.exists_cons_of_ne_nil (mt String.toList_eq_nil_iff.mp solid.1)
      rw [start] at first
      cases first
      exact (solid.2 c (by simp [start])).1
    · intro c last
      have ends : text.toList.getLast? = some c := by
        obtain ⟨ds, d, finish⟩ := (List.eq_nil_or_concat' text.toList).resolve_left
          (mt String.toList_eq_nil_iff.mp entry.there)
        rw [finish, ← List.cons_append, ← List.append_assoc, List.getLast?_concat] at last
        rw [finish, List.getLast?_concat, last]
      rw [← texts] at ends
      exact isBlank_of_trimChars ends
  · simp [String.append_eq_empty_iff]
  · have inWord : ',' ∉ word.toList := solid.isEntry.free
    simp [chars, inWord, entry.free]

end RowQuery.Text

namespace RowQuery

/-- The words for a relationship, in small letters. -/
def RelationType.spellings : RelationType → List String
  | .oneToOne => ["one2one", "onetoone"]
  | .oneToMany => ["one2many", "onetomany"]
  | .manyToMany => ["many2many", "manytomany"]
  | .polymorphic => ["polymorphic"]

/-- The words for a key. -/
def JoinKey.spellings : JoinKey → List String
  | .localKey => ["local_key"]
  | .foreignKey => ["foreign_key"]
  | .pivotTable => ["pivot_table", "through"]
  | .pivotLocalKey => ["pivot_local_key", "local_key_through"]
  | .pivotForeignKey => ["pivot_foreign_key", "foreign_key_through"]
  | .polymorphicId => ["polymorphic_id", "id"]
  | .polymorphicType => ["polymorphic_type", "type"]
  | .polymorphicValue => ["polymorphic_value", "value"]

/-- The words for a join type, in capitals. -/
def JoinType.spellings : JoinType → List String
  | .inner => ["INNER", "INNER_JOIN"]
  | .left => ["LEFT", "LEFT_JOIN"]
  | .right => ["RIGHT", "RIGHT_JOIN"]

end RowQuery

namespace RowQuery.Join

open RowQuery.Text RowQuery.Schema

theorem lookup_relationshipWords {word : String} {type : RelationType} (spelled : word ∈ type.spellings) :
    relationshipWords.lookup word = some type := by
  revert word
  cases type <;> decide

theorem lookup_keyWords {word : String} {key : JoinKey} (spelled : word ∈ key.spellings) :
    keyWords.lookup word = some key ∧ word ≠ "join_type" ∧ word ≠ "table" := by
  revert word
  cases key <;> decide

theorem lookup_joinTypeWords {word : String} {type : JoinType} (spelled : word ∈ type.spellings) :
    joinTypeWords.lookup word = some type := by
  revert word
  cases type <;> decide

theorem isSolid_relationship {word : String} {type : RelationType} (spelled : toSmalls word ∈ type.spellings) :
    IsSolid word := by
  have spellings : ∀ word ∈ type.spellings, IsSolid word := by cases type <;> decide
  exact .of_map (fun _ mark => (caseless mark).1) (spellings _ spelled)

theorem isSolid_joinType {word : String} {type : JoinType} (spelled : toCapitals word ∈ type.spellings) :
    IsSolid word := by
  have spellings : ∀ word ∈ type.spellings, IsSolid word := by cases type <;> decide
  exact .of_map (fun _ mark => (caseless mark).2) (spellings _ spelled)

theorem isSolid_key {word : String} {key : JoinKey} (spelled : word ∈ key.spellings) : IsSolid word := by
  revert word
  cases key <;> decide

/-! ## Tags of a configuration -/

/-- What a pair of a tag gives. -/
inductive TagEntry where
  | table
  | joinType
  | key (key : JoinKey)
  deriving DecidableEq, Repr

/-- The entries of a configuration: its table, its join type and the keys of its group. -/
def Config.entries (c : Config) : List TagEntry := .table :: .joinType :: c.type.group.keys.map .key

/-- The pairs that give an entry of a configuration. The case of the join type does not matter. -/
inductive TagEntry.Spelled (c : Config) : TagEntry → String → Prop where
  | table : Spelled c .table ("table" ++ ":" ++ c.table)
  | joinType {word : String} (spelled : toCapitals word ∈ c.joinType.spellings) :
      Spelled c .joinType ("join_type" ++ ":" ++ word)
  | key {key : JoinKey} {word text : String} (spelled : word ∈ key.spellings) (given : c.keys.get key = some text) :
      Spelled c (.key key) (word ++ ":" ++ text)

/-- A tag of a configuration: a word for its relationship, in any case, and a pair for each of its entries, in any
    order. -/
inductive Config.Written (c : Config) : String → Prop where
  | intro {word : String} {entries : List TagEntry} {pairs : List String}
      (relationship : toSmalls word ∈ c.type.spellings) (order : entries.Perm c.entries)
      (spelled : List.Forall₂ (TagEntry.Spelled c) entries pairs) : Written c (",".intercalate (word :: pairs))

/-- A configuration whose texts can all stand in a tag. -/
structure Config.Writable (c : Config) : Prop where
  table : IsEntry c.table
  keys : ∀ key text, c.keys.get key = some text → IsEntry text

/-! ## Reading the pairs -/

namespace Keys

theorem get_set (k : Keys) (key other : JoinKey) (s : String) :
    (k.set key s).get other = if other = key then some s else k.get other := by
  cases key <;> cases other <;> rfl

theorem ext_get {k k' : Keys} (same : ∀ key, k.get key = k'.get key) : k = k' := by
  cases k
  cases k'
  simp only [Keys.mk.injEq]
  exact ⟨same .localKey, same .foreignKey, same .pivotTable, same .pivotLocalKey, same .pivotForeignKey,
    same .polymorphicId, same .polymorphicType, same .polymorphicValue⟩

/-- A key that is there keeps its text. -/
theorem setDefault_of_isSome {k : Keys} {key : JoinKey} (there : (k.get key).isSome = true) (s : String) :
    k.setDefault key s = k := if_pos there

end Keys

/-- What has been read of a configuration after some of its entries. -/
structure TagParts.Given (c : Config) (entries : List TagEntry) (parts : TagParts) : Prop where
  table : parts.table = if .table ∈ entries then some c.table else none
  joinType : parts.joinType = if .joinType ∈ entries then some c.joinType else none
  keys : ∀ key, parts.keys.get key = if .key key ∈ entries then c.keys.get key else none

namespace TagParts

variable {c : Config} {entries : List TagEntry} {parts : TagParts}

theorem add_pair {word text : String} (solid : IsSolid word) (entry : IsEntry text) (parts : TagParts) :
    parts.add (word ++ ":" ++ text) =
      if word == "join_type" then
        { parts with joinType := some ((joinTypeWords.lookup (toCapitals text)).getD .left) }
      else if word == "table" then { parts with table := some text }
      else (keyWords.lookup word).elim parts fun key => { parts with keys := parts.keys.set key text } := by
  have colon : ':' ∉ word.toList := fun inside => (solid.2 _ inside).2.2 rfl
  simp only [add, cut?_append colon, solid.isEntry.trimmed, entry.trimmed]
  cases keyWords.lookup word <;> rfl

/-- One pair adds its entry to what has been read. -/
theorem Given.add (given : Given c entries parts) (writable : c.Writable) {entry : TagEntry} {pair : String}
    (spelled : entry.Spelled c pair) : Given c (entries ++ [entry]) (parts.add pair) := by
  cases spelled with
  | table =>
    rw [add_pair (by decide) writable.table]
    constructor
    · simp
    · simp [given.joinType]
    · simp [given.keys]
  | @joinType word spelled =>
    rw [add_pair (by decide) (isSolid_joinType spelled).isEntry, lookup_joinTypeWords spelled]
    constructor
    · simp [given.table]
    · simp
    · simp [given.keys]
  | @key key word text spelled value =>
    obtain ⟨known, notJoinType, notTable⟩ := lookup_keyWords spelled
    rw [add_pair (isSolid_key spelled) (writable.keys key text value), known]
    simp only [beq_iff_eq, notJoinType, notTable, if_false, Option.elim_some]
    constructor
    · simp [given.table]
    · simp [given.joinType]
    · intro other
      by_cases same : other = key
      · subst same
        simp [Keys.get_set, value]
      · simp [Keys.get_set, given.keys, same]

/-- The pairs add their entries one after the other. -/
theorem Given.foldl (given : Given c entries parts) (writable : c.Writable) {further : List TagEntry}
    {pairs : List String} (spelled : List.Forall₂ (TagEntry.Spelled c) further pairs) :
    Given c (entries ++ further) (pairs.foldl TagParts.add parts) := by
  induction spelled generalizing entries parts with
  | nil => simpa using given
  | cons first rest ih => simpa using ih (given.add writable first)

/-- Once all entries have been read, the parts are those of the configuration. -/
theorem Given.eq (given : Given c entries parts) (order : entries.Perm c.entries) (complete : c.Complete)
    (writable : c.Writable) : parts = ⟨some c.table, some c.joinType, c.keys⟩ := by
  have keys : parts.keys = c.keys := by
    refine Keys.ext_get fun key => ?_
    rw [given.keys]
    split
    case isTrue => rfl
    case isFalse other =>
      have known : key ∈ Keys.all := by cases key <;> decide
      obtain ⟨group, _, inGroup⟩ := List.mem_flatMap.mp known
      have otherGroup : group ≠ c.type.group := by
        rintro rfl
        exact other (order.mem_iff.mpr (by simp [Config.entries, inGroup]))
      rcases complete.others group otherGroup key inGroup with missing | empty
      · exact missing.symm
      · exact absurd rfl (writable.keys key "" empty).there
  have table : parts.table = some c.table := by simp [given.table, order.mem_iff, Config.entries]
  have joinType : parts.joinType = some c.joinType := by simp [given.joinType, order.mem_iff, Config.entries]
  rw [← table, ← joinType, ← keys]

end TagParts

/-! ## Conventions -/

section Conventions

variable {settings : Settings} {type : RelationType} {keys : Keys}
  (there : ∀ key ∈ type.group.keys, (keys.get key).isSome = true)

include there

/-- Where all keys of a group are there, the conventions add none and replace none. -/
theorem conventionalKeys_of_isSome (names : Compile.NamesColumns settings) (table : String) (field : Option Field)
    (base : Option String) : conventionalKeys settings type table field base keys = .ok keys := by
  obtain ⟨_, ⟨suffix, isSuffix⟩, ⟨typeSuffix, isType⟩⟩ := names
  have keyed : ∀ stem, settings.keyColumn (.text stem) = .ok (stem ++ suffix) :=
    fun stem => Compile.append_eq_ok.mpr ⟨stem, suffix, rfl, isSuffix, rfl⟩
  have typed : ∀ stem, settings.typeColumn (.text stem) = .ok (stem ++ typeSuffix) :=
    fun stem => Compile.append_eq_ok.mpr ⟨stem, typeSuffix, rfl, isType, rfl⟩
  unfold conventionalKeys
  cases group : type.group with
  | direct =>
    rw [group] at there
    have foreignKey := Keys.setDefault_of_isSome (there .foreignKey (by decide))
    cases field with
    | none => rfl
    | some f =>
      simp only [keyed, foreignKey]
      rfl
  | pivot =>
    rw [group] at there
    have toBase := Keys.setDefault_of_isSome (there .pivotLocalKey (by decide))
    have toTable := Keys.setDefault_of_isSome (there .pivotForeignKey (by decide))
    simp only [keyed, toBase, pure_bind, toTable]
    cases nonEmpty? base <;> cases table == "" <;> rfl
  | polymorphic =>
    rw [group] at there
    have id := Keys.setDefault_of_isSome (there .polymorphicId (by decide))
    have type := Keys.setDefault_of_isSome (there .polymorphicType (by decide))
    have value := Keys.setDefault_of_isSome (there .polymorphicValue (by decide))
    simp only [keyed, typed, id, type, pure_bind, value]
    cases nonEmpty? (field.bind (·.polymorphic)) <;> cases nonEmpty? base <;> rfl

theorem ownKey_of_isSome : ownKey settings type keys = .ok keys := by
  unfold ownKey
  cases group : type.group with
  | direct =>
    rw [group] at there
    have localKey : keys.localKey.isSome = true := there .localKey (by decide)
    simp [Option.isNone_eq_false_iff.mpr localKey]
  | pivot | polymorphic => rfl

end Conventions

/-- A tag is split into its word and its pairs. -/
theorem parts_intercalate {parts : List String} (entries : ∀ part ∈ parts, IsEntry part) (some : parts ≠ []) :
    ((split ',' (",".intercalate parts)).map trim).filter (· != "") = parts := by
  have splits : split ',' (",".intercalate parts) = parts :=
    split_intercalate (fun part member => (entries part member).free) some
  have trims : parts.map trim = parts := by
    rw [List.map_congr_left fun part member => (entries part member).trimmed, List.map_id']
  rw [splits, trims, List.filter_eq_self]
  intro part member
  simpa using (entries part member).there

theorem TagEntry.Spelled.isEntry {c : Config} {entry : TagEntry} {pair : String} (spelled : entry.Spelled c pair)
    (writable : c.Writable) : IsEntry pair := by
  cases spelled with
  | table => exact isEntry_pair (by decide) writable.table
  | joinType spelled => exact isEntry_pair (by decide) (isSolid_joinType spelled).isEntry
  | key spelled value => exact isEntry_pair (isSolid_key spelled) (writable.keys _ _ value)

/-- Every entry of a complete configuration can be spelled. -/
theorem Config.Complete.exists_spelled {c : Config} (complete : c.Complete) {entry : TagEntry}
    (member : entry ∈ c.entries) : ∃ pair, entry.Spelled c pair := by
  cases entry with
  | table => exact ⟨_, .table⟩
  | joinType =>
    obtain ⟨word, spelled⟩ : ∃ word, toCapitals word ∈ c.joinType.spellings := by
      cases c.joinType
      · exact ⟨"INNER", by decide⟩
      · exact ⟨"LEFT", by decide⟩
      · exact ⟨"RIGHT", by decide⟩
    exact ⟨_, .joinType spelled⟩
  | key key =>
    obtain ⟨text, given, _⟩ := complete.own key (by simpa [entries] using member)
    have spelled : key.name ∈ key.spellings := by cases key <;> decide
    exact ⟨_, .key spelled given⟩

theorem Config.Complete.exists_written {c : Config} (complete : c.Complete) : ∃ tag, c.Written tag := by
  obtain ⟨pairs, spelled⟩ := exists_forall₂_iff.mpr fun _ => complete.exists_spelled
  obtain ⟨word, relationship⟩ : ∃ word, toSmalls word ∈ c.type.spellings := by
    cases c.type
    · exact ⟨"one2one", by decide⟩
    · exact ⟨"one2many", by decide⟩
    · exact ⟨"many2many", by decide⟩
    · exact ⟨"polymorphic", by decide⟩
  exact ⟨_, .intro relationship (.refl _) spelled⟩

theorem ofTag_eq {settings : Settings} (names : Compile.NamesColumns settings) {c : Config} (complete : c.Complete)
    (writable : c.Writable) {tag : String} (written : c.Written tag) (field : Option Field) (base : Option String) :
    Config.ofTag settings tag field base = .ok c := by
  obtain @⟨word, entries, pairs, relationship, order, spelled⟩ := written
  have parts : ∀ part ∈ word :: pairs, IsEntry part := by
    rw [List.forall_mem_cons]
    refine ⟨(isSolid_relationship relationship).isEntry, fun pair member => ?_⟩
    obtain ⟨entry, _, gives⟩ := exists_left_of_forall₂ spelled member
    exact gives.isEntry writable
  have start : TagParts.Given c [] {} := ⟨rfl, rfl, fun key => by cases key <;> rfl⟩
  have read : pairs.foldl TagParts.add {} = ⟨some c.table, some c.joinType, c.keys⟩ :=
    (start.foldl writable spelled).eq order complete writable
  have there : ∀ key ∈ c.type.group.keys, (c.keys.get key).isSome = true := by
    intro key member
    obtain ⟨text, given, _⟩ := complete.own key member
    rw [given]
    rfl
  have table : nonEmpty? (some c.table) = some c.table := by simp [nonEmpty?, Option.filter, complete.table]
  unfold Config.ofTag
  simp only [parts_intercalate parts (List.cons_ne_nil _ _), lookup_relationshipWords relationship, read, table,
    conventionalKeys_of_isSome there names]
  change Config.assemble settings c.type (some c.table) (some c.joinType) (ownKey settings c.type c.keys) = .ok c
  rw [ownKey_of_isSome there]
  exact Config.assemble_eq rfl c.type c.table c.keys

/-- A valid configuration has tags, and each of them is read as that configuration, on any field or none and seen from
    any table or none: what the tag says is neither replaced nor added to. The conventional names are made up even where
    no key is missing, so the settings have to name columns by texts, as all do that are read from an environment. -/
theorem ofTag_of_written {settings : Settings} (names : Compile.NamesColumns settings) {c : Config} {path : String}
    (valid : c.validate path = .ok ()) (writable : c.Writable) :
    (∃ tag, c.Written tag) ∧ ∀ (tag : String) (field : Option Field) (base : Option String), c.Written tag →
      Config.ofTag settings tag field base = .ok c := by
  have complete := Config.validate_iff_complete.mp valid
  exact ⟨complete.exists_written, fun _ field base written => ofTag_eq names complete writable written field base⟩

namespace Remarks

/-- A polymorphic relation none of whose names are conventional. -/
def config : Config :=
  { type := .polymorphic, table := "re:mark", joinType := .inner
    keys := { polymorphicId := "about:id", polymorphicType := "kind of", polymorphicValue := "Us er" } }

def tag : String := "PolyMorphic,value:Us er,join_type:Inner_Join,id:about:id,table:re:mark,polymorphic_type:kind of"

/-- A field by which the conventions would have it otherwise. -/
def field : Field :=
  { name := "Remarks", column := "Remarks", relation := .polymorphic, target := some "Remark"
    targetTable := some "remark", polymorphic := some "Owner" }

theorem written : config.Written tag := by
  have text : tag = ",".intercalate ("PolyMorphic" :: ["value" ++ ":" ++ "Us er", "join_type" ++ ":" ++ "Inner_Join",
      "id" ++ ":" ++ "about:id", "table" ++ ":" ++ config.table, "polymorphic_type" ++ ":" ++ "kind of"]) := by decide
  have order : [.key .polymorphicValue, .joinType, .key .polymorphicId, .table, .key .polymorphicType].Perm
      config.entries := by decide
  rw [text]
  exact .intro (by decide) order (.cons (.key (by decide) rfl) (.cons (.joinType (by decide))
    (.cons (.key (by decide) rfl) (.cons .table (.cons (.key (by decide) rfl) .nil)))))

theorem writable : config.Writable where
  table := ⟨by decide, by decide, by decide⟩
  keys := by
    intro key text given
    cases key <;> cases given <;> exact ⟨by decide, by decide, by decide⟩

end Remarks

theorem ofTag_of_written_remarks :
    Remarks.config.validate "" = .ok () ∧ Remarks.config.Written Remarks.tag ∧
      Config.ofTag {} Remarks.tag (some Remarks.field) (some "book") = .ok Remarks.config := by
  have names : Compile.NamesColumns {} := ⟨⟨_, rfl⟩, ⟨_, rfl⟩, ⟨_, rfl⟩⟩
  have valid : Remarks.config.validate "" = .ok () := rfl
  exact ⟨valid, Remarks.written,
    (ofTag_of_written names valid Remarks.writable).2 _ _ _ Remarks.written⟩

end RowQuery.Join
