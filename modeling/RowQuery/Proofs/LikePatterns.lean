import RowQuery.Proofs.FilterPrinting
import RowQuery.Proofs.StandardForm

/-!
# Exact matches in all languages

In a pattern `%` stands for any characters, `_` for any one, and a backslash takes its meaning from the
character behind it. The pattern of an escaped text is matched by that text alone, so a search through
the texts of a language map for an escaped pattern is a search for a text that is equal.

`holds_anyLanguage` says this of the conditions that are written for a translated column in all
languages: equal, not equal, and one of several.
-/

namespace RowQuery.Sql

/-- Whether a text matches a pattern. A backslash that the pattern ends in stands for itself. -/
def likeMatches : List Char → List Char → Bool
  | [], text => text.isEmpty
  | '%' :: pattern, text => text.tails.any (likeMatches pattern)
  | '_' :: pattern, text => !text.isEmpty && likeMatches pattern text.tail
  | '\\' :: c :: pattern, text => text.head? == some c && likeMatches pattern text.tail
  | c :: pattern, text => text.head? == some c && likeMatches pattern text.tail

/-- A character that has been escaped where it has a meaning of its own stands for itself. -/
theorem likeMatches_escaped (c : Char) (pattern text : List Char) :
    likeMatches ((if c = '\\' || c = '%' || c = '_' then ['\\', c] else [c]) ++ pattern) text =
      (text.head? == some c && likeMatches pattern text.tail) := by
  by_cases backslash : c = '\\'
  · simp [backslash, likeMatches]
  · by_cases percent : c = '%'
    · simp [percent, likeMatches]
    · by_cases underscore : c = '_'
      · simp [underscore, likeMatches]
      · simp [backslash, percent, underscore, likeMatches]

/-- The pattern of an escaped text is matched by that text and no other. -/
theorem likeMatches_escapeLike (value : String) (text : List Char) :
    likeMatches (escapeLike value).toList text = true ↔ text = value.toList := by
  rw [escapeLike, String.toList_ofList]
  induction value.toList generalizing text with
  | nil => simp [likeMatches]
  | cons c cs ih =>
    rw [List.flatMap_cons, likeMatches_escaped, Bool.and_eq_true, beq_iff_eq, ih]
    cases text <;> simp

variable {δ : Type}

/-- The engine that searches a language map for a text that matches a pattern. The languages of a map
    and their texts are given by `entries`. -/
def Engine.searching (E : Engine δ) (entries : δ → List (String × String)) : Engine δ :=
  { E with someLanguage := fun y pattern =>
      (entries y).any fun entry => likeMatches pattern.toList entry.2.toList }

/-- A search for an escaped text finds exactly the texts that are equal to it. -/
theorem Engine.searching_escapeLike (E : Engine δ) (entries : δ → List (String × String)) (y : δ)
    (value : String) :
    (E.searching entries).someLanguage y (escapeLike value) = true ↔
      ∃ entry ∈ entries y, entry.2 = value := by
  simp only [Engine.searching, List.any_eq_true, likeMatches_escapeLike, String.toList_inj]

end RowQuery.Sql

namespace RowQuery

open RowQuery.Sql RowQuery.Schema

namespace Compile

variable {δ : Type}

/-- The condition that some text of a column is equal to a value. -/
def isText (c : Column) (value : String) : Predicate := .anyLanguage c true (escapeLike value)

/-- A condition that some text is equal to one of several values is read as it was written. -/
theorem read_isText {c : Column} (plain : c.Plain) (d : Dialect) (first : String) (others : List String) :
    read ((Predicate.group (.anyOf (isText c first) (others.map (isText c)))).text d)
      (Predicate.group (.anyOf (isText c first) (others.map (isText c)))).args =
        some (.group (.anyOf (isText c first) (others.map (isText c)))) := by
  have each : ∀ q ∈ isText c first :: others.map (isText c), ∃ v, q = isText c v := by
    intro q member
    rcases List.mem_cons.mp member with rfl | member
    · exact ⟨first, rfl⟩
    · obtain ⟨v, -, rfl⟩ := List.mem_map.mp member
      exact ⟨v, rfl⟩
  apply read_text
  · intro c' member
    rw [Predicate.columns, columns_anyOf, List.mem_flatMap] at member
    obtain ⟨q, inside, member⟩ := member
    obtain ⟨v, rfl⟩ := each q inside
    cases List.mem_singleton.mp member
    exact plain
  · apply Predicate.standard_anyOf
    intro q inside
    obtain ⟨v, rfl⟩ := each q inside
    exact ⟨rfl, trivial⟩

/-- One of the values is the text of some language. -/
theorem holds_isText_iff {E : Engine δ} {entries : δ → List (String × String)} {db : Database δ}
    {scopes : Scopes δ} {c : Column} {y : δ} (there : c.value scopes = some y) (first : String)
    (others : List String) :
    (Predicate.group (.anyOf (isText c first) (others.map (isText c)))).Holds (E.searching entries) db scopes ↔
      ∃ entry ∈ entries y, entry.2 ∈ first :: others := by
  have one (v : String) : (isText c v).Holds (E.searching entries) db scopes ↔
      ∃ entry ∈ entries y, entry.2 = v := by
    simp [isText, there, Engine.searching_escapeLike]
  rw [holds_group, holds_anyOf, ← List.map_cons]
  constructor
  · rintro ⟨q, member, holds⟩
    obtain ⟨v, listed, rfl⟩ := List.mem_map.mp member
    obtain ⟨entry, inside, rfl⟩ := (one v).mp holds
    exact ⟨entry, inside, listed⟩
  · rintro ⟨entry, inside, listed⟩
    exact ⟨_, List.mem_map.mpr ⟨entry.2, listed, rfl⟩, (one _).mpr ⟨entry, inside, rfl⟩⟩

section Localizer

variable {tr : Localizer} {d : Dialect} {flt : Filter}

theorem column_of_known (known : Dialect.resolve tr.settings tr.dialect = .ok d) (f : Field)
    (table : Option String) : tr.column f table = .ok { table, name := f.column } := by
  simp only [Localizer.column, known]
  rfl

/-- The condition of a filter by one value, which is escaped. -/
theorem anyLanguage_of_value (known : Dialect.resolve tr.settings tr.dialect = .ok d)
    (operation : flt.operation = .equal ∨ flt.operation = .notEqual)
    (value : flt.isNullTest = false) (f : Field) (table : Option String) :
    tr.anyLanguage f table flt = .ok (.anyLanguage { table, name := f.column }
      (flt.operation = .equal) (escapeLike flt.value)) := by
  have word : isNullWord flt.value = false := by
    rcases operation with operation | operation <;> simpa [Filter.isNullTest, operation] using value
  rcases operation with operation | operation <;>
    simp [Localizer.anyLanguage, column_of_known known, operation, word]

/-- The condition of a filter by a list, whose elements are escaped one by one. -/
theorem anyLanguage_of_list (known : Dialect.resolve tr.settings tr.dialect = .ok d)
    (list : flt.operation.isList = true) {first : String} {others : List String}
    (values : flt.rawValues = first :: others) (f : Field) (table : Option String) :
    tr.anyLanguage f table flt = .ok (.group (.anyOf (isText { table, name := f.column } first)
      (others.map (isText { table, name := f.column })))) := by
  have operation : flt.operation = .oneOf ∨ flt.operation = .oneOfAlt := by
    cases operation : flt.operation <;> simp [operation, Operation.isList, Operation.separator?] at list ⊢
  rcases operation with operation | operation <;>
    simp [Localizer.anyLanguage, column_of_known known, operation, values, isText] <;> rfl

/-- A filter on a translated column in all languages, by a value that is not the word for a missing
    one, becomes a condition, and its text and values are read as this condition. At a row where the
    column has a language map it holds for `equal` if some text of the map is the value, for `notEqual`
    if none is, and for a list if some text is one of its elements. -/
theorem holds_anyLanguage (known : Dialect.resolve tr.settings tr.dialect = .ok d)
    (operation : flt.operation = .equal ∨ flt.operation = .notEqual ∨ flt.operation.isList = true)
    (value : flt.isNullTest = false) (f : Field) (table : Option String) :
    ∃ p, tr.anyLanguage f table flt = .ok p ∧ read (p.text d) p.args = some p ∧
      ∀ {δ : Type} (E : Engine δ) (entries : δ → List (String × String)) (db : Database δ)
        (scopes : Scopes δ) (y : δ), Column.value scopes { table, name := f.column } = some y →
        (flt.operation = .equal →
          (p.Holds (E.searching entries) db scopes ↔ ∃ entry ∈ entries y, entry.2 = flt.value)) ∧
        (flt.operation = .notEqual →
          (p.Holds (E.searching entries) db scopes ↔ ∀ entry ∈ entries y, entry.2 ≠ flt.value)) ∧
        ∀ sep, flt.operation.separator? = some sep →
          (p.Holds (E.searching entries) db scopes ↔
            ∃ entry ∈ entries y, entry.2.toList ∈ flt.value.toList.splitOn sep) := by
  have plain : Column.Plain { table, name := f.column } := Column.plain_of_quoted rfl
  by_cases list : flt.operation.isList = true
  · obtain ⟨first, others, values⟩ := List.exists_cons_of_ne_nil flt.rawValues_ne_nil
    refine ⟨_, anyLanguage_of_list known list values f table, read_isText plain d first others, ?_⟩
    intro δ E entries db scopes y there
    refine ⟨?_, ?_, ?_⟩
    · intro equal
      rw [equal] at list
      cases list
    · intro notEqual
      rw [notEqual] at list
      cases list
    · intro sep separator
      rw [holds_isText_iff there, ← values]
      simp only [Filter.rawValues, Operation.mem_elements separator]
  · have single : flt.operation = .equal ∨ flt.operation = .notEqual := by
      simpa [list] using operation
    refine ⟨_, anyLanguage_of_value known single value f table, read_text d ?_ trivial, ?_⟩
    · intro c member
      cases List.mem_singleton.mp member
      exact plain
    · intro δ E entries db scopes y there
      refine ⟨?_, ?_, ?_⟩
      · intro equal
        simp [equal, there, Engine.searching_escapeLike]
      · intro notEqual
        simp only [notEqual, holds_noLanguage, there, reduceCtorEq, decide_false, Option.some.injEq,
          forall_eq', ← Bool.not_eq_true, Engine.searching_escapeLike, not_exists, not_and, ne_eq]
      · intro sep separator
        simp [Operation.isList, separator] at list

end Localizer

/-- Values that are language maps. -/
def Titles.engine : Engine (List (String × String)) where
  equal x y := x == y
  equal_comm _ _ := BEq.comm
  text s := [("", s)]
  compare _ _ _ := false
  jsonText _ _ := none
  language m code := (m.lookup code).map fun text => [(code, text)]
  someLanguage _ _ := false

/-- Titles are translated. -/
def Titles.localizer : Localizer := { settings := {} }

/-- A translated field. -/
def Titles.title : Field := { name := "Title", column := "title", kind := some .json, translated := true }

/-- A list of two titles, one of them with a wildcard and a backslash. -/
def Titles.filter : Filter := ⟨"Title", .oneOf, "new|50%\\_"⟩

/-- The row of a book with its titles. -/
def Titles.book (titles : List (String × String)) : Scopes (List (String × String)) :=
  [("book", fun column => if column = "title" then some titles else none)]

/-- The title that is an element of the list is found, and one that its wildcard would stand for is not. -/
theorem holds_anyLanguage_titles :
    ∃ p, Titles.localizer.anyLanguage Titles.title (some "book") Titles.filter = .ok p ∧
      p.Holds (Titles.engine.searching id) (fun _ => [])
        (Titles.book [("en", "5000\\_"), ("de", "50%\\_")]) ∧
      ¬ p.Holds (Titles.engine.searching id) (fun _ => []) (Titles.book [("en", "5000\\_")]) := by
  have known : Dialect.resolve Titles.localizer.settings Titles.localizer.dialect = .ok .mysql := rfl
  have value : Titles.filter.isNullTest = false := rfl
  obtain ⟨p, ok, -, holds⟩ := holds_anyLanguage known (.inr (.inr rfl)) value Titles.title (some "book")
  have found (titles : List (String × String)) :=
    (holds Titles.engine id (fun _ => []) (Titles.book titles) titles rfl).2.2 '|' rfl
  refine ⟨p, ok, ?_, ?_⟩
  · rw [found]
    exact ⟨("de", "50%\\_"), by simp, by decide⟩
  · rw [found]
    decide

end Compile

end RowQuery
