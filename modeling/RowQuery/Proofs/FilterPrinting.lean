import Mathlib.Data.List.DropRight
import RowQuery.Proofs.FilterGrammar
import RowQuery.Proofs.SortText
import RowQuery.Proofs.TableNames

/-!
# Written filters that are read again

The text of a filter is its name, its token and its value, with nothing between them. Filters that were read are
written as a text that is read as the same filters, unless a token of one character stands before a value that starts
with an operator character: then the two run into a token of two characters, which is another one or none at all.
Such a value is read where a blank stands before it, but the blank is not written.
-/

namespace RowQuery.Text

/-! ## Trimming -/

theorem trimChars_eq (cs : List Char) : trimChars cs = (cs.dropWhile isBlank).rdropWhile isBlank := rfl

theorem mem_of_mem_trimChars {c : Char} {cs : List Char} (member : c ∈ trimChars cs) : c ∈ cs := by
  rw [trimChars_eq] at member
  exact (List.dropWhile_sublist isBlank).mem ((List.rdropWhile_prefix isBlank _).mem member)

/-- A trimmed text does not start with a blank. -/
theorem isBlank_of_head?_trimChars {cs : List Char} {c : Char} (first : (trimChars cs).head? = some c) :
    isBlank c = false := by
  rw [trimChars_eq] at first
  obtain ⟨rest, same⟩ := List.rdropWhile_prefix isBlank (cs.dropWhile isBlank)
  have head : (cs.dropWhile isBlank).head? = some c := by
    rw [← same, List.head?_append, first]
    rfl
  have notBlank := List.head?_dropWhile_not isBlank cs
  rw [head] at notBlank
  simpa using notBlank

/-- A text that neither starts nor ends with a blank is trimmed. -/
theorem trimChars_of_ends {cs : List Char} (first : ∀ c ∈ cs.head?, isBlank c = false)
    (last : ∀ c ∈ cs.getLast?, isBlank c = false) : trimChars cs = cs := by
  have start : cs.dropWhile isBlank = cs := by
    cases cs with
    | nil => rfl
    | cons c cs => simp [first c rfl]
  rw [trimChars_eq, start, List.rdropWhile_eq_self_iff]
  intro some
  simp [last _ (List.getLast?_eq_some_getLast some)]

theorem trimChars_trimChars (cs : List Char) : trimChars (trimChars cs) = trimChars cs :=
  trimChars_of_ends (fun _ first => isBlank_of_head?_trimChars first) fun _ last => isBlank_of_trimChars last

/-! ## Splitting -/

/-- Texts without separators are found again between separators. -/
theorem split_intercalate {sep : Char} {parts : List String} (free : ∀ part ∈ parts, sep ∉ part.toList)
    (some : parts ≠ []) : split sep ((String.singleton sep).intercalate parts) = parts := by
  have chars : ([sep].intercalate (parts.map String.toList)).splitOn sep = parts.map String.toList :=
    List.splitOn_intercalate sep (by simpa using free) (by simpa using some)
  simp only [split, splitChars_eq_splitOn, String.toList_intercalate, String.toList_singleton, chars, List.map_map]
  simp [Function.comp_def]

end RowQuery.Text

namespace RowQuery.Filter

open RowQuery.Text Operation

/-! ## One filter -/

/-- What holds of every filter that was read: the name and the value are trimmed and not empty, and the name is a path
    without operator characters. -/
structure Readable (f : Filter) : Prop where
  name : trimChars f.name.toList = f.name.toList
  value : trimChars f.value.toList = f.value.toList
  named : f.name ≠ ""
  valued : f.value ≠ ""
  plain : ∀ c ∈ f.name.toList, isTokenChar c = false
  accepted : isPathText f.name = true

/-- The token of a filter runs into its value: it has one character, and the value starts with an operator character. -/
def RunsOn (f : Filter) : Prop := f.operation.token.length = 1 ∧ ∃ c ∈ f.value.toList.head?, isTokenChar c = true

instance (f : Filter) : Decidable f.RunsOn :=
  inferInstanceAs (Decidable (_ ∧ ∃ c ∈ f.value.toList.head?, isTokenChar c = true))

theorem readable_of_written {cs : List Char} {f : Filter} (written : Written cs f) : f.Readable := by
  obtain ⟨-, ⟨before, after, divided, name, value⟩, named, valued, accepted⟩ := written
  refine ⟨?_, ?_, named, valued, ?_, ((ofDraft_draft f).mp accepted).1⟩
  · rw [name, String.toList_ofList, trimChars_trimChars]
  · rw [value, String.toList_ofList, trimChars_trimChars]
  · intro c member
    rw [name, String.toList_ofList] at member
    exact divided.before c (mem_of_mem_trimChars member)

/-- The characters of a filter that was read are those of its text. -/
theorem mem_of_written {cs : List Char} {f : Filter} (written : Written cs f) {c : Char}
    (member : c ∈ f.text.toList) : c ∈ cs := by
  obtain ⟨before, after, divided, name, value⟩ := written.parts
  rw [divided.text]
  simp only [text, String.toList_append, String.toList_ofList, List.mem_append, name, value] at member ⊢
  rcases member with (inName | inToken) | inValue
  · exact .inl (mem_of_mem_trimChars inName)
  · exact .inr (.inl inToken)
  · exact .inr (.inr (mem_of_mem_trimChars inValue))

theorem length_token (op : Operation) : op.token.length = 1 ∨ op.token.length = 2 := by
  cases op <;> decide

theorem toList_text (f : Filter) : f.text.toList = f.name.toList ++ (f.operation.token ++ f.value.toList) := by
  simp [text]

section Readable

variable {f : Filter} (readable : f.Readable)

include readable

/-- The text of a filter starts as its name does and ends as its value does. -/
theorem Readable.trimChars_text : trimChars f.text.toList = f.text.toList := by
  rw [toList_text]
  have noName : f.name.toList ≠ [] := by simpa using readable.named
  have noValue : f.value.toList ≠ [] := by simpa using readable.valued
  apply trimChars_of_ends
  · intro c first
    rw [List.head?_append_of_ne_nil _ noName, ← readable.name] at first
    exact isBlank_of_head?_trimChars first
  · intro c last
    rw [List.getLast?_append_of_ne_nil _ (by simp [noValue]), List.getLast?_append_of_ne_nil _ noValue,
      ← readable.value] at last
    exact isBlank_of_trimChars last

/-- A token that does not run into the value is the operator of the text. -/
theorem Readable.divided_text (apart : ¬ f.RunsOn) :
    Divided f.text.toList f.name.toList f.operation.token f.value.toList := by
  have marks : ∀ c ∈ f.value.toList.takeWhile isTokenChar, isTokenChar c = true :=
    List.all_eq_true.mp List.all_takeWhile
  refine ⟨toList_text f, readable.plain, f.operation.token ++ f.value.toList.takeWhile isTokenChar,
    f.value.toList.dropWhile isTokenChar, ?_, ?_, ?_, ?_, ?_⟩
  · simp [token_ne_nil]
  · rw [List.append_assoc, List.takeWhile_append_dropWhile]
  · intro c member
    rcases List.mem_append.mp member with inToken | inValue
    · exact isTokenChar_of_mem_token inToken
    · exact marks c inValue
  · intro c first
    have stopped := List.head?_dropWhile_not isTokenChar f.value.toList
    rw [first] at stopped
    simpa using stopped
  · rcases length_token f.operation with one | two
    · have none : f.value.toList.takeWhile isTokenChar = [] := by
        cases chars : f.value.toList with
        | nil => rfl
        | cons c cs =>
          have notMark : isTokenChar c = false := by
            cases mark : isTokenChar c with
            | false => rfl
            | true => exact absurd ⟨one, c, by rw [chars]; rfl, mark⟩ apart
          simp [notMark]
      rw [none, List.append_nil, List.take_of_length_le (by omega)]
    · rw [List.take_append_of_le_length (by omega), List.take_of_length_le (by omega)]

/-- A token that runs into the value is not found again. -/
theorem Readable.not_divided_text (runsOn : f.RunsOn) (before after : List Char) :
    ¬ Divided f.text.toList before f.operation.token after := by
  intro divided
  obtain ⟨one, c, first, mark⟩ := runsOn
  obtain ⟨t, single⟩ := List.length_eq_one_iff.mp one
  have tokenMark : isTokenChar t = true := isTokenChar_of_mem_token (show t ∈ f.operation.token by simp [single])
  have scanned := divided.scanOperator_eq
  rw [toList_text, scanOperator_append readable.plain, single, List.singleton_append, scanOperator,
    if_pos tokenMark, Option.mem_def.mp first] at scanned
  simp [mark] at scanned

/-- A filter that was read is read again from its text exactly if its token does not run into its value. -/
theorem Readable.parse_text_iff : parse f.text = .ok f ↔ ¬ f.RunsOn := by
  rw [parse_eq_ok, readable.trimChars_text]
  constructor
  · intro written runsOn
    obtain ⟨before, after, divided, -⟩ := written.parts
    exact readable.not_divided_text runsOn before after divided
  · intro apart
    refine ⟨?_, ⟨_, _, readable.divided_text apart, ?_, ?_⟩, readable.named, readable.valued,
      (ofDraft_draft f).mpr ⟨readable.accepted, readable.valued⟩⟩
    · have noName : 0 < f.name.toList.length := List.length_pos_iff.mpr (by simpa using readable.named)
      have noValue : 0 < f.value.toList.length := List.length_pos_iff.mpr (by simpa using readable.valued)
      rw [toList_text, List.length_append, List.length_append]
      rcases length_token f.operation with one | two <;> omega
    · rw [readable.name, String.ofList_toList]
    · rw [readable.value, String.ofList_toList]

end Readable

/-! ## Several filters -/

/-- The text of several filters. -/
def textOfAll (fs : List Filter) : String := ",".intercalate (fs.map text)

/-- Filters that were read can be read, and have no comma in them. -/
theorem readable_of_parseAll {s : String} {fs : List Filter} (parsed : parseAll s = .ok fs) :
    ∀ f ∈ fs, f.Readable ∧ ',' ∉ f.text.toList := by
  intro f member
  obtain ⟨part, inParts, read⟩ := exists_left_of_forall₂ (mapM_eq_ok.mp parsed) member
  have written := parse_eq_ok.mp read
  refine ⟨readable_of_written written, fun comma => ?_⟩
  obtain ⟨inSplit, -⟩ := List.mem_filter.mp inParts
  obtain ⟨chars, inChars, rfl⟩ := List.mem_map.mp inSplit
  have inPart := mem_of_mem_trimChars (mem_of_written written comma)
  rw [String.toList_ofList] at inPart
  exact not_mem_splitChars ',' s.toList chars inChars inPart

/-- The text of filters is split into the texts of each. -/
theorem parts_textOfAll {fs : List Filter} (each : ∀ f ∈ fs, f.Readable ∧ ',' ∉ f.text.toList) :
    (split ',' (textOfAll fs)).filter (fun part => !allBlank part) = fs.map text := by
  cases fs with
  | nil => rfl
  | cons f fs =>
    have parts : split ',' (textOfAll (f :: fs)) = (f :: fs).map text := by
      apply split_intercalate
      · intro part member
        obtain ⟨g, inside, rfl⟩ := List.mem_map.mp member
        exact (each g inside).2
      · simp
    rw [parts, List.filter_eq_self]
    intro part member
    obtain ⟨g, inside, rfl⟩ := List.mem_map.mp member
    have readable := (each g inside).1
    -- The name starts with a character that is not blank.
    cases chars : g.name.toList with
    | nil => exact absurd (by simpa using chars) readable.named
    | cons c cs =>
      have notBlank : isBlank c = false := by
        apply isBlank_of_head?_trimChars
        rw [readable.name, chars]
        rfl
      simp [allBlank, toList_text, chars, notBlank]

/-- Filters that were read are written as a text that is read as the same filters, exactly if no token of them runs
    into its value. -/
theorem parseAll_textOfAll_iff {s : String} {fs : List Filter} (parsed : parseAll s = .ok fs) :
    parseAll (textOfAll fs) = .ok fs ↔ ∀ f ∈ fs, ¬ f.RunsOn := by
  have each := readable_of_parseAll parsed
  rw [parseAll, parts_textOfAll each, mapM_eq_ok, List.forall₂_map_left_iff, List.forall₂_same]
  constructor
  · intro read f member
    exact (each f member).1.parse_text_iff.mp (read f member)
  · intro apart f member
    exact (each f member).1.parse_text_iff.mpr (apart f member)

theorem parseAll_textOfAll_iff_people :
    ∃ fs, parseAll " Age >= =18 ,, Name~=~an~,Tags |= a|b " = .ok fs ∧ fs.length = 3 ∧ (∀ f ∈ fs, ¬ f.RunsOn) ∧
      (parseAll (textOfAll fs) = .ok fs ↔ ∀ f ∈ fs, ¬ f.RunsOn) := by
  obtain ⟨fs, parsed, three, apart⟩ : ∃ fs, parseAll " Age >= =18 ,, Name~=~an~,Tags |= a|b " = .ok fs ∧
      fs.length = 3 ∧ ∀ f ∈ fs, ¬ f.RunsOn := ⟨_, rfl, rfl, by decide⟩
  exact ⟨fs, parsed, three, apart, parseAll_textOfAll_iff parsed⟩

/-- Behind a blank a value may start with an operator character. Written without the blank, the filter is refused, or
    it is read as another one. -/
theorem parseAll_textOfAll_changed :
    parseAll "a= =b" = .ok [⟨"a", .equal, "=b"⟩] ∧
    parseAll (textOfAll [⟨"a", .equal, "=b"⟩]) = .error (.unknownOperator "a==b" "==") ∧
    parseAll "a< =b" = .ok [⟨"a", .less, "=b"⟩] ∧
    parseAll (textOfAll [⟨"a", .less, "=b"⟩]) = .ok [⟨"a", .lessEqual, "b"⟩] := by
  decide

end RowQuery.Filter
