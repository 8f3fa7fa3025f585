import RowQuery.Proofs.Failures

/-!
# The grammar of filters

A filter is written as a name, a token and a value, with blanks around each of them. The token is scanned for by
its characters, and the name and the value are what stands around the first place where the token is found. Both
agree: the scan stops at the first operator character, and no token can be found before it. So a text has at most
one division into the three parts, and a filter is read from it exactly if the parts are those of the filter.
-/

namespace RowQuery.Text

/-- A text is found behind characters that it does not start with. -/
theorem cutAt_append {c : Char} {before : List Char} (text after : List Char) (apart : c ∉ before) :
    cutAt (c :: text) (before ++ (c :: text ++ after)) = (before, after) := by
  induction before with
  | nil =>
    have found : (c :: text).isPrefixOf (c :: (text ++ after)) = true :=
      List.isPrefixOf_iff_prefix.mpr ⟨after, rfl⟩
    simp [cutAt, found]
  | cons d before ih =>
    have other : c ≠ d := fun same => apart (same ▸ List.mem_cons_self)
    have missed : (c :: text).isPrefixOf (d :: (before ++ (c :: text ++ after))) = false := by
      simp [List.isPrefixOf, other]
    have rest := ih fun member => apart (List.mem_cons_of_mem d member)
    rw [List.cons_append, cutAt, missed, rest]
    rfl

end RowQuery.Text

namespace RowQuery

namespace Operation

theorem isTokenChar_of_mem_token {op : Operation} {c : Char} (member : c ∈ op.token) : isTokenChar c = true := by
  have all : op.token.all isTokenChar = true := by cases op <;> rfl
  exact List.all_eq_true.mp all c member

theorem token_ne_nil (op : Operation) : op.token ≠ [] := by
  cases op <;> decide

theorem ofToken?_token (op : Operation) : ofToken? op.token = some op := by
  cases op <;> decide

/-- Tokens are told apart by their characters. -/
theorem ofToken?_eq_some {cs : List Char} {op : Operation} : ofToken? cs = some op ↔ cs = op.token := by
  constructor
  · intro found
    have same := List.find?_some found
    exact (by simpa using same : op.token = cs).symm
  · rintro rfl
    exact ofToken?_token op

theorem ofName?_name (op : Operation) : ofName? op.name = some op := by
  cases op <;> decide

end Operation

namespace Filter

open RowQuery.Text Operation

/-! ## Divisions -/

/-- A text in three parts: what stands before its first operator character, the run of operator characters that
    starts there, cut to two, and all that follows. -/
structure Divided (cs before operator after : List Char) : Prop where
  text : cs = before ++ (operator ++ after)
  before : ∀ c ∈ before, isTokenChar c = false
  run : ∃ run rest, run ≠ [] ∧ operator ++ after = run ++ rest ∧ (∀ c ∈ run, isTokenChar c = true) ∧
    (∀ c ∈ rest.head?, isTokenChar c = false) ∧ operator = run.take 2

/-- The scan passes over what is no operator character. -/
theorem scanOperator_append {before : List Char} (plain : ∀ c ∈ before, isTokenChar c = false) (cs : List Char) :
    scanOperator (before ++ cs) = scanOperator cs := by
  induction before with
  | nil => rfl
  | cons c before ih =>
    rw [List.cons_append, scanOperator, plain c List.mem_cons_self]
    exact ih fun d member => plain d (List.mem_cons_of_mem c member)

/-- The scan takes two characters of a run, or the only one. -/
theorem scanOperator_run {run rest : List Char} (marks : ∀ c ∈ run, isTokenChar c = true)
    (ends : ∀ c ∈ rest.head?, isTokenChar c = false) (some : run ≠ []) :
    scanOperator (run ++ rest) = run.take 2 := by
  cases run with
  | nil => exact absurd rfl some
  | cons c run =>
    rw [List.cons_append, scanOperator, if_pos (marks c List.mem_cons_self), List.take_succ_cons]
    congr 1
    cases run with
    | nil =>
      cases rest with
      | nil => rfl
      | cons d rest => simp [ends d rfl]
    | cons d run => simp [marks d (by simp)]

variable {cs before operator after : List Char}

theorem Divided.scanOperator_eq (divided : Divided cs before operator after) : scanOperator cs = operator := by
  obtain ⟨run, rest, some, same, marks, ends, cut⟩ := divided.run
  rw [divided.text, scanOperator_append divided.before, same, scanOperator_run marks ends some, cut]

theorem Divided.operator_ne_nil (divided : Divided cs before operator after) : operator ≠ [] := by
  obtain ⟨run, rest, some, -, -, -, rfl⟩ := divided.run
  simpa using some

/-- The search for the operator ends where the scan does. -/
theorem Divided.cutAt_eq (divided : Divided cs before operator after) : cutAt operator cs = (before, after) := by
  have some := divided.operator_ne_nil
  obtain ⟨run, rest, -, same, marks, -, cut⟩ := divided.run
  rw [divided.text]
  cases operator with
  | nil => exact absurd rfl some
  | cons c text =>
    apply cutAt_append
    intro member
    have mark : isTokenChar c = true := marks c (List.mem_of_mem_take (cut ▸ List.mem_cons_self))
    rw [divided.before c member] at mark
    cases mark

theorem Divided.unique {before' operator' after' : List Char} (divided : Divided cs before operator after)
    (divided' : Divided cs before' operator' after') :
    before = before' ∧ operator = operator' ∧ after = after' := by
  have same : operator = operator' := divided.scanOperator_eq.symm.trans divided'.scanOperator_eq
  have parts := divided.cutAt_eq.symm.trans (same ▸ divided'.cutAt_eq)
  exact ⟨congrArg Prod.fst parts, same, congrArg Prod.snd parts⟩

/-- A text in which the scan finds something can be divided. -/
theorem exists_divided (found : scanOperator cs ≠ []) :
    ∃ before after, Divided cs before (scanOperator cs) after := by
  have parts : ∃ before run rest, cs = before ++ (run ++ rest) ∧ (∀ c ∈ before, isTokenChar c = false) ∧ run ≠ [] ∧
      (∀ c ∈ run, isTokenChar c = true) ∧ ∀ c ∈ rest.head?, isTokenChar c = false := by
    induction cs with
    | nil => exact absurd rfl found
    | cons c cs ih =>
      cases mark : isTokenChar c with
      | true =>
        refine ⟨[], (c :: cs).takeWhile isTokenChar, (c :: cs).dropWhile isTokenChar, ?_, ?_, ?_, ?_, ?_⟩
        · simp [List.takeWhile_append_dropWhile]
        · simp
        · simp [mark]
        · exact List.all_eq_true.mp List.all_takeWhile
        · intro d head
          have first := List.head?_dropWhile_not isTokenChar (c :: cs)
          rw [head] at first
          simpa using first
      | false =>
        rw [scanOperator, mark] at found
        obtain ⟨before, run, rest, same, plain, more⟩ := ih found
        refine ⟨c :: before, run, rest, by rw [same]; rfl, ?_, more⟩
        exact List.forall_mem_cons.mpr ⟨mark, plain⟩
  obtain ⟨before, run, rest, same, plain, some, marks, ends⟩ := parts
  have divided : Divided cs before (run.take 2) (run.drop 2 ++ rest) := by
    refine ⟨?_, plain, run, rest, some, ?_, marks, ends, rfl⟩
    · rw [same, ← List.append_assoc (run.take 2), List.take_append_drop]
    · rw [← List.append_assoc, List.take_append_drop]
  exact ⟨before, _, divided.scanOperator_eq ▸ divided⟩

/-! ## Readings -/

/-- A filter as a caller fills it in. -/
def draft (f : Filter) : Draft := ⟨some (.text f.name), some (.text f.operation.name), some (.text f.value)⟩

/-- A text that a filter is written as: its name, its token and its value, with blanks around the name and the
    value. A filter that is filled in with them has to be accepted. -/
structure Written (cs : List Char) (f : Filter) : Prop where
  long : 3 ≤ cs.length
  parts : ∃ before after, Divided cs before f.operation.token after ∧
    f.name = String.ofList (trimChars before) ∧ f.value = String.ofList (trimChars after)
  named : f.name ≠ ""
  valued : f.value ≠ ""
  accepted : ofDraft f.draft = .ok f

/-- The ways in which a text that no filter is written as is refused. -/
inductive Refused (cs : List Char) (e : Error) : Prop where
  | short (short : cs.length < 3) (kind : e.kind? = some .filter)
  /-- There is no operator character, or the run of them is no token. -/
  | operator (long : 3 ≤ cs.length) (unknown : ∀ op before after, ¬ Divided cs before (token op) after)
      (kind : e.kind? = some .operator)
  | parts (long : 3 ≤ cs.length) (known : ∃ op before after, Divided cs before (token op) after)
      (kind : e.kind? = some .filter)

/-- What is filled in is accepted if the name is a path and the value is not empty. -/
theorem ofDraft_draft (f : Filter) : ofDraft f.draft = .ok f ↔ isPathText f.name = true ∧ f.value ≠ "" := by
  have operation : chosen (Operation.all.map Operation.name) ofName? (.text f.operation.name) =
      .ok f.operation := by
    simp [chosen, ofName?_name]
  by_cases named : isPathText f.name = true <;> by_cases valued : f.value = "" <;>
    simp [ofDraft, draft, given, readText, checkName, checkValue, named, valued, Bind.bind, Except.bind, operation,
      Checked.field, Checked.both, Except.map, Except.mapError]

/-- The reading of a text that can be divided. -/
theorem parse_of_divided {s : String} {op : Operation} (long : 3 ≤ (trimChars s.toList).length)
    (divided : Divided (trimChars s.toList) before op.token after) :
    parse s =
      if String.ofList (trimChars before) = "" ∨ String.ofList (trimChars after) = "" then
        .error (.incompleteFilter (String.ofList (trimChars s.toList)))
      else if isPathText (String.ofList (trimChars before)) then
        .ok ⟨String.ofList (trimChars before), op, String.ofList (trimChars after)⟩
      else .error (.malformedFilter (String.ofList (trimChars s.toList))
        (.notAPath (String.ofList (trimChars before)))) := by
  simp only [parse, if_neg (Nat.not_lt.mpr long), divided.scanOperator_eq, ofToken?_token, divided.cutAt_eq,
    Bool.or_eq_true, beq_iff_eq, checkName]
  by_cases incomplete : String.ofList (trimChars before) = "" ∨ String.ofList (trimChars after) = ""
  · simp only [if_pos incomplete]
  · by_cases path : isPathText (String.ofList (trimChars before)) = true
    · simp only [if_neg incomplete, if_pos path]
    · simp only [if_neg incomplete, if_neg path]

/-- The reading of a text that has no operator. -/
theorem parse_of_undivided {s : String} (long : 3 ≤ (trimChars s.toList).length)
    (unknown : ∀ op before after, ¬ Divided (trimChars s.toList) before (token op) after) :
    ∃ operator, parse s = .error (.unknownOperator (String.ofList (trimChars s.toList)) operator) := by
  have none : ofToken? (scanOperator (trimChars s.toList)) = none := by
    cases found : ofToken? (scanOperator (trimChars s.toList)) with
    | none => rfl
    | some op =>
      have same := ofToken?_eq_some.mp found
      obtain ⟨before, after, divided⟩ := exists_divided (same ▸ token_ne_nil op)
      exact absurd (same ▸ divided) (unknown op before after)
  refine ⟨String.ofList (scanOperator (trimChars s.toList)), ?_⟩
  simp only [parse, if_neg (Nat.not_lt.mpr long), none]

theorem parse_of_short {s : String} (short : (trimChars s.toList).length < 3) :
    parse s = .error (.shortFilter (String.ofList (trimChars s.toList))) := by
  simp only [parse, if_pos short]

/-- A filter is read from the texts that it is written as. -/
theorem parse_eq_ok {s : String} {f : Filter} : parse s = .ok f ↔ Written (trimChars s.toList) f := by
  constructor
  · intro parsed
    by_cases short : (trimChars s.toList).length < 3
    · rw [parse_of_short short] at parsed
      cases parsed
    have long := Nat.not_lt.mp short
    by_cases known : ∃ op before after, Divided (trimChars s.toList) before (token op) after
    · obtain ⟨op, before, after, divided⟩ := known
      rw [parse_of_divided long divided] at parsed
      split at parsed
      · cases parsed
      · rename_i complete
        obtain ⟨named, valued⟩ := not_or.mp complete
        split at parsed
        · rename_i path
          cases parsed
          exact ⟨long, ⟨before, after, divided, rfl, rfl⟩, named, valued, (ofDraft_draft _).mpr ⟨path, valued⟩⟩
        · cases parsed
    · obtain ⟨operator, refused⟩ := parse_of_undivided long fun op before after divided =>
        known ⟨op, before, after, divided⟩
      rw [refused] at parsed
      cases parsed
  · rintro ⟨long, ⟨before, after, divided, name, value⟩, named, valued, accepted⟩
    obtain ⟨path, -⟩ := (ofDraft_draft f).mp accepted
    rw [parse_of_divided long divided, ← name, ← value, if_neg (not_or.mpr ⟨named, valued⟩), if_pos path]

/-- A text that is refused is refused for the first fault it has. -/
theorem refused_of_parse {s : String} {e : Error} (failed : parse s = .error e) : Refused (trimChars s.toList) e := by
  by_cases short : (trimChars s.toList).length < 3
  · rw [parse_of_short short] at failed
    cases failed
    exact .short short rfl
  have long := Nat.not_lt.mp short
  by_cases known : ∃ op before after, Divided (trimChars s.toList) before (token op) after
  · refine .parts long known ?_
    obtain ⟨op, before, after, divided⟩ := known
    rw [parse_of_divided long divided] at failed
    split at failed
    · cases failed
      rfl
    · split at failed
      · cases failed
      · cases failed
        rfl
  · have unknown := fun op before after divided => known ⟨op, before, after, divided⟩
    obtain ⟨operator, refused⟩ := parse_of_undivided long unknown
    rw [refused] at failed
    cases failed
    exact .operator long unknown rfl

/-- Filters are read from the texts that they are written as and from no others. A text can be divided in one way
    only, and one that no filter is written as is refused: if it is shorter than three characters as such, then for
    its operator, then for its name or its value. -/
theorem parse_iff_written (s : String) :
    (∀ f, parse s = .ok f ↔ Written (trimChars s.toList) f) ∧
    (∀ before operator after before' operator' after', Divided (trimChars s.toList) before operator after →
      Divided (trimChars s.toList) before' operator' after' →
        before = before' ∧ operator = operator' ∧ after = after') ∧
    ((∀ f, ¬ Written (trimChars s.toList) f) → ∃ e, parse s = .error e ∧ Refused (trimChars s.toList) e) := by
  refine ⟨fun f => parse_eq_ok, fun _ _ _ _ _ _ one other => one.unique other, fun none => ?_⟩
  cases outcome : parse s with
  | ok f => exact absurd (parse_eq_ok.mp outcome) (none f)
  | error e => exact ⟨e, rfl, refused_of_parse outcome⟩

/-- Blanks are trimmed, and the operator characters behind a token belong to the value. -/
example : parse "  Inner.Name <= =1*2  " = .ok ⟨"Inner.Name", .lessEqual, "=1*2"⟩ := by decide

end Filter

end RowQuery
