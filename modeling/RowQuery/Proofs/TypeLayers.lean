import RowQuery.Proofs.WellFormedSchemas

/-!
# Layers around types

A field's type may have layers around it: null may be allowed, there may be a collection, and there may be notes. The
description of the field does not depend on them, apart from the notes and from whether one of them is a collection;
nor does it depend on their order, so notes say the same inside a wrapper and outside. What a layer adds to what is
left when the wrappers are taken off is proved layer by layer. The first tag wins, so this needs that there is one at
most.
-/

namespace RowQuery.Schema

namespace FieldType

/-! ## The plain form -/

def isUnion : FieldType → Bool
  | .union _ => true
  | _ => false

/-- What a type in plain form has if it is a union: several members or none, each of them once, and no unions among
    them. -/
structure Plain (t : FieldType) : Prop where
  once : ∀ ms, t = .union ms → distinct ms = ms
  several : ∀ ms, t = .union ms → ms.length ≠ 1
  flat : ∀ ms, t = .union ms → ∀ m ∈ ms, m.isUnion = false

theorem Plain.of_not_union {t : FieldType} (other : t.isUnion = false) : Plain t := by
  constructor <;> rintro ms rfl <;> cases other

/-- The next type is kept unless it is the same as one before. -/
theorem distinct_concat (ts : List FieldType) (t : FieldType) :
    distinct (ts ++ [t]) = if (distinct ts).any (·.same t) then distinct ts else distinct ts ++ [t] := by
  simp [distinct, List.foldl_append]

theorem distinct_distinct (ts : List FieldType) : distinct (distinct ts) = distinct ts := by
  induction ts using List.reverseRecOn with
  | nil => rfl
  | append_singleton ts t ih =>
    rw [distinct_concat]
    split
    case isTrue => exact ih
    case isFalse new => rw [distinct_concat, ih, if_neg new]

theorem Plain.members {t : FieldType} (plain : Plain t) {m : FieldType} (member : m ∈ t.members) :
    m.isUnion = false := by
  cases t with
  | union ms => exact plain.flat ms rfl m member
  | _ =>
    cases List.mem_singleton.mp member
    rfl

theorem plain_unite {ts : List FieldType} (plain : ∀ t ∈ ts, Plain t) : Plain (unite ts) := by
  have flat : ∀ m ∈ distinct (ts.flatMap FieldType.members), m.isUnion = false := by
    intro m inside
    obtain ⟨t, inTypes, member⟩ := List.mem_flatMap.mp (mem_of_mem_distinct inside)
    exact (plain t inTypes).members member
  unfold unite
  split
  case h_1 t only => exact .of_not_union (flat t (by simp [only]))
  case h_2 several =>
    constructor
    · rintro _ ⟨⟩
      exact distinct_distinct _
    · rintro _ ⟨⟩ one
      obtain ⟨t, only⟩ := List.length_eq_one_iff.mp one
      exact several t only
    · rintro _ ⟨⟩
      exact flat

mutual

theorem plain_normalize : (t : FieldType) → Plain t.normalize
  | .scalar _ => .of_not_union rfl
  | .entity _ => .of_not_union rfl
  | .noted t notes => .of_not_union (by
      rw [normalize]
      cases t.normalize <;> rfl)
  | .union members => plain_unite (plain_normalizeAll members)
  | .collection _ _ => .of_not_union rfl
  | .map _ _ => .of_not_union rfl

theorem plain_normalizeAll : (ts : List FieldType) → ∀ t ∈ normalizeAll ts, Plain t
  | [], _, member => by cases member
  | u :: us, t, member => by
    rcases List.mem_cons.mp member with rfl | later
    · exact plain_normalize u
    · exact plain_normalizeAll us t later

end

/-! ## Null -/

theorem same_null {t : FieldType} : t.same (.scalar .null) = true ↔ t = .scalar .null := by
  cases t <;> simp [same]

theorem stripMembers_cons {t : FieldType} (notNull : t ≠ .scalar .null) (ts : List FieldType) :
    stripMembers (t :: ts) = t.strip :: stripMembers ts := by
  rw [stripMembers]
  exact notNull

theorem stripMembers_concat_null (ts : List FieldType) : stripMembers (ts ++ [.scalar .null]) = stripMembers ts := by
  induction ts with
  | nil => rfl
  | cons t ts ih =>
    by_cases null : t = .scalar .null
    · subst null
      exact ih
    · rw [List.cons_append, stripMembers_cons null, stripMembers_cons null, ih]

/-- The types that are left as they are and that no column can be made from: unions, and null. -/
def isShapeless : FieldType → Bool
  | .union _ => true
  | .scalar .null => true
  | _ => false

/-- What is left of two types is alike if it makes the same field, as far as it does not depend on the order of
    tags. -/
structure Peeled.Alike (p q : Peeled) : Prop where
  base : p.base = q.base ∨ p.base.isShapeless = true ∧ q.base.isShapeless = true
  notes : p.notes.Perm q.notes
  isList : p.isList = q.isList

namespace Peeled.Alike

theorem refl (p : Peeled) : p.Alike p := ⟨.inl rfl, .refl _, rfl⟩

theorem of_eq {p q : Peeled} (same : p = q) : p.Alike q := same ▸ refl p

theorem symm {p q : Peeled} (alike : p.Alike q) : q.Alike p :=
  ⟨alike.base.imp Eq.symm And.symm, alike.notes.symm, alike.isList.symm⟩

theorem trans {p q r : Peeled} (first : p.Alike q) (second : q.Alike r) : p.Alike r where
  base := by
    rcases first.base with same | shapeless
    · rw [same]
      exact second.base
    · rcases second.base with same | shapeless'
      · exact .inr ⟨shapeless.1, same ▸ shapeless.2⟩
      · exact .inr ⟨shapeless.1, shapeless'.2⟩
  notes := first.notes.trans second.notes
  isList := first.isList.trans second.isList

/-- A relation leads to the same entity. -/
theorem entity_iff {p q : Peeled} (alike : p.Alike q) (target : String) :
    p.base = .entity target ↔ q.base = .entity target := by
  have shaped {base : FieldType} (shapeless : base.isShapeless = true) : base ≠ .entity target := by
    rintro rfl
    cases shapeless
  rcases alike.base with same | ⟨shapeless, shapeless'⟩
  · rw [same]
  · simp [shaped shapeless, shaped shapeless']

end Peeled.Alike

/-- Null beside the members of a union changes nothing in what is left of it. -/
theorem alike_strip_concat_null (ms : List FieldType) :
    (FieldType.union (ms ++ [.scalar .null])).strip.Alike (FieldType.union ms).strip := by
  rw [strip, strip, stripMembers_concat_null]
  split
  case h_1 p _ => exact .refl p
  case h_2 => exact ⟨.inr ⟨rfl, rfl⟩, .refl _, rfl⟩

theorem unite_of_several {ts ms : List FieldType} (all : distinct (ts.flatMap members) = ms)
    (several : ms.length ≠ 1) : unite ts = .union ms := by
  rw [unite, all]
  split
  · exact absurd rfl several
  · rfl

/-- Null beside a type changes nothing in what is left of it. -/
theorem alike_strip_orNull {n : FieldType} (plain : Plain n) : (unite [n, .scalar .null]).strip.Alike n.strip := by
  cases isUnion : n.isUnion with
  | false =>
    have alone : [n, FieldType.scalar .null].flatMap members = [n] ++ [.scalar .null] := by
      cases n with
      | union => cases isUnion
      | _ => rfl
    by_cases null : n = .scalar .null
    · subst null
      exact .refl _
    · have both : distinct ([n] ++ [.scalar .null]) = [n] ++ [.scalar .null] := by
        rw [distinct_concat, if_neg (by simpa [distinct, same_null] using null)]
        rfl
      rw [unite_of_several (by rw [alone, both]) (by simp), strip, stripMembers_concat_null, stripMembers_cons null]
      exact .refl _
  | true =>
    obtain ⟨ms, rfl⟩ : ∃ ms, n = .union ms := by
      cases n with
      | union ms => exact ⟨ms, rfl⟩
      | _ => cases isUnion
    have all : distinct ([.union ms, .scalar .null].flatMap members) =
        if ms.any (·.same (.scalar .null)) then ms else ms ++ [.scalar .null] := by
      change distinct (ms ++ [.scalar .null]) = _
      rw [distinct_concat, plain.once ms rfl]
    by_cases null : ms.any (·.same (.scalar .null)) = true
    · rw [unite_of_several (all.trans (if_pos null)) (plain.several ms rfl)]
      exact .refl _
    · cases ms with
      | nil => exact ⟨.inr ⟨rfl, rfl⟩, .refl _, rfl⟩
      | cons m ms =>
        rw [unite_of_several (all.trans (if_neg null)) (by simp)]
        exact alike_strip_concat_null (m :: ms)

/-! ## Layers -/

/-- What may stand around a type. -/
inductive Layer where
  | orNull
  /-- A collection of the type, which may have further items if it is a tuple. -/
  | collection (kind : Collection) (others : List FieldType)
  | noted (notes : List Note)

namespace Layer

/-- A type with a layer around it. -/
def wrap : Layer → FieldType → FieldType
  | .orNull, t => t.optional
  | .collection kind others, t => .collection kind (t :: others)
  | .noted notes, t => .noted t notes

def isCollection : Layer → Bool
  | .collection _ _ => true
  | _ => false

def isNotes : Layer → Bool
  | .noted _ => true
  | _ => false

/-- The notes of a layer. -/
def ownNotes : Layer → List Note
  | .noted notes => notes
  | _ => []

/-- What is left of a type with a layer around it, by what is left of the type. -/
def onto (layer : Layer) (p : Peeled) : Peeled :=
  { p with notes := layer.ownNotes ++ p.notes, isList := layer.isCollection || p.isList }

end Layer

/-- A type with layers around it, the first of them outermost. -/
def wrap (layers : List Layer) (t : FieldType) : FieldType := layers.foldr Layer.wrap t

theorem alike_strip_note (n : FieldType) (notes : List Note) :
    (n.note notes).strip.Alike { n.strip with notes := notes ++ n.strip.notes } := by
  cases n with
  | noted t inner =>
    refine ⟨.inl rfl, ?_, rfl⟩
    change ((inner ++ notes) ++ t.strip.notes).Perm (notes ++ (inner ++ t.strip.notes))
    rw [← List.append_assoc]
    exact List.perm_append_comm.append_right _
  | _ => exact .refl _

theorem alike_peel_layer (layer : Layer) (t : FieldType) : (layer.wrap t).peel.Alike (layer.onto t.peel) := by
  cases layer with
  | orNull => exact alike_strip_orNull (plain_normalize t)
  | collection kind others => exact .refl _
  | noted notes => exact alike_strip_note t.normalize notes

theorem Peeled.Alike.onto {p q : Peeled} (alike : p.Alike q) (layer : Layer) : (layer.onto p).Alike (layer.onto q) where
  base := alike.base
  notes := alike.notes.append_left _
  isList := by simp [Layer.onto, alike.isList]

/-- The layers of a type add their notes to what is left of it, and whether one of them is a collection. -/
theorem alike_peel_wrap (layers : List Layer) (t : FieldType) :
    (wrap layers t).peel.Alike
      { t.peel with
        notes := layers.flatMap Layer.ownNotes ++ t.peel.notes
        isList := layers.any Layer.isCollection || t.peel.isList } := by
  induction layers with
  | nil => exact .refl _
  | cons layer layers ih =>
    refine (alike_peel_layer layer _).trans ((ih.onto layer).trans (.of_eq ?_))
    simp [Layer.onto, Bool.or_assoc]

/-! ## Tags -/

end FieldType

/-- The tag that a note is, if it is one. -/
def Note.tag? : Note → Option Tag
  | .tag t => some t
  | _ => none

/-- The tags among notes. -/
def tagsOf (notes : List Note) : List Tag := notes.filterMap Note.tag?

namespace FieldType

mutual

/-- How many tags there are anywhere in a type. -/
def tagCount : FieldType → Nat
  | .scalar _ => 0
  | .entity _ => 0
  | .noted t notes => (tagsOf notes).length + t.tagCount
  | .union members => tagCountAll members
  | .collection _ items => tagCountAll items
  | .map key value => key.tagCount + value.tagCount

/-- How many tags there are in some types. -/
def tagCountAll : List FieldType → Nat
  | [] => 0
  | t :: ts => t.tagCount + tagCountAll ts

end

theorem tagCountAll_append (ts us : List FieldType) : tagCountAll (ts ++ us) = tagCountAll ts + tagCountAll us := by
  induction ts with
  | nil => simp [tagCountAll]
  | cons t ts ih => simp [tagCountAll, ih, Nat.add_assoc]

theorem tagCountAll_members (t : FieldType) : tagCountAll t.members = t.tagCount := by
  cases t <;> simp [members, tagCountAll, tagCount]

theorem tagCountAll_flatMap_members (ts : List FieldType) : tagCountAll (ts.flatMap members) = tagCountAll ts := by
  induction ts with
  | nil => rfl
  | cons t ts ih => rw [List.flatMap_cons, tagCountAll_append, tagCountAll_members, ih, tagCountAll]

theorem tagCountAll_distinct_le (ts : List FieldType) : tagCountAll (distinct ts) ≤ tagCountAll ts := by
  induction ts using List.reverseRecOn with
  | nil => exact Nat.le_refl _
  | append_singleton ts t ih =>
    rw [distinct_concat, tagCountAll_append]
    split
    · omega
    · rw [tagCountAll_append]
      omega

theorem tagCount_unite_le (ts : List FieldType) : (unite ts).tagCount ≤ tagCountAll ts := by
  have kept := tagCountAll_distinct_le (ts.flatMap members)
  rw [tagCountAll_flatMap_members] at kept
  unfold unite
  split
  case h_1 t only => simpa [only, tagCountAll] using kept
  case h_2 => exact kept

theorem tagCount_note (t : FieldType) (notes : List Note) :
    (t.note notes).tagCount = (tagsOf notes).length + t.tagCount := by
  cases t with
  | noted t inner =>
    simp [note, tagCount, tagsOf]
    omega
  | _ => rfl

mutual

theorem tagCount_normalize_le : (t : FieldType) → t.normalize.tagCount ≤ t.tagCount
  | .scalar _ => Nat.le_refl _
  | .entity _ => Nat.le_refl _
  | .noted t notes => by
    rw [normalize, tagCount_note, tagCount]
    exact Nat.add_le_add_left (tagCount_normalize_le t) _
  | .union members => Nat.le_trans (tagCount_unite_le _) (tagCountAll_normalizeAll_le members)
  | .collection _ items => tagCountAll_normalizeAll_le items
  | .map key value => Nat.add_le_add (tagCount_normalize_le key) (tagCount_normalize_le value)

theorem tagCountAll_normalizeAll_le : (ts : List FieldType) → tagCountAll (normalizeAll ts) ≤ tagCountAll ts
  | [] => Nat.le_refl _
  | t :: ts => Nat.add_le_add (tagCount_normalize_le t) (tagCountAll_normalizeAll_le ts)

end

mutual

/-- The tags on the wrappers of a type are tags in it. -/
theorem length_tagsOf_strip_le : (t : FieldType) → (tagsOf t.strip.notes).length ≤ t.tagCount
  | .scalar _ => Nat.zero_le _
  | .entity _ => Nat.zero_le _
  | .noted t notes => by
    have inner := length_tagsOf_strip_le t
    simp only [strip, tagCount, tagsOf, List.filterMap_append, List.length_append] at inner ⊢
    omega
  | .union members => by
    rw [strip]
    split
    case h_1 p only =>
      exact length_tagsOf_stripMembers_le members p (by rw [only]; exact List.mem_singleton_self p)
    case h_2 => exact Nat.zero_le _
  | .collection _ items => by
    cases items with
    | nil => exact Nat.zero_le _
    | cons t ts => exact Nat.le_trans (length_tagsOf_strip_le t) (Nat.le_add_right _ _)
  | .map _ _ => Nat.zero_le _

theorem length_tagsOf_stripMembers_le : (ts : List FieldType) → ∀ p ∈ stripMembers ts,
    (tagsOf p.notes).length ≤ tagCountAll ts
  | [], _, member => by cases member
  | t :: ts, p, member => by
    have later : p ∈ stripMembers ts → (tagsOf p.notes).length ≤ tagCountAll (t :: ts) := by
      intro inside
      exact Nat.le_trans (length_tagsOf_stripMembers_le ts p inside) (Nat.le_add_left _ _)
    by_cases null : t = .scalar .null
    · subst null
      exact later member
    · rw [stripMembers_cons null] at member
      rcases List.mem_cons.mp member with rfl | inside
      · exact Nat.le_trans (length_tagsOf_strip_le t) (Nat.le_add_right _ _)
      · exact later inside

end

theorem length_tagsOf_peel_le (t : FieldType) : (tagsOf t.peel.notes).length ≤ t.tagCount :=
  Nat.le_trans (length_tagsOf_strip_le t.normalize) (tagCount_normalize_le t)

end FieldType

/-! ## Fields -/

/-- A relation that may lead to several rows; a column is as it was. -/
def Field.listed (several : Bool) (f : Field) : Field :=
  if f.isRelation && several then { f with isList := true } else f

namespace Catalog

open FieldType

/-- What is refused of a tag, whatever the type of the field. -/
def checkTag (entity name : String) (tag : Tag) : Except Error Unit :=
  if (nonEmpty? tag.polymorphic).isSome && (nonEmpty? tag.manyToMany).isSome then .error (.exclusiveTags entity name)
  else match tag.search with
    | some pattern =>
      if pattern.toList.count '*' != 1 then .error (.searchPattern entity name pattern) else .ok ()
    | none => .ok ()

variable (c : Catalog) (entity name : String)

/-- The description of a field by what is left of its type. -/
def describePeeled (p : Peeled) : Except Error Field := do
  checkTag entity name (firstTag p.notes)
  c.fieldOf entity name p

theorem describeField_eq (type : FieldType) :
    c.describeField entity name type = c.describePeeled entity name type.peel := by
  simp only [describeField, describePeeled, checkTag]
  split
  · rfl
  · cases search : (firstTag type.peel.notes).search with
    | none =>
      simp only [fieldOf, search]
      rfl
    | some pattern =>
      simp only [fieldOf, search]
      split <;> rfl

theorem firstTag_eq (notes : List Note) : firstTag notes = (tagsOf notes).head?.getD {} := by
  rw [tagsOf, List.head?_filterMap, firstTag]
  congr

/-- Where there is one tag at most, the order of notes does not matter. -/
theorem firstTag_of_perm {notes notes' : List Note} (order : notes.Perm notes') (single : (tagsOf notes).length ≤ 1) :
    firstTag notes = firstTag notes' := by
  have tags : (tagsOf notes).Perm (tagsOf notes') := order.filterMap _
  rw [firstTag_eq, firstTag_eq]
  cases only : tagsOf notes with
  | nil =>
    rw [only] at tags
    rw [tags.nil_eq]
  | cons tag more =>
    rw [only, List.length_cons] at single
    rw [only, List.length_eq_zero_iff.mp (by omega : more.length = 0)] at tags
    rw [← List.singleton_perm.mp tags]
    rfl

theorem columnKind_of_isShapeless {base : FieldType} (shapeless : base.isShapeless = true) (notes : List Note) :
    columnKind base notes =
      if notes.contains (.marker .json) || notes.contains (.marker .localized) then some .json
      else if notes.contains (.marker .unsigned) then some .uint
      else none := by
  cases base with
  | union ms => rfl
  | scalar s =>
    cases s with
    | null => rfl
    | _ => cases shapeless
  | _ => cases shapeless

theorem columnKind_of_alike {p q : Peeled} (alike : p.Alike q) :
    columnKind p.base p.notes = columnKind q.base q.notes := by
  have noted (note : Note) : p.notes.contains note = q.notes.contains note := alike.notes.contains_eq
  rcases alike.base with same | ⟨shapeless, shapeless'⟩
  · simp only [columnKind, noted, same]
  · simp only [columnKind_of_isShapeless shapeless, columnKind_of_isShapeless shapeless', noted]

theorem fieldOf_of_column {p : Peeled} (column : ∀ target, p.base ≠ .entity target) :
    c.fieldOf entity name p =
      if (nonEmpty? (firstTag p.notes).polymorphic).isSome || (nonEmpty? (firstTag p.notes).manyToMany).isSome ||
          (nonEmpty? (firstTag p.notes).join).isSome then .error (.strayRelationTag entity name)
      else .ok {
        name, column := (nonEmpty? (firstTag p.notes).column).getD name, kind := columnKind p.base p.notes
        translated := p.notes.contains (.marker .localized), search := (firstTag p.notes).search } := by
  simp only [fieldOf]

theorem fieldOf_of_alike {p q : Peeled} (alike : p.Alike q) (single : (tagsOf p.notes).length ≤ 1) :
    c.fieldOf entity name p = c.fieldOf entity name q := by
  have noted (note : Note) : p.notes.contains note = q.notes.contains note := alike.notes.contains_eq
  have tag := firstTag_of_perm alike.notes single
  by_cases relation : ∃ target, p.base = .entity target
  · obtain ⟨target, base⟩ := relation
    simp only [fieldOf, tag, noted, alike.isList, base, (alike.entity_iff target).mp base]
  · have column : ∀ target, p.base ≠ .entity target := fun target base => relation ⟨target, base⟩
    have column' : ∀ target, q.base ≠ .entity target := fun target => mt (alike.entity_iff target).mpr (column target)
    rw [fieldOf_of_column c entity name column, fieldOf_of_column c entity name column', tag, noted,
      columnKind_of_alike alike]

/-- A collection around what is left makes a relation lead to several rows, and has no part in a column. -/
theorem fieldOf_listed (p : Peeled) (several : Bool) :
    c.fieldOf entity name { p with isList := several || p.isList } =
      (c.fieldOf entity name p).map (Field.listed several) := by
  by_cases relation : ∃ target, p.base = .entity target
  · obtain ⟨target, base⟩ := relation
    have isRelation (tag : Tag) : (relationOf tag != .none) = true := by
      unfold relationOf
      split
      · rfl
      · split <;> rfl
    simp only [fieldOf, base]
    split
    · rfl
    · cases several <;> simp [Except.map, Field.listed, Field.isRelation, isRelation]
  · have column : ∀ target, p.base ≠ .entity target := fun target base => relation ⟨target, base⟩
    have listed : ∀ target, ({ p with isList := several || p.isList } : Peeled).base ≠ .entity target := column
    rw [fieldOf_of_column c entity name column, fieldOf_of_column c entity name listed]
    split <;> rfl

theorem describePeeled_of_alike {p q : Peeled} (alike : p.Alike q) (single : (tagsOf p.notes).length ≤ 1) :
    c.describePeeled entity name p = c.describePeeled entity name q := by
  rw [describePeeled, describePeeled, firstTag_of_perm alike.notes single, fieldOf_of_alike c entity name alike single]

theorem describePeeled_listed (p : Peeled) (several : Bool) :
    c.describePeeled entity name { p with isList := several || p.isList } =
      (c.describePeeled entity name p).map (Field.listed several) := by
  rw [describePeeled, describePeeled, fieldOf_listed]
  cases checkTag entity name (firstTag p.notes) <;> rfl

end Catalog

/-! ## Declared fields -/

namespace FieldType

/-- The layer of the tag that a field is declared with. -/
def tagLayers (tag : Option Tag) : List Layer := (tag.map fun t => .noted [.tag t]).toList

theorem fullType_wrap (name : String) (layers : List Layer) (t : FieldType) (tag : Option Tag) :
    FieldDecl.fullType { name, type := wrap layers t, tag } = wrap (tagLayers tag ++ layers) t := by
  cases tag <;> rfl

theorem ownNotes_filter (layers : List Layer) :
    (layers.filter Layer.isNotes).flatMap Layer.ownNotes = layers.flatMap Layer.ownNotes := by
  induction layers with
  | nil => rfl
  | cons layer layers ih =>
    cases layer with
    | noted notes => rw [List.filter_cons_of_pos rfl, List.flatMap_cons, ih, List.flatMap_cons]
    | orNull => exact ih
    | collection kind others => exact ih

theorem isCollection_filter (layers : List Layer) : (layers.filter Layer.isNotes).any Layer.isCollection = false := by
  rw [List.any_eq_false]
  intro layer member
  have isNotes := List.of_mem_filter member
  cases layer with
  | noted notes => exact Bool.false_ne_true
  | orNull => cases isNotes
  | collection kind others => cases isNotes

theorem Peeled.Alike.listed {p q : Peeled} (alike : p.Alike q) (several : Bool) :
    Peeled.Alike { p with isList := several || p.isList } { q with isList := several || q.isList } :=
  ⟨alike.base, alike.notes, by rw [alike.isList]⟩

/-- Without the wrappers among the layers, only whether one of them is a collection is lost. -/
theorem alike_peel_filter (before layers : List Layer) (t : FieldType) :
    let bare := (wrap (before ++ layers.filter Layer.isNotes) t).peel
    (wrap (before ++ layers) t).peel.Alike { bare with isList := layers.any Layer.isCollection || bare.isList } := by
  intro bare
  refine (alike_peel_wrap (before ++ layers) t).trans (.symm ?_)
  refine ((alike_peel_wrap (before ++ layers.filter Layer.isNotes) t).listed _).trans (.of_eq ?_)
  simp only [List.flatMap_append, ownNotes_filter, List.any_append, isCollection_filter, Bool.or_false]
  cases before.any Layer.isCollection <;> cases layers.any Layer.isCollection <;> rfl

/-- The order of the layers does not matter. -/
theorem alike_peel_perm (before : List Layer) {layers layers' : List Layer} (order : layers.Perm layers')
    (t : FieldType) : (wrap (before ++ layers) t).peel.Alike (wrap (before ++ layers') t).peel := by
  have all := order.append_left before
  have moved : Peeled.Alike
      { t.peel with
        notes := (before ++ layers).flatMap Layer.ownNotes ++ t.peel.notes
        isList := (before ++ layers).any Layer.isCollection || t.peel.isList }
      { t.peel with
        notes := (before ++ layers').flatMap Layer.ownNotes ++ t.peel.notes
        isList := (before ++ layers').any Layer.isCollection || t.peel.isList } :=
    ⟨.inl rfl, (all.flatMap_right _).append_right _, by rw [all.any_eq]⟩
  exact (alike_peel_wrap _ t).trans (moved.trans (alike_peel_wrap _ t).symm)

end FieldType

namespace Catalog

open FieldType

/-- The layers around the type of a field do not show in its description, their notes and whether one of them is a
    collection apart: without the wrappers, the field or the error is the same, but that a relation leads to several
    rows if there is a collection. Nor does the order of the layers show, so notes inside the wrappers and outside of
    them say the same. -/
theorem describeField_layers (c : Catalog) (entity name : String) (layers : List Layer) (t : FieldType)
    (tag : Option Tag) (single : (FieldDecl.fullType { name, type := wrap layers t, tag }).tagCount ≤ 1) :
    c.describeField entity name (FieldDecl.fullType { name, type := wrap layers t, tag }) =
      (c.describeField entity name
        (FieldDecl.fullType { name, type := wrap (layers.filter Layer.isNotes) t, tag })).map
          (Field.listed (layers.any Layer.isCollection)) ∧
    ∀ layers', layers.Perm layers' →
      c.describeField entity name (FieldDecl.fullType { name, type := wrap layers t, tag }) =
        c.describeField entity name (FieldDecl.fullType { name, type := wrap layers' t, tag }) := by
  have tags := Nat.le_trans (length_tagsOf_peel_le _) single
  simp only [fullType_wrap, describeField_eq] at tags ⊢
  constructor
  · rw [describePeeled_of_alike c entity name (alike_peel_filter _ layers t) tags, describePeeled_listed]
  · intro layers' order
    exact describePeeled_of_alike c entity name (alike_peel_perm _ order t) tags

end Catalog

namespace Samples

/-- Nullable pairs of nullable lists, with a tag between. -/
def labelLayers : List FieldType.Layer :=
  [.orNull, .collection .tuple [.scalar .int], .noted [.tag { manyToMany := some "volume_label" }], .orNull,
    .collection .list []]

end Samples

/-- The tag stands between the wrappers, in front of them and behind them. -/
theorem Catalog.describeField_layers_labels :
    ∃ wrapped bare,
      (ofDecls Samples.library).describeField "Volume" "Labels"
        (FieldType.wrap Samples.labelLayers (.optional (.entity "Label"))) = .ok wrapped ∧
      (ofDecls Samples.library).describeField "Volume" "Labels"
        (.noted (.optional (.entity "Label")) [.tag { manyToMany := some "volume_label" }]) = .ok bare ∧
      (ofDecls Samples.library).describeField "Volume" "Labels"
        (FieldType.wrap Samples.labelLayers.reverse (.optional (.entity "Label"))) = .ok wrapped ∧
      wrapped = { bare with isList := true } ∧ wrapped ≠ bare := by
  let c := ofDecls Samples.library
  let t := FieldType.optional (.entity "Label")
  have single : (FieldDecl.fullType
      { name := "Labels", type := FieldType.wrap Samples.labelLayers t }).tagCount ≤ 1 := by decide
  obtain ⟨listed, moved⟩ := describeField_layers c "Volume" "Labels" Samples.labelLayers t none single
  obtain ⟨bare, described, relation, one⟩ : ∃ bare, c.describeField "Volume" "Labels"
      (.noted t [.tag { manyToMany := some "volume_label" }]) = .ok bare ∧ bare.isRelation = true ∧
        bare.isList = false := ⟨_, rfl, rfl, rfl⟩
  have several : Field.listed (Samples.labelLayers.any FieldType.Layer.isCollection) bare =
      { bare with isList := true } := if_pos (by rw [relation]; rfl)
  have wrapped : c.describeField "Volume" "Labels" (FieldType.wrap Samples.labelLayers t) =
      .ok { bare with isList := true } := by
    refine listed.trans ?_
    change (c.describeField "Volume" "Labels" (.noted t [.tag { manyToMany := some "volume_label" }])).map _ = _
    rw [described, Except.map, several]
  refine ⟨_, bare, wrapped, described, (moved _ (List.reverse_perm _).symm).symm.trans wrapped, rfl, ?_⟩
  intro same
  cases one.symm.trans (congrArg Field.isList same).symm

end RowQuery.Schema
