import Mathlib.Data.List.Nodup
import ComponentSurvey.Record.Naming

/-!
Records read back from their documents. Each class has a type for each of its fields; a record whose
fields have these types is found again in its document, field by field, and no null is in it.
-/

set_option autoImplicit false

namespace ComponentSurvey

inductive ValueType where
  | text
  | whole
  | flag
  | number
  | record : RecordClass → ValueType
  | list : ValueType → ValueType
  deriving DecidableEq, Repr

structure FieldType where
  type : ValueType
  optional : Bool
  deriving DecidableEq, Repr

namespace FieldType

def always (t : ValueType) : FieldType := ⟨t, false⟩

def maybe (t : ValueType) : FieldType := ⟨t, true⟩

end FieldType

namespace RecordClass

open FieldType (always maybe)

def types : RecordClass → List FieldType
  | .location => [always .whole, always .whole, always .whole, always .whole]
  | .parameter => [always .text, maybe .text, always .flag, maybe .text]
  | .component =>
    [always .text, always .text, always (.record .location), maybe .text, always (.list .text),
      always (.list .text), always (.list .text), always .whole]
  | .callable =>
    [always .text, always .text, always (.record .location), always (.list (.record .parameter)),
      maybe .text, always .flag, always .flag, always .whole, always (.list .text)]
  | .hook =>
    [always .text, always (.record .location), always .text, always (.list .text),
      maybe (.list .text)]
  | .importedName => [always .text, maybe .text, always .flag]
  | .importStatement =>
    [always .text, always .text, always (.record .location),
      always (.list (.record .importedName))]
  | .exportedName => [always .text, always .text, always (.record .location), always .text]
  | .property => [always .text, maybe .text, always .flag, always .flag]
  | .interface =>
    [always .text, always (.record .location), always (.list (.record .property)),
      always (.list .text)]
  | .typeAlias => [always .text, always .text, always (.record .location)]
  | .dependency => [always .text, always .text, always .text]
  | .metrics => [always .whole, always .whole, always .whole, always .whole, always .whole]
  | .pattern =>
    [always .text, always .text, always .number, always (.record .location), always (.list .text)]
  | .survey =>
    [always .text, always (.record .metrics), always (.list (.record .component)),
      always (.list (.record .callable)), always (.list (.record .hook)),
      always (.list (.record .importStatement)), always (.list (.record .exportedName)),
      always (.list (.record .interface)), always (.list (.record .typeAlias)),
      always (.list (.record .dependency)), always (.list (.record .pattern))]

theorem length_types (c : RecordClass) : c.types.length = c.keys.length := by
  cases c <;> rfl

def schema (c : RecordClass) : List (String × FieldType) := c.keys.zip c.types

end RecordClass

mutual
inductive Fits : ValueType → Content → Prop where
  | text (s : String) : Fits .text (.value (.string s))
  | whole (n : Int) : Fits .whole (.value (.number (.whole n)))
  | flag (b : Bool) : Fits .flag (.value (.bool b))
  | number (n : Number) : Fits .number (.value (.number n))
  | record (c : RecordClass) {xs : List Content} :
      FitsFields c.types xs → Fits (.record c) (.record c xs)
  | list {t : ValueType} {xs : List Content} : (∀ x ∈ xs, Fits t x) → Fits (.list t) (.list xs)
/-- The contents are of the types, one of each; where the type allows it there may be nothing. -/
inductive FitsFields : List FieldType → List Content → Prop where
  | nil : FitsFields [] []
  | given {f : FieldType} {fs : List FieldType} {x : Content} {xs : List Content} :
      Fits f.type x → FitsFields fs xs → FitsFields (f :: fs) (x :: xs)
  | absent {f : FieldType} {fs : List FieldType} {xs : List Content} :
      f.optional → FitsFields fs xs → FitsFields (f :: fs) (.value .null :: xs)
end

theorem Fits.isNothing {t : ValueType} {x : Content} (h : Fits t x) : x.isNothing = false := by
  cases h <;> rfl

namespace ValueType

def assembled? (given : List (String × Content)) :
    List (String × FieldType) → Option (List Content)
  | [] => some []
  | (k, f) :: schema =>
    ((given.lookup k).orElse fun _ => if f.optional then some .nothing else none).bind fun x =>
      (assembled? given schema).map (x :: ·)

mutual
/-- The content of a type that a document stands for. The fields of an object may come in any
order. -/
def read? : ValueType → Json → Option Content
  | .text, .string s => some (.value (.string s))
  | .whole, .number (.whole n) => some (.value (.number (.whole n)))
  | .flag, .bool b => some (.value (.bool b))
  | .number, .number n => some (.value (.number n))
  | .record c, .object js =>
    ((readFields? c.schema js).bind (assembled? · c.schema)).map (.record c)
  | .list t, .array js => (readItems? t js).map .list
  | _, _ => none
def readItems? (t : ValueType) : List Json → Option (List Content)
  | [] => some []
  | j :: js => (t.read? j).bind fun x => (readItems? t js).map (x :: ·)
def readFields? (schema : List (String × FieldType)) :
    List (String × Json) → Option (List (String × Content))
  | [] => some []
  | (k, j) :: js =>
    (schema.lookup k).bind fun f => (f.type.read? j).bind fun x =>
      (readFields? schema js).map ((k, x) :: ·)
end

end ValueType

namespace Content

mutual
/-- Induction over all parts of a content at once. -/
theorem by_parts {P : Content → Prop} (value : ∀ j, P (.value j))
    (list : ∀ xs, (∀ x ∈ xs, P x) → P (.list xs))
    (record : ∀ c xs, (∀ x ∈ xs, P x) → P (.record c xs)) (x : Content) : P x := by
  match x with
  | .value j => exact value j
  | .list xs => exact list xs (by_parts_list value list record xs)
  | .record c xs => exact record c xs (by_parts_list value list record xs)
theorem by_parts_list {P : Content → Prop} (value : ∀ j, P (.value j))
    (list : ∀ xs, (∀ x ∈ xs, P x) → P (.list xs))
    (record : ∀ c xs, (∀ x ∈ xs, P x) → P (.record c xs)) (xs : List Content) :
    ∀ x ∈ xs, P x := by
  match xs with
  | [] => exact fun x hx => absurd hx List.not_mem_nil
  | x :: xs =>
    exact List.forall_mem_cons.2
      ⟨by_parts value list record x, by_parts_list value list record xs⟩
end

theorem toJsonItems_eq (xs : List Content) : toJsonItems xs = xs.map toJson := by
  induction xs with
  | nil => rfl
  | cons x xs ih => rw [toJsonItems, ih, List.map_cons]

def named (ks : List String) (xs : List Content) : List (String × Content) :=
  (ks.zip xs).filter (!·.2.isNothing)

variable {ks : List String} {xs : List Content} {k : String} {x : Content}

theorem named_cons_of_isNothing (h : x.isNothing) : named (k :: ks) (x :: xs) = named ks xs := by
  simp [named, h]

theorem named_cons (h : x.isNothing = false) :
    named (k :: ks) (x :: xs) = (k, x) :: named ks xs := by
  simp [named, h]

theorem toJsonFields_cons (h : x.isNothing = false) :
    toJsonFields (k :: ks) (x :: xs) = (k, x.toJson) :: toJsonFields ks xs := by
  rw [toJsonFields, h, if_neg Bool.false_ne_true]

theorem toJsonFields_eq (ks : List String) (xs : List Content) :
    toJsonFields ks xs = (named ks xs).map fun e => (e.1, e.2.toJson) := by
  induction ks generalizing xs with
  | nil => cases xs <;> rfl
  | cons k ks ih =>
    cases xs with
    | nil => rfl
    | cons x xs =>
      by_cases hx : x.isNothing
      · rw [toJsonFields, if_pos hx, ih, named_cons_of_isNothing hx]
      · have hw : x.isNothing = false := by simpa using hx
        rw [toJsonFields_cons hw, ih, named_cons hw, List.map_cons]

theorem named_sublist (hl : ks.length = xs.length) :
    ((named ks xs).map (·.1)).Sublist ks := by
  have hs : ((named ks xs).map (·.1)).Sublist ((ks.zip xs).map (·.1)) := List.filter_sublist.map _
  rwa [List.map_fst_zip (Nat.le_of_eq hl)] at hs

theorem lookup_named (hn : ks.Nodup) (hl : ks.length = xs.length) (h : (k, x) ∈ ks.zip xs) :
    (named ks xs).lookup k = if x.isNothing then none else some x := by
  have hz : ((ks.zip xs).map (·.1)).Nodup := by rwa [List.map_fst_zip (Nat.le_of_eq hl)]
  have hx : (ks.zip xs).lookup k = some x := lookup_of_nodup_keys hz h
  by_cases hw : x.isNothing
  · rw [if_pos hw]
    refine List.lookup_eq_none_iff.2 fun e he => ?_
    obtain ⟨hm, he⟩ := List.mem_filter.1 he
    have hne : k ≠ e.1 := by
      rintro rfl
      rw [lookup_of_nodup_keys hz hm, Option.some.injEq] at hx
      simp [hx, hw] at he
    simpa using hne
  · rw [if_neg hw]
    exact lookup_of_nodup_keys ((named_sublist hl).nodup hn)
      (List.mem_filter.2 ⟨h, by simpa using hw⟩)

end Content

theorem RecordClass.lookup_schema (c : RecordClass) {k : String} {f : FieldType}
    (h : (k, f) ∈ c.keys.zip c.types) : c.schema.lookup k = some f := by
  have hn : (c.schema.map (·.1)).Nodup := by
    rw [schema, List.map_fst_zip (Nat.le_of_eq c.length_types.symm)]
    exact c.nodup_keys
  exact lookup_of_nodup_keys hn h

/-- Whatever stands in a field and is not nothing is of some type. -/
theorem FitsFields.fits_of_mem {fs : List FieldType} {xs : List Content} (h : FitsFields fs xs)
    {x : Content} (hx : x ∈ xs) (hw : x.isNothing = false) : ∃ t, Fits t x := by
  induction xs generalizing fs with
  | nil => cases hx
  | cons y xs ih =>
    cases h with
    | given hy hf =>
      rcases List.mem_cons.1 hx with rfl | hx
      · exact ⟨_, hy⟩
      · exact ih hf hx
    | absent _ hf =>
      rcases List.mem_cons.1 hx with rfl | hx
      · cases hw
      · exact ih hf hx

theorem FitsFields.length_eq {fs : List FieldType} {xs : List Content} (h : FitsFields fs xs) :
    fs.length = xs.length := by
  induction xs generalizing fs with
  | nil =>
    cases h
    rfl
  | cons x xs ih =>
    cases h with
    | given _ hf => rw [List.length_cons, ih hf, List.length_cons]
    | absent _ hf => rw [List.length_cons, ih hf, List.length_cons]

namespace FitsFields

open Content ValueType

variable {ks : List String} {fs : List FieldType} {xs : List Content}

/-- The named contents of a record are read from what is written of them, when each of its parts is
read from what is written of it. -/
theorem readFields?_toJsonFields {schema : List (String × FieldType)} (h : FitsFields fs xs)
    (hs : ∀ k f, (k, f) ∈ ks.zip fs → schema.lookup k = some f)
    (hr : ∀ x ∈ xs, ∀ t, Fits t x → t.read? x.toJson = some x) :
    readFields? schema (toJsonFields ks xs) = some (named ks xs) := by
  induction xs generalizing ks fs with
  | nil => cases ks <;> rfl
  | cons x xs ih =>
    cases ks with
    | nil => rfl
    | cons k ks =>
      have hxs (y : Content) (hy : y ∈ xs) := hr y (List.mem_cons_of_mem x hy)
      cases h with
      | @given f fs _ _ hx hf =>
        have hi := ih hf (fun l g hg => hs l g (List.mem_cons_of_mem _ hg)) hxs
        have hk : schema.lookup k = some f := hs k f List.mem_cons_self
        have hx' : f.type.read? x.toJson = some x := hr x List.mem_cons_self f.type hx
        rw [toJsonFields_cons hx.isNothing, readFields?, hk, Option.bind_some, hx',
          Option.bind_some, hi, Option.map_some, named_cons hx.isNothing]
      | absent _ hf =>
        exact ih hf (fun l g hg => hs l g (List.mem_cons_of_mem _ hg)) hxs

theorem assembled?_eq {given : List (String × Content)} (h : FitsFields fs xs)
    (hl : ks.length = fs.length)
    (hg : ∀ k x, (k, x) ∈ ks.zip xs → given.lookup k = if x.isNothing then none else some x) :
    assembled? given (ks.zip fs) = some xs := by
  induction xs generalizing ks fs with
  | nil =>
    cases h
    rw [List.zip_nil_right]
    rfl
  | cons x xs ih =>
    cases ks with
    | nil =>
      cases h <;> simp at hl
    | cons k ks =>
      have hk := hg k x List.mem_cons_self
      have hgs (l : String) (y : Content) (hy : (l, y) ∈ ks.zip xs) :=
        hg l y (List.mem_cons_of_mem _ hy)
      cases h with
      | given hx hf =>
        rw [hx.isNothing, if_neg Bool.false_ne_true] at hk
        rw [List.zip_cons_cons, assembled?, hk, ih hf (Nat.succ_inj.1 hl) hgs]
        rfl
      | absent ho hf =>
        have hn : (value .null).isNothing := rfl
        rw [if_pos hn] at hk
        rw [List.zip_cons_cons, assembled?, hk, ih hf (Nat.succ_inj.1 hl) hgs, if_pos ho]
        rfl

end FitsFields

theorem Fits.read?_toJson {t : ValueType} {x : Content} (h : Fits t x) :
    t.read? x.toJson = some x := by
  induction x using Content.by_parts generalizing t with
  | value j => cases h <;> rfl
  | list xs ih =>
    cases h with
    | @list t _ hxs =>
      have hr (ys : List Content) (hy : ∀ y ∈ ys, y ∈ xs) :
          t.readItems? (ys.map Content.toJson) = some ys := by
        induction ys with
        | nil => rfl
        | cons y ys ihs =>
          obtain ⟨hyx, hys⟩ := List.forall_mem_cons.1 hy
          simp [ValueType.readItems?, ih y hyx (hxs y hyx), ihs hys]
      rw [Content.toJson, Content.toJsonItems_eq, ValueType.read?, hr xs fun _ => id]
      rfl
  | record c xs ih =>
    cases h with
    | record _ hf =>
      have hr := hf.readFields?_toJsonFields (fun k f => c.lookup_schema)
        fun x hx t => ih x hx
      have hl : c.keys.length = xs.length := by rw [← c.length_types, hf.length_eq]
      have ha := hf.assembled?_eq c.length_types.symm
        fun k x => Content.lookup_named c.nodup_keys hl
      rw [Content.toJson, ValueType.read?, hr, Option.bind_some, RecordClass.schema, ha]
      rfl

namespace Json

mutual
def hasNull : Json → Bool
  | .null => true
  | .array js => anyItem js
  | .object fs => anyField fs
  | _ => false
def anyItem : List Json → Bool
  | [] => false
  | j :: js => j.hasNull || anyItem js
def anyField : List (String × Json) → Bool
  | [] => false
  | (_, j) :: fs => j.hasNull || anyField fs
end

theorem anyItem_eq (js : List Json) : anyItem js = js.any hasNull := by
  induction js with
  | nil => rfl
  | cons j js ih => rw [anyItem, ih, List.any_cons]

theorem anyField_eq (fs : List (String × Json)) : anyField fs = fs.any (·.2.hasNull) := by
  induction fs with
  | nil => rfl
  | cons f fs ih => rw [anyField, ih, List.any_cons]

end Json

theorem Fits.hasNull_toJson {t : ValueType} {x : Content} (h : Fits t x) :
    x.toJson.hasNull = false := by
  induction x using Content.by_parts generalizing t with
  | value j => cases h <;> rfl
  | list xs ih =>
    cases h with
    | list hxs =>
      rw [Content.toJson, Json.hasNull, Json.anyItem_eq, Content.toJsonItems_eq, List.any_map,
        List.any_eq_false]
      intro x hx
      simpa using ih x hx (hxs x hx)
  | record c xs ih =>
    cases h with
    | record _ hf =>
      rw [Content.toJson, Json.hasNull, Json.anyField_eq, Content.toJsonFields_eq, List.any_map,
        List.any_eq_false]
      rintro ⟨k, x⟩ hx
      obtain ⟨hz, hw⟩ := List.mem_filter.1 hx
      obtain ⟨t, ht⟩ := hf.fits_of_mem (List.of_mem_zip hz).2 (by simpa using hw)
      simpa using ih x (List.of_mem_zip hz).2 ht

end ComponentSurvey
