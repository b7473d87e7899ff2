import Mathlib.Data.List.Perm.Subperm
import ComponentSurvey.Proofs.Record.Reading
import ComponentSurvey.Record.Document

/-!
Equal records have equal documents, and equal documents come from equal records. Fields of documents
are compared by their keys, in any order; a field without a value has no key.
-/

set_option autoImplicit false

namespace ComponentSurvey

namespace Json

variable {fs gs : List (String × Json)} {k : String}

theorem subset_keys_of_sameFields (h : sameFields fs gs) :
    fs.map (·.1) ⊆ gs.map (·.1) := by
  induction fs with
  | nil => exact List.nil_subset _
  | cons f fs ih =>
    obtain ⟨k, v⟩ := f
    simp only [sameFields, Bool.and_eq_true, Option.any_eq_true] at h
    obtain ⟨⟨w, hw, -⟩, hs⟩ := h
    obtain ⟨before, after, rfl, -⟩ := List.lookup_eq_some_iff.1 hw
    refine List.cons_subset.2 ⟨?_, ih hs⟩
    simp

theorem length_le_of_sameFields (hn : (fs.map (·.1)).Nodup) (h : sameFields fs gs) :
    fs.length ≤ gs.length := by
  have hl := (hn.subperm (subset_keys_of_sameFields h)).length_le
  rwa [List.length_map, List.length_map] at hl

theorem sameFields_cons_right (h : k ∉ fs.map (·.1)) (w : Json) :
    sameFields fs ((k, w) :: gs) = sameFields fs gs := by
  induction fs with
  | nil => rfl
  | cons f fs ih =>
    obtain ⟨l, v⟩ := f
    rw [List.map_cons, List.mem_cons, not_or] at h
    have hl : (l == k) = false := beq_eq_false_iff_ne.2 fun hk => h.1 hk.symm
    rw [sameFields, ih h.2, List.lookup_cons, hl, sameFields]

theorem same_object (fs gs : List (String × Json)) :
    (object fs).same (.object gs) = (fs.length == gs.length && sameFields fs gs) := rfl

theorem same_object_cons (h : k ∉ fs.map (·.1)) (v w : Json) :
    (object ((k, v) :: fs)).same (.object ((k, w) :: gs)) =
      (v.same w && (object fs).same (.object gs)) := by
  have hl : (((k, v) :: fs).length == ((k, w) :: gs).length) = (fs.length == gs.length) := by
    simp
  rw [same_object, sameFields, List.lookup_cons_self, Option.any_some, sameFields_cons_right h, hl,
    same_object, Bool.and_left_comm]

theorem same_object_left (h : k ∉ gs.map (·.1)) (v : Json) :
    (object ((k, v) :: fs)).same (.object gs) = false := by
  have hk : gs.lookup k = none := by
    refine List.lookup_eq_none_iff.2 fun e he => ?_
    have hne : k ≠ e.1 := fun hk => h (hk ▸ List.mem_map_of_mem he)
    simpa using hne
  simp [same_object, sameFields, hk]

theorem same_object_right (hn : (fs.map (·.1)).Nodup) (h : k ∉ fs.map (·.1)) (w : Json) :
    (object fs).same (.object ((k, w) :: gs)) = false := by
  rw [same_object, sameFields_cons_right h, Bool.and_eq_false_iff]
  -- All keys of the first object are among the others, so there is room for no further one.
  by_cases hs : sameFields fs gs
  · have hl := length_le_of_sameFields hn hs
    left
    simp
    omega
  · right
    simpa using hs

end Json

theorem Fits.same_nothing {t : ValueType} {x : Content} (h : Fits t x) :
    x.same .nothing = false := by
  cases h <;> rfl

theorem Fits.nothing_same {t : ValueType} {x : Content} (h : Fits t x) :
    Content.nothing.same x = false := by
  cases h <;> rfl

namespace Content

theorem sameItems_toJsonItems {xs ys : List Content}
    (h : ∀ x ∈ xs, ∀ y ∈ ys, x.toJson.same y.toJson = x.same y) :
    Json.sameItems (toJsonItems xs) (toJsonItems ys) = sameItems xs ys := by
  induction xs generalizing ys with
  | nil => cases ys <;> rfl
  | cons x xs ih =>
    cases ys with
    | nil => rfl
    | cons y ys =>
      have hi := ih fun z hz w hw => h z (List.mem_cons_of_mem x hz) w (List.mem_cons_of_mem y hw)
      rw [toJsonItems, toJsonItems, Json.sameItems, h x List.mem_cons_self y List.mem_cons_self,
        hi, sameItems]

end Content

namespace FitsFields

open Content

variable {ks : List String} {fs : List FieldType} {xs ys : List Content}

theorem not_mem_toJsonFields {k : String} (h : FitsFields fs xs) (hl : ks.length = fs.length)
    (hk : k ∉ ks) : k ∉ (toJsonFields ks xs).map (·.1) := by
  intro hm
  rw [toJsonFields_eq, List.map_map] at hm
  exact hk ((named_sublist (hl.trans h.length_eq)).subset hm)

theorem nodup_toJsonFields (h : FitsFields fs xs) (hl : ks.length = fs.length) (hn : ks.Nodup) :
    ((toJsonFields ks xs).map (·.1)).Nodup := by
  rw [toJsonFields_eq, List.map_map]
  exact (named_sublist (hl.trans h.length_eq)).nodup hn

/-- Records are the same when their objects are, if this holds of their parts. -/
theorem same_toJsonFields (hn : ks.Nodup) (hl : ks.length = fs.length) (hx : FitsFields fs xs)
    (hy : FitsFields fs ys)
    (ih : ∀ x ∈ xs, ∀ t y, Fits t x → Fits t y → x.toJson.same y.toJson = x.same y) :
    (Json.object (toJsonFields ks xs)).same (.object (toJsonFields ks ys)) = sameItems xs ys := by
  induction xs generalizing ks fs ys with
  | nil =>
    cases hx
    cases hy
    cases ks <;> rfl
  | cons x xs ihs =>
    cases ks with
    | nil => cases hx <;> simp at hl
    | cons k ks =>
      obtain ⟨hk, hks⟩ := List.nodup_cons.1 hn
      have ihx := ih x List.mem_cons_self
      have ihxs (z : Content) (hz : z ∈ xs) := ih z (List.mem_cons_of_mem x hz)
      cases hx with
      | given hx hxs =>
        have hkx := hxs.not_mem_toJsonFields (Nat.succ_inj.1 hl) hk
        cases hy with
        | given hy hys =>
          have hi := ihs hks (Nat.succ_inj.1 hl) hxs hys ihxs
          rw [toJsonFields_cons hx.isNothing, toJsonFields_cons hy.isNothing,
            Json.same_object_cons hkx, ihx _ _ hx hy, hi, sameItems]
        -- A field that only one of the records has is a key of one object: the first object looks
        -- for it in vain, or the second one has more keys than the first.
        | absent _ hys =>
          have hky := hys.not_mem_toJsonFields (Nat.succ_inj.1 hl) hk
          rw [toJsonFields_cons hx.isNothing, sameItems, ← nothing, hx.same_nothing,
            Bool.false_and]
          exact Json.same_object_left hky x.toJson
      | absent _ hxs =>
        have hkx := hxs.not_mem_toJsonFields (Nat.succ_inj.1 hl) hk
        cases hy with
        | given hy hys =>
          have hxn := hxs.nodup_toJsonFields (Nat.succ_inj.1 hl) hks
          rw [toJsonFields_cons hy.isNothing, sameItems, ← nothing, hy.nothing_same,
            Bool.false_and]
          exact Json.same_object_right hxn hkx _
        | absent _ hys =>
          exact ihs hks (Nat.succ_inj.1 hl) hxs hys ihxs

end FitsFields

theorem Fits.same_toJson {t : ValueType} {x y : Content} (hx : Fits t x) (hy : Fits t y) :
    x.toJson.same y.toJson = x.same y := by
  induction x using Content.by_parts generalizing t y with
  | value j =>
    cases hx <;> cases hy <;> rfl
  | list xs ih =>
    cases hx with
    | list hxs =>
      cases hy with
      | list hys =>
        rw [Content.toJson, Content.toJson, Json.same, Content.same]
        exact Content.sameItems_toJsonItems fun x hx y hy => ih x hx (hxs x hx) (hys y hy)
  | record c xs ih =>
    cases hx with
    | record _ hxs =>
      cases hy with
      | record _ hys =>
        rw [Content.toJson, Content.toJson, hxs.same_toJsonFields c.nodup_keys
          c.length_types.symm hys fun x hx t y => ih x hx, Content.same, beq_self_eq_true,
          Bool.true_and]

end ComponentSurvey
