import ComponentSurvey.Proofs.Json.Writing
import ComponentSurvey.Proofs.Record.Faithful
import ComponentSurvey.Proofs.Survey.Confidence

/-!
Real numbers in the documents of surveys. The confidences of patterns are the only ones, and the usual
confidences read back from their decimals.
-/

set_option autoImplicit false

namespace ComponentSurvey

/-- Nothing of the type holds a number that is not whole. -/
def ValueType.isWhole : ValueType → Bool
  | .number => false
  | .record c => c != .pattern && c != .survey
  | .list t => t.isWhole
  | _ => true

theorem RecordClass.isWhole_types {c : RecordClass} (h : (ValueType.record c).isWhole) :
    ∀ f ∈ c.types, f.type.isWhole := by
  revert h
  cases c <;> decide

/-- A field of a record is of its type, unless nothing stands in it. -/
theorem FitsFields.exists_fits {fs : List FieldType} {xs : List Content} (h : FitsFields fs xs)
    {x : Content} (hx : x ∈ xs) : x = .nothing ∨ ∃ f ∈ fs, Fits f.type x := by
  induction xs generalizing fs with
  | nil => cases hx
  | cons y ys ih =>
    have hlift {f : FieldType} {fs : List FieldType} (hs : FitsFields fs ys) (hy : x ∈ ys) :
        x = .nothing ∨ ∃ g ∈ f :: fs, Fits g.type x :=
      (ih hs hy).imp_right fun ⟨g, hg, hx⟩ => ⟨g, List.mem_cons_of_mem f hg, hx⟩
    cases h with
    | given hy hs =>
      rcases List.mem_cons.1 hx with rfl | hx
      · exact .inr ⟨_, List.mem_cons_self, hy⟩
      · exact hlift hs hx
    | absent _ hs =>
      rcases List.mem_cons.1 hx with rfl | hx
      · exact .inl rfl
      · exact hlift hs hx

namespace Content

theorem mem_reals_list {xs : List Content} {x : Binary64}
    (h : x ∈ (list xs).toJson.reals) : ∃ c ∈ xs, x ∈ c.toJson.reals := by
  rw [toJson, toJsonItems_eq, Json.reals, Json.realsOfItems_eq, List.flatMap_map] at h
  exact List.mem_flatMap.1 h

theorem mem_reals_record {rc : RecordClass} {xs : List Content} {x : Binary64}
    (h : x ∈ (record rc xs).toJson.reals) : ∃ c ∈ xs, x ∈ c.toJson.reals := by
  rw [toJson, toJsonFields_eq, Json.reals, Json.realsOfFields_eq, List.flatMap_map] at h
  obtain ⟨⟨k, c⟩, hc, hx⟩ := List.mem_flatMap.1 h
  exact ⟨c, (List.of_mem_zip (List.mem_of_mem_filter hc)).2, hx⟩

end Content

theorem Fits.not_mem_reals {t : ValueType} {c : Content} (h : Fits t c) (ht : t.isWhole)
    (x : Binary64) : x ∉ c.toJson.reals := by
  induction c using Content.by_parts generalizing t with
  | value j =>
    cases h with
    | number n => cases ht
    | _ => exact List.not_mem_nil
  | list xs ih =>
    intro hx
    obtain ⟨c, hc, hx⟩ := Content.mem_reals_list hx
    cases h with
    | list hxs => exact ih c hc (hxs c hc) ht hx
  | record rc xs ih =>
    intro hx
    obtain ⟨c, hc, hx⟩ := Content.mem_reals_record hx
    cases h with
    | record _ hf =>
      rcases hf.exists_fits hc with rfl | ⟨f, hf, hfits⟩
      · exact List.not_mem_nil hx
      · exact ih c hc hfits (RecordClass.isWhole_types ht f hf) hx

theorem Pattern.mem_reals {p : Pattern} {x : Binary64} (h : x ∈ p.toJson.reals) :
    x ∈ p.confidence.reals := by
  obtain ⟨c, hc, hx⟩ := Content.mem_reals_record h
  simp only [List.mem_cons, List.not_mem_nil, or_false] at hc
  rcases hc with rfl | rfl | rfl | rfl | rfl
  · exact absurd hx ((Fits.text _).not_mem_reals rfl x)
  · exact absurd hx ((Fits.text _).not_mem_reals rfl x)
  · exact hx
  · exact absurd hx (p.location.fits.not_mem_reals rfl x)
  · exact absurd hx ((Fits.texts _).not_mem_reals rfl x)

/-- The real numbers in the document of a survey are the confidences of its patterns. -/
theorem Survey.mem_reals {s : Survey} {x : Binary64} (h : x ∈ s.toJson.reals) :
    ∃ p ∈ s.patterns, x ∈ p.confidence.reals := by
  have hl {α : Type} {f : α → Content} {t : ValueType} (hf : ∀ a, Fits t (f a)) (ht : t.isWhole)
      (as : List α) : x ∉ (Content.ofList f as).toJson.reals :=
    (Fits.ofList fun a (_ : a ∈ as) => hf a).not_mem_reals ht x
  obtain ⟨c, hc, hx⟩ := Content.mem_reals_record h
  simp only [List.mem_cons, List.not_mem_nil, or_false] at hc
  rcases hc with rfl | rfl | rfl | rfl | rfl | rfl | rfl | rfl | rfl | rfl | rfl
  · exact absurd hx ((Fits.text _).not_mem_reals rfl x)
  · exact absurd hx (s.complexity.fits.not_mem_reals rfl x)
  · exact absurd hx (hl Component.fits rfl _)
  · exact absurd hx (hl Callable.fits rfl _)
  · exact absurd hx (hl Hook.fits rfl _)
  · exact absurd hx (hl Import.fits rfl _)
  · exact absurd hx (hl Export.fits rfl _)
  · exact absurd hx (hl Interface.fits rfl _)
  · exact absurd hx (hl TypeAlias.fits rfl _)
  · exact absurd hx (hl Dependency.fits rfl _)
  · obtain ⟨d, hd, hx⟩ := Content.mem_reals_list hx
    obtain ⟨p, hp, rfl⟩ := List.mem_map.1 hd
    exact ⟨p, hp, Pattern.mem_reals hx⟩

theorem PatternKind.isReadBack_usualWeight (k : PatternKind) :
    ∀ x ∈ k.usualWeight.reals, x.IsReadBack := by
  cases k <;> decide +kernel

/-- Whatever stands in a source, the document of its survey under the usual weights reads back. -/
theorem Survey.isReadBack_of_usual {path : String} {source : Source} {t : Tree} {v : Survey}
    (h : ofSource [] path source t = .ok v) : ∀ x ∈ v.toJson.reals, x.IsReadBack := by
  intro x hx
  obtain ⟨p, hp, hx⟩ := mem_reals hx
  obtain ⟨k, -, hweight⟩ := weighed_of_mem h hp
  rw [hweight] at hx
  exact k.isReadBack_usualWeight x hx

end ComponentSurvey
