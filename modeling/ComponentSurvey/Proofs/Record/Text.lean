import ComponentSurvey.Proofs.Json.Plain
import ComponentSurvey.Proofs.Json.Reading
import ComponentSurvey.Proofs.Record.Faithful
import ComponentSurvey.Text.Blank

/-!
Texts of surveys. Whatever the indent, the text of a survey is plain ASCII and stands for the document
of the survey, and the document tells the survey.
-/

set_option autoImplicit false

namespace ComponentSurvey

open Content

theorem Fits.toJson_inj {t : ValueType} {x y : Content} (hx : Fits t x) (hy : Fits t y)
    (h : x.toJson = y.toJson) : x = y := by
  have hr := hx.read?_toJson
  rw [h, hy.read?_toJson] at hr
  exact (Option.some.inj hr).symm

theorem Content.isNothing_iff {x : Content} : x.isNothing ↔ x = .nothing := by
  cases x with
  | value j => cases j <;> simp [isNothing, nothing]
  | _ => simp [isNothing, nothing]

theorem Content.keys_toJsonFields {ks : List String} {xs : List Content}
    (hl : ks.length = xs.length) : ((toJsonFields ks xs).map (·.1)).Sublist ks := by
  rw [toJsonFields_eq, List.map_map]
  exact named_sublist hl

/-- Records of one class are told by their objects when each of their parts is told by its
document. -/
theorem Content.toJsonFields_inj {ks : List String} {xs ys : List Content} (hn : ks.Nodup)
    (hx : ks.length = xs.length) (hy : ks.length = ys.length)
    (ih : ∀ p ∈ xs.zip ys, p.1.toJson = p.2.toJson → p.1 = p.2)
    (h : toJsonFields ks xs = toJsonFields ks ys) : xs = ys := by
  induction ks generalizing xs ys with
  | nil =>
    rw [List.eq_nil_of_length_eq_zero hx.symm, List.eq_nil_of_length_eq_zero hy.symm]
  | cons k ks ihk =>
    obtain ⟨x, xs, rfl⟩ := List.exists_cons_of_length_eq_add_one hx.symm
    obtain ⟨y, ys, rfl⟩ := List.exists_cons_of_length_eq_add_one hy.symm
    obtain ⟨hk, hks⟩ := List.nodup_cons.1 hn
    have hx' := Nat.succ_inj.1 hx
    have hy' := Nat.succ_inj.1 hy
    obtain ⟨ihx, ihs⟩ := List.forall_mem_cons.1 ih
    have hi := ihk hks hx' hy' ihs
    -- A field that only one of the records has is a key of one object only.
    have hne {zs ws : List Content} (hz : ks.length = zs.length) (w : Json) :
        toJsonFields ks zs ≠ (k, w) :: toJsonFields ks ws := fun he =>
      hk ((keys_toJsonFields hz).subset (he ▸ List.mem_cons_self))
    rw [toJsonFields, toJsonFields] at h
    split_ifs at h with h₁ h₂ h₂
    · rw [isNothing_iff.1 h₁, isNothing_iff.1 h₂, hi h]
    · exact absurd h (hne hx' _)
    · exact absurd h.symm (hne hy' _)
    · obtain ⟨hv, hf⟩ := List.cons_eq_cons.1 h
      exact congrArg₂ List.cons (ihx (Prod.ext_iff.1 hv).2) (hi hf)

theorem Pattern.toJson_injective : Function.Injective Pattern.toJson := by
  intro p q h
  refine content_injective (congrArg (Content.record .pattern)
    (toJsonFields_inj RecordClass.pattern.nodup_keys rfl rfl ?_ (Json.object.inj h)))
  simp only [List.zip_cons_cons, List.zip_nil_right, List.forall_mem_cons]
  exact ⟨(Fits.text _).toJson_inj (.text _), (Fits.text _).toJson_inj (.text _),
    congrArg Content.value, p.location.fits.toJson_inj q.location.fits,
    (Fits.texts _).toJson_inj (.texts _), List.forall_mem_nil _⟩

theorem Survey.toJson_injective : Function.Injective Survey.toJson := by
  intro s t h
  have hl {α : Type} {f : α → Content} {t : ValueType} (hf : ∀ a, Fits t (f a)) (as bs : List α) :=
    (Fits.ofList fun a (_ : a ∈ as) => hf a).toJson_inj (.ofList fun a (_ : a ∈ bs) => hf a)
  -- The confidence of a pattern may be of any type, so patterns are told apart by themselves.
  have hp (h : (ofList Pattern.content s.patterns).toJson =
      (ofList Pattern.content t.patterns).toJson) :
      ofList Pattern.content s.patterns = ofList Pattern.content t.patterns := by
    simp only [ofList, Content.toJson, toJsonItems_eq, List.map_map, Json.array.injEq] at h
    rw [Pattern.toJson_injective.list_map h]
  refine content_injective (congrArg (Content.record .survey)
    (toJsonFields_inj RecordClass.survey.nodup_keys rfl rfl ?_ (Json.object.inj h)))
  simp only [List.zip_cons_cons, List.zip_nil_right, List.forall_mem_cons]
  exact ⟨(Fits.text _).toJson_inj (.text _), s.complexity.fits.toJson_inj t.complexity.fits,
    hl Component.fits _ _, hl Callable.fits _ _, hl Hook.fits _ _, hl Import.fits _ _,
    hl Export.fits _ _, hl Interface.fits _ _, hl TypeAlias.fits _ _, hl Dependency.fits _ _, hp,
    List.forall_mem_nil _⟩

theorem Text.IsPrintableAscii.isLineBreak {c : Char} (h : IsPrintableAscii c) :
    Text.isLineBreak c = false := by
  obtain ⟨hl, hh⟩ := h
  simp only [Text.isLineBreak, Bool.or_eq_false_iff, Bool.and_eq_false_iff, decide_eq_false_iff_not,
    beq_eq_false_iff_ne]
  omega

theorem Json.isAscii_written (indent : Option Int) (j : Json) :
    ∀ c ∈ (j.written indent).toList, c.toNat < 128 := by
  intro c hc
  rcases isPlain_written indent j c hc with h | ⟨rfl, -⟩
  · exact Nat.lt_of_le_of_lt h.2 (by decide)
  · decide

theorem Json.isLineBreak_written (j : Json) :
    ∀ c ∈ (j.written none).toList, Text.isLineBreak c = false := by
  intro c hc
  rcases isPlain_written none j c hc with h | ⟨-, h⟩
  · exact h.isLineBreak
  · exact absurd rfl h

/-- What is written of a survey is ASCII, is one line where there is no indent, stands for the
document of the survey in the standard grammar and is read as this document, so that the indent makes
no difference for what is read. Surveys of one text are one survey. Of the numbers it is assumed that
their decimals read back as the numbers. -/
theorem Survey.written_decodes (s : Survey) (hs : ∀ x ∈ s.toJson.reals, x.IsReadBack) :
    (∀ indent : Option Int,
      (∀ c ∈ (s.toJson.written indent).toList, c.toNat < 128) ∧
        (indent = none → ∀ c ∈ (s.toJson.written indent).toList, Text.isLineBreak c = false) ∧
        Json.Grammar.Document (s.toJson.written indent) s.toJson ∧
        Json.parse? (s.toJson.written indent) = some s.toJson) ∧
      (∀ i j : Option Int,
        Json.parse? (s.toJson.written i) = Json.parse? (s.toJson.written j)) ∧
      ∀ t : Survey, (∀ x ∈ t.toJson.reals, x.IsReadBack) →
        ∀ i j : Option Int, s.toJson.written i = t.toJson.written j → s = t := by
  have hparse {t : Survey} (ht : ∀ x ∈ t.toJson.reals, x.IsReadBack) (i : Option Int) :
      Json.parse? (t.toJson.written i) = some t.toJson :=
    Json.parse?_of_document (Json.document_written i ht)
  refine ⟨fun indent => ⟨Json.isAscii_written indent _, ?_, Json.document_written indent hs,
    hparse hs indent⟩, ?_, ?_⟩
  · rintro rfl
    exact Json.isLineBreak_written _
  · intro i j
    rw [hparse hs i, hparse hs j]
  · intro t ht i j h
    have hj := hparse hs i
    rw [h, hparse ht j, Option.some.injEq] at hj
    exact toJson_injective hj.symm

/-- A survey with characters to be escaped and a number that is not whole. -/
def Survey.escaping : Survey where
  filePath := "\"a\"\n\u2028.tsx"
  complexity := {}
  patterns := [{
    type := "provider", name := "é", confidence := .number (.decimal 9 (-1)), location := default }]

theorem Survey.written_decodes_escaping :
    (∀ x ∈ escaping.toJson.reals, x.IsReadBack) ∧
      Json.parse? (escaping.toJson.written (some 2)) = some escaping.toJson := by
  have h : ∀ x ∈ escaping.toJson.reals, x.IsReadBack := by decide +kernel
  exact ⟨h, ((written_decodes escaping h).1 (some 2)).2.2.2⟩

end ComponentSurvey
