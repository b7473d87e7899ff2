import Mathlib.Data.List.Basic
import ComponentSurvey.Proofs.Record.Equality

/-!
Every record that a survey makes has fields of the declared types, so its document says everything
that the record says: it can be read back, and it is the same document as another one just when the
records are the same.
-/

set_option autoImplicit false

namespace ComponentSurvey

open Content

variable {α : Type} {f : α → Content} {t : ValueType} {fs : List FieldType} {x : Content}
  {xs : List Content}

theorem Fits.ofList {as : List α} (h : ∀ a ∈ as, Fits t (f a)) :
    Fits (.list t) (ofList f as) := by
  refine .list fun x hx => ?_
  obtain ⟨a, ha, rfl⟩ := List.mem_map.1 hx
  exact h a ha

theorem Fits.texts (ss : List String) : Fits (.list .text) (texts ss) := ofList fun s _ => .text s

theorem FitsFields.ofOption (h : ∀ a, Fits t (f a)) (o : Option α) (hs : FitsFields fs xs) :
    FitsFields (.maybe t :: fs) (ofOption f o :: xs) := by
  cases o with
  | none => exact .absent rfl hs
  | some a => exact .given (h a) hs

theorem Location.fits (l : Location) : Fits (.record .location) l.content :=
  .record _ (.given (.whole _) (.given (.whole _) (.given (.whole _) (.given (.whole _) .nil))))

theorem Parameter.fits (p : Parameter) : Fits (.record .parameter) p.content :=
  .record _ (.given (.text _) (.ofOption .text _ (.given (.flag _) (.ofOption .text _ .nil))))

theorem Component.fits (c : Component) : Fits (.record .component) c.content :=
  .record _ (.given (.text _) (.given (.text _) (.given c.location.fits (.ofOption .text _
    (.given (.texts _) (.given (.texts _) (.given (.texts _) (.given (.whole _) .nil))))))))

theorem Callable.fits (c : Callable) : Fits (.record .callable) c.content :=
  .record _ (.given (.text _) (.given (.text _) (.given c.location.fits
    (.given (.ofList fun p _ => p.fits) (.ofOption .text _ (.given (.flag _) (.given (.flag _)
      (.given (.whole _) (.given (.texts _) .nil)))))))))

theorem Hook.fits (h : Hook) : Fits (.record .hook) h.content :=
  .record _ (.given (.text _) (.given h.location.fits (.given (.text _) (.given (.texts _)
    (.ofOption .texts _ .nil)))))

theorem ImportedName.fits (n : ImportedName) : Fits (.record .importedName) n.content :=
  .record _ (.given (.text _) (.ofOption .text _ (.given (.flag _) .nil)))

theorem Import.fits (i : Import) : Fits (.record .importStatement) i.content :=
  .record _ (.given (.text _) (.given (.text _) (.given i.location.fits
    (.given (.ofList fun n _ => n.fits) .nil))))

theorem Export.fits (e : Export) : Fits (.record .exportedName) e.content :=
  .record _ (.given (.text _) (.given (.text _) (.given e.location.fits (.given (.text _) .nil))))

theorem Property.fits (p : Property) : Fits (.record .property) p.content :=
  .record _ (.given (.text _) (.ofOption .text _ (.given (.flag _) (.given (.flag _) .nil))))

theorem Interface.fits (i : Interface) : Fits (.record .interface) i.content :=
  .record _ (.given (.text _) (.given i.location.fits (.given (.ofList fun p _ => p.fits)
    (.given (.texts _) .nil))))

theorem TypeAlias.fits (t : TypeAlias) : Fits (.record .typeAlias) t.content :=
  .record _ (.given (.text _) (.given (.text _) (.given t.location.fits .nil)))

theorem Dependency.fits (d : Dependency) : Fits (.record .dependency) d.content :=
  .record _ (.given (.text _) (.given (.text _) (.given (.text _) .nil)))

theorem Metrics.fits (m : Metrics) : Fits (.record .metrics) m.content :=
  .record _ (.given (.whole _) (.given (.whole _) (.given (.whole _) (.given (.whole _)
    (.given (.whole _) .nil)))))

def Pattern.IsTyped (p : Pattern) : Prop := ∃ n, p.confidence = .number n

theorem Pattern.fits {p : Pattern} (h : p.IsTyped) : Fits (.record .pattern) p.content := by
  obtain ⟨n, hn⟩ := h
  have hc : Fits .number (.value p.confidence) := hn ▸ .number n
  exact .record _ (.given (.text _) (.given (.text _) (.given hc (.given p.location.fits
    (.given (.texts _) .nil)))))

theorem Survey.fits {s : Survey} (h : ∀ p ∈ s.patterns, p.IsTyped) :
    Fits (.record .survey) s.content :=
  .record _ (.given (.text _) (.given s.complexity.fits (.given (.ofList fun r _ => r.fits)
    (.given (.ofList fun r _ => r.fits) (.given (.ofList fun r _ => r.fits)
      (.given (.ofList fun r _ => r.fits) (.given (.ofList fun r _ => r.fits)
        (.given (.ofList fun r _ => r.fits) (.given (.ofList fun r _ => r.fits)
          (.given (.ofList fun r _ => r.fits)
            (.given (.ofList fun p hp => Pattern.fits (h p hp)) .nil)))))))))))

namespace Record

def recordClass : Record → RecordClass
  | .location _ => .location
  | .parameter _ => .parameter
  | .component _ => .component
  | .callable _ => .callable
  | .hook _ => .hook
  | .importedName _ => .importedName
  | .importStatement _ => .importStatement
  | .exportedName _ => .exportedName
  | .property _ => .property
  | .interface _ => .interface
  | .typeAlias _ => .typeAlias
  | .dependency _ => .dependency
  | .metrics _ => .metrics
  | .pattern _ => .pattern
  | .survey _ => .survey

/-- Confidences are numbers; all other fields have no choice. -/
def IsTyped : Record → Prop
  | .pattern p => p.IsTyped
  | .survey s => ∀ p ∈ s.patterns, p.IsTyped
  | _ => True

theorem fits {r : Record} (h : r.IsTyped) : Fits (.record r.recordClass) r.content := by
  cases r with
  | location r => exact r.fits
  | parameter r => exact r.fits
  | component r => exact r.fits
  | callable r => exact r.fits
  | hook r => exact r.fits
  | importedName r => exact r.fits
  | importStatement r => exact r.fits
  | exportedName r => exact r.fits
  | property r => exact r.fits
  | interface r => exact r.fits
  | typeAlias r => exact r.fits
  | dependency r => exact r.fits
  | metrics r => exact r.fits
  | pattern r => exact Pattern.fits h
  | survey r => exact Survey.fits h

end Record

namespace Content

@[simp] theorem text_inj {s t : String} : text s = text t ↔ s = t := by simp [text]

@[simp] theorem whole_inj {m n : Int} : whole m = whole n ↔ m = n := by simp [whole, Json.whole]

@[simp] theorem flag_inj {a b : Bool} : flag a = flag b ↔ a = b := by simp [flag]

theorem ofList_injective (hf : Function.Injective f) : Function.Injective (ofList f) := by
  intro as bs h
  exact hf.list_map (by simpa [ofList] using h)

@[simp] theorem texts_inj {ss ts : List String} : texts ss = texts ts ↔ ss = ts :=
  (ofList_injective fun _ _ => text_inj.1).eq_iff

theorem ofOption_injective (hf : Function.Injective f) (hn : ∀ a, f a ≠ nothing) :
    Function.Injective (ofOption f) := by
  intro a b h
  cases a with
  | none =>
    cases b with
    | none => rfl
    | some b => exact absurd h.symm (hn b)
  | some a =>
    cases b with
    | none => exact absurd h (hn a)
    | some b => exact congrArg some (hf h)

@[simp] theorem ofOption_text_inj {s t : Option String} :
    ofOption text s = ofOption text t ↔ s = t :=
  (ofOption_injective (fun _ _ => text_inj.1) fun s => by simp [text, nothing]).eq_iff

@[simp] theorem ofOption_texts_inj {ss ts : Option (List String)} :
    ofOption texts ss = ofOption texts ts ↔ ss = ts :=
  (ofOption_injective (fun _ _ => texts_inj.1) fun ss => by simp [texts, nothing]).eq_iff

end Content

theorem Location.content_injective : Function.Injective Location.content := by
  rintro ⟨⟩ ⟨⟩ h
  simpa [content] using h

theorem Parameter.content_injective : Function.Injective Parameter.content := by
  rintro ⟨⟩ ⟨⟩ h
  simpa [content] using h

theorem ImportedName.content_injective : Function.Injective ImportedName.content := by
  rintro ⟨⟩ ⟨⟩ h
  simpa [content] using h

theorem Property.content_injective : Function.Injective Property.content := by
  rintro ⟨⟩ ⟨⟩ h
  simpa [content] using h

theorem Dependency.content_injective : Function.Injective Dependency.content := by
  rintro ⟨⟩ ⟨⟩ h
  simpa [content] using h

theorem Metrics.content_injective : Function.Injective Metrics.content := by
  rintro ⟨⟩ ⟨⟩ h
  simpa [content] using h

@[simp] theorem Location.content_inj {l m : Location} : l.content = m.content ↔ l = m :=
  content_injective.eq_iff

@[simp] theorem Metrics.content_inj {l m : Metrics} : l.content = m.content ↔ l = m :=
  content_injective.eq_iff

theorem Component.content_injective : Function.Injective Component.content := by
  rintro ⟨⟩ ⟨⟩ h
  simpa [content] using h

theorem Callable.content_injective : Function.Injective Callable.content := by
  rintro ⟨⟩ ⟨⟩ h
  simpa [content, (ofList_injective Parameter.content_injective).eq_iff] using h

theorem Hook.content_injective : Function.Injective Hook.content := by
  rintro ⟨⟩ ⟨⟩ h
  simpa [content] using h

theorem Import.content_injective : Function.Injective Import.content := by
  rintro ⟨⟩ ⟨⟩ h
  simpa [content, (ofList_injective ImportedName.content_injective).eq_iff] using h

theorem Export.content_injective : Function.Injective Export.content := by
  rintro ⟨⟩ ⟨⟩ h
  simpa [content] using h

theorem Interface.content_injective : Function.Injective Interface.content := by
  rintro ⟨⟩ ⟨⟩ h
  simpa [content, (ofList_injective Property.content_injective).eq_iff] using h

theorem TypeAlias.content_injective : Function.Injective TypeAlias.content := by
  rintro ⟨⟩ ⟨⟩ h
  simpa [content] using h

theorem Pattern.content_injective : Function.Injective Pattern.content := by
  rintro ⟨⟩ ⟨⟩ h
  simpa [content] using h

theorem Survey.content_injective : Function.Injective Survey.content := by
  rintro ⟨⟩ ⟨⟩ h
  simpa [content, (ofList_injective Component.content_injective).eq_iff,
    (ofList_injective Callable.content_injective).eq_iff,
    (ofList_injective Hook.content_injective).eq_iff,
    (ofList_injective Import.content_injective).eq_iff,
    (ofList_injective Export.content_injective).eq_iff,
    (ofList_injective Interface.content_injective).eq_iff,
    (ofList_injective TypeAlias.content_injective).eq_iff,
    (ofList_injective Dependency.content_injective).eq_iff,
    (ofList_injective Pattern.content_injective).eq_iff] using h

namespace Record

/-- Records of different classes have different contents, and so have different records of one
class. -/
theorem content_injective : Function.Injective content := by
  intro r s h
  cases r with
  | location r =>
    cases s with
    | location s => exact congrArg location (Location.content_injective h)
    | _ => cases h
  | parameter r =>
    cases s with
    | parameter s => exact congrArg parameter (Parameter.content_injective h)
    | _ => cases h
  | component r =>
    cases s with
    | component s => exact congrArg component (Component.content_injective h)
    | _ => cases h
  | callable r =>
    cases s with
    | callable s => exact congrArg callable (Callable.content_injective h)
    | _ => cases h
  | hook r =>
    cases s with
    | hook s => exact congrArg hook (Hook.content_injective h)
    | _ => cases h
  | importedName r =>
    cases s with
    | importedName s => exact congrArg importedName (ImportedName.content_injective h)
    | _ => cases h
  | importStatement r =>
    cases s with
    | importStatement s => exact congrArg importStatement (Import.content_injective h)
    | _ => cases h
  | exportedName r =>
    cases s with
    | exportedName s => exact congrArg exportedName (Export.content_injective h)
    | _ => cases h
  | property r =>
    cases s with
    | property s => exact congrArg property (Property.content_injective h)
    | _ => cases h
  | interface r =>
    cases s with
    | interface s => exact congrArg interface (Interface.content_injective h)
    | _ => cases h
  | typeAlias r =>
    cases s with
    | typeAlias s => exact congrArg typeAlias (TypeAlias.content_injective h)
    | _ => cases h
  | dependency r =>
    cases s with
    | dependency s => exact congrArg dependency (Dependency.content_injective h)
    | _ => cases h
  | metrics r =>
    cases s with
    | metrics s => exact congrArg metrics (Metrics.content_injective h)
    | _ => cases h
  | pattern r =>
    cases s with
    | pattern s => exact congrArg pattern (Pattern.content_injective h)
    | _ => cases h
  | survey r =>
    cases s with
    | survey s => exact congrArg survey (Survey.content_injective h)
    | _ => cases h

end Record

/-- The document of a record loses nothing of it. The keys of a class are the names of its fields in
camel case, but for the renamed ones, and no two are alike. A record with fields of the declared types
is read back from its document, which has no null in it, and two of one class are the same just when
their documents are. The records of a survey are such records, each told by its contents. -/
theorem RecordClass.toJson_loses_nothing (c : RecordClass) :
    (c.keys = c.names.map c.key ∧ c.keys.Nodup) ∧
      (∀ x, Fits (.record c) x →
        ValueType.read? (.record c) x.toJson = some x ∧ x.toJson.hasNull = false ∧
          ∀ y, Fits (.record c) y → (x.same y ↔ x.toJson.same y.toJson)) ∧
      (∀ r : Record, r.recordClass = c → r.IsTyped → Fits (.record c) r.content) ∧
      Function.Injective Record.content := by
  refine ⟨⟨c.keys_eq, c.nodup_keys⟩, fun x hx => ⟨hx.read?_toJson, hx.hasNull_toJson, ?_⟩, ?_,
    Record.content_injective⟩
  · intro y hy
    rw [hx.same_toJson hy]
  · rintro r rfl hr
    exact Record.fits hr

end ComponentSurvey
