import ComponentSurvey.Tree

/-!
Trees as flat lists: each node's label in preorder, with the number of its children.
-/

set_option autoImplicit false

namespace ComponentSurvey.Tree

mutual
def toFlat : Tree → List (Label × Nat)
  | .node l ts => (l, ts.length) :: toFlatList ts
def toFlatList : List Tree → List (Label × Nat)
  | [] => []
  | t :: ts => t.toFlat ++ toFlatList ts
end

/-- Reads from the end of the list: a label takes its children from the front of the forest after it. -/
def forestOfFlat? : List (Label × Nat) → Option (List Tree)
  | [] => some []
  | (l, n) :: rest =>
    (forestOfFlat? rest).bind fun ts =>
      if (ts.take n).length = n then some (.node l (ts.take n) :: ts.drop n) else none

def ofFlat? (xs : List (Label × Nat)) : Option Tree :=
  match forestOfFlat? xs with
  | some [t] => some t
  | _ => none

mutual
theorem forestOfFlat?_toFlat_append (t : Tree) (xs : List (Label × Nat)) :
    forestOfFlat? (t.toFlat ++ xs) = (forestOfFlat? xs).map (t :: ·) := by
  match t with
  | .node l ts =>
    simp only [toFlat, List.cons_append, forestOfFlat?, forestOfFlat?_toFlatList_append ts xs]
    cases forestOfFlat? xs <;> simp
theorem forestOfFlat?_toFlatList_append (ts : List Tree) (xs : List (Label × Nat)) :
    forestOfFlat? (toFlatList ts ++ xs) = (forestOfFlat? xs).map (ts ++ ·) := by
  match ts with
  | [] => simp [toFlatList]
  | t :: ts =>
    rw [toFlatList, List.append_assoc, forestOfFlat?_toFlat_append t,
      forestOfFlat?_toFlatList_append ts]
    cases forestOfFlat? xs <;> simp
end

theorem ofFlat?_toFlat (t : Tree) : ofFlat? t.toFlat = some t := by
  have h := forestOfFlat?_toFlat_append t []
  simp only [List.append_nil, forestOfFlat?, Option.map_some] at h
  simp [ofFlat?, h]

theorem toFlatList_append (ts us : List Tree) :
    toFlatList (ts ++ us) = toFlatList ts ++ toFlatList us := by
  induction ts with
  | nil => rfl
  | cons t ts ih => simp [toFlatList, ih]

theorem toFlatList_of_forestOfFlat? {xs : List (Label × Nat)} {ts : List Tree}
    (h : forestOfFlat? xs = some ts) : toFlatList ts = xs := by
  induction xs generalizing ts with
  | nil =>
    obtain rfl : [] = ts := Option.some.inj h
    rfl
  | cons x rest ih =>
    obtain ⟨l, n⟩ := x
    rw [forestOfFlat?] at h
    obtain ⟨us, hu, h⟩ := Option.bind_eq_some_iff.1 h
    split at h
    next hn =>
      obtain rfl := Option.some.inj h
      rw [toFlatList, toFlat, hn, List.cons_append, ← toFlatList_append, List.take_append_drop, ih hu]
    · cases h

theorem ofFlat?_eq_some_iff {xs : List (Label × Nat)} {t : Tree} :
    ofFlat? xs = some t ↔ xs = t.toFlat := by
  constructor
  · intro h
    unfold ofFlat? at h
    split at h
    next u hu =>
      obtain rfl := Option.some.inj h
      rw [← toFlatList_of_forestOfFlat? hu, toFlatList, toFlatList, List.append_nil]
    · cases h
  · rintro rfl
    exact ofFlat?_toFlat t

end ComponentSurvey.Tree
