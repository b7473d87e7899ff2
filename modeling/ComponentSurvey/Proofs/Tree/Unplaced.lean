import ComponentSurvey.Proofs.Tree.Marks

/-!
Trees without their places in the source. Where a node stands makes no difference to its kind, to
what is inside its parentheses and to what is below it.
-/

set_option autoImplicit false

namespace ComponentSurvey

def Label.unplaced (l : Label) : Label := { l with span := ⟨0, 0⟩ }

namespace Tree

mutual
def unplaced : Tree → Tree
  | .node l ts => .node l.unplaced (unplacedList ts)
def unplacedList : List Tree → List Tree
  | [] => []
  | t :: ts => t.unplaced :: unplacedList ts
end

theorem unplacedList_eq (ts : List Tree) : unplacedList ts = ts.map unplaced := by
  induction ts with
  | nil => rfl
  | cons t ts ih => rw [unplacedList, ih, List.map_cons]

/-- The same expression, whatever its place in a source and the field that leads to it. -/
def Alike (t u : Tree) : Prop := t.unmarked.unplaced = u.unmarked.unplaced

@[simp] theorem label_unplaced (t : Tree) : t.unplaced.label = t.label.unplaced := by
  cases t
  rfl

@[simp] theorem children_unplaced (t : Tree) : t.unplaced.children = t.children.map unplaced := by
  cases t
  exact unplacedList_eq _

@[simp] theorem type_unplaced (t : Tree) : t.unplaced.type = t.type := by
  simp [type, Label.unplaced]

@[simp] theorem named_unplaced (t : Tree) : t.unplaced.named = t.named := by
  simp [named, Label.unplaced]

@[simp] theorem kind_unplaced (t : Tree) : t.unplaced.kind = t.kind := by
  simp [kind, Label.kind, Label.unplaced]

@[simp] theorem isComment_unplaced (t : Tree) : t.unplaced.isComment = t.isComment := by
  simp [isComment]

@[simp] theorem marked_unplaced (f : String) (t : Tree) : marked f t.unplaced = marked f t := by
  simp [marked, Label.unplaced]

@[simp] theorem contents_unplaced (t : Tree) : t.unplaced.contents = t.contents.map unplaced := by
  simp [contents, namedChildren, List.filter_map, Function.comp_def]

mutual
@[simp] theorem unparenthesized_unplaced (t : Tree) :
    t.unplaced.unparenthesized = t.unparenthesized.map unplaced := by
  match t with
  | .node l ts =>
    have hl : l.unplaced.type = l.type := rfl
    rw [unplaced, unparenthesized, unparenthesized, firstUnparenthesized_unplaced ts, hl]
    cases l.type == "parenthesized_expression" <;> rfl
theorem firstUnparenthesized_unplaced (ts : List Tree) :
    firstUnparenthesized (unplacedList ts) = (firstUnparenthesized ts).map unplaced := by
  match ts with
  | [] => rfl
  | t :: ts =>
    rw [unplacedList, firstUnparenthesized, firstUnparenthesized, named_unplaced,
      isComment_unplaced, unparenthesized_unplaced t, firstUnparenthesized_unplaced ts]
    cases t.named && !t.isComment <;> rfl
end

mutual
theorem preorder_unplaced (t : Tree) : t.unplaced.preorder = t.preorder.map unplaced := by
  match t with
  | .node l ts => rw [unplaced, preorder_node, preorderList_unplaced ts, preorder_node,
      List.map_cons, unplaced]
theorem preorderList_unplaced (ts : List Tree) :
    preorderList (unplacedList ts) = (preorderList ts).map unplaced := by
  match ts with
  | [] => rfl
  | t :: ts =>
    rw [unplacedList, preorderList_cons, preorder_unplaced t, preorderList_unplaced ts,
      preorderList_cons, List.map_append]
end

end Tree

end ComponentSurvey
