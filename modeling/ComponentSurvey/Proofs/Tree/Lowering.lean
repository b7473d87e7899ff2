import Mathlib.Data.List.Basic
import Mathlib.Data.List.Find
import Mathlib.Data.Option.Basic
import ComponentSurvey.Source
import ComponentSurvey.Tree.Node

/-!
Sources below a preface. A preface ends where a line ends, so whatever stands below it keeps its
column and its text, and its line is lowered by the lines of the preface. A tree is lowered with its
source when every offset in it is.
-/

set_option autoImplicit false

namespace ComponentSurvey

/-- Bytes that can be put before a source: none at all, or whole lines. -/
structure Preface where
  bytes : List UInt8
  complete : bytes = [] ∨ bytes.getLast? = some Place.newline

namespace Preface

def size (p : Preface) : Nat := p.bytes.length

def lines (p : Preface) : Nat := p.bytes.count Place.newline

/-- No byte of a preface stands in the first line below it. -/
theorem takeWhile_reverse (p : Preface) :
    p.bytes.reverse.takeWhile (· != Place.newline) = [] := by
  rcases p.complete with h | h
  · rw [h]
    rfl
  · rw [← List.head?_reverse] at h
    cases hr : p.bytes.reverse with
    | nil => rfl
    | cons b bs =>
      have hb : b = Place.newline := by simpa [hr] using h
      simp [hb]

end Preface

def Source.lowered (p : Preface) (s : Source) : Source := ofBytes (p.bytes ++ s.bytes.toList)

def Span.lowered (p : Preface) (s : Span) : Span := ⟨p.size + s.start, p.size + s.stop⟩

def Location.lowered (p : Preface) (l : Location) : Location :=
  { l with line := l.line + p.lines, endLine := l.endLine + p.lines }

namespace Source

variable (p : Preface) (s : Source)

theorem bytes_lowered : (s.lowered p).bytes.toList = p.bytes ++ s.bytes.toList := by
  simp [lowered, ofBytes]

theorem take_lowered (offset : Nat) : (s.lowered p).bytes.toList.take (p.size + offset) =
    p.bytes ++ s.bytes.toList.take offset := by
  rw [bytes_lowered, Preface.size, List.take_length_add_append]

theorem row_lowered (offset : Nat) :
    (s.lowered p).row (p.size + offset) = s.row offset + p.lines := by
  rw [row_eq, take_lowered, List.count_append, ← row_eq, Preface.lines, Nat.add_comm]

theorem column_lowered (offset : Nat) :
    (s.lowered p).column (p.size + offset) = s.column offset := by
  rw [column_eq, take_lowered, List.reverse_append, List.takeWhile_append, p.takeWhile_reverse,
    column_eq]
  split
  · rename_i h
    rw [List.append_nil, h]
  · rfl

theorem location_lowered (span : Span) :
    (s.lowered p).location (span.lowered p) = (s.location span).lowered p := by
  simp only [location, Span.lowered, Location.lowered, row_lowered, column_lowered,
    Int.natCast_add, Location.mk.injEq, true_and, and_true]
  omega

theorem text_lowered (span : Span) : (s.lowered p).text (span.lowered p) = s.text span := by
  have h : (s.lowered p).slice (span.lowered p) = s.slice span := by
    simp only [slice_eq, Span.lowered, take_lowered]
    rw [Preface.size, List.drop_length_add_append]
  rw [text, h, text]

theorem lineCount_lowered : (s.lowered p).lineCount = s.lineCount + p.lines := by
  rw [lineCount, bytes_lowered, List.count_append, lineCount, Preface.lines]
  omega

end Source

def Label.lowered (p : Preface) (l : Label) : Label := { l with span := l.span.lowered p }

namespace Tree

mutual
def lowered (p : Preface) : Tree → Tree
  | .node l ts => .node (l.lowered p) (loweredList p ts)
def loweredList (p : Preface) : List Tree → List Tree
  | [] => []
  | t :: ts => t.lowered p :: loweredList p ts
end

variable {p : Preface}

theorem loweredList_eq (ts : List Tree) : loweredList p ts = ts.map (lowered p) := by
  induction ts with
  | nil => rfl
  | cons t ts ih => rw [loweredList, ih, List.map_cons]

theorem lowered_node (l : Label) (ts : List Tree) :
    (node l ts).lowered p = .node (l.lowered p) (ts.map (lowered p)) := by
  rw [lowered, loweredList_eq]

@[simp] theorem label_lowered (t : Tree) : (t.lowered p).label = t.label.lowered p := by
  obtain ⟨l, ts⟩ := t
  rfl

@[simp] theorem children_lowered (t : Tree) :
    (t.lowered p).children = t.children.map (lowered p) := by
  obtain ⟨l, ts⟩ := t
  exact loweredList_eq ts

@[simp] theorem type_lowered (t : Tree) : (t.lowered p).type = t.type := by
  simp [type, Label.lowered]

@[simp] theorem named_lowered (t : Tree) : (t.lowered p).named = t.named := by
  simp [named, Label.lowered]

@[simp] theorem kind_lowered (t : Tree) : (t.lowered p).kind = t.kind := by
  simp [kind, Label.kind, Label.lowered]

@[simp] theorem isComment_lowered (t : Tree) : (t.lowered p).isComment = t.isComment := by
  simp [isComment]

@[simp] theorem marked_lowered (f : String) (t : Tree) :
    marked f (t.lowered p) = marked f t := by
  simp [marked, Label.lowered]

@[simp] theorem text_lowered (source : Source) (t : Tree) :
    (t.lowered p).text (source.lowered p) = t.text source := by
  simp [text, span, Label.lowered, Source.text_lowered]

@[simp] theorem location_lowered (source : Source) (t : Tree) :
    (t.lowered p).location (source.lowered p) = (t.location source).lowered p := by
  simp [location, span, Label.lowered, Source.location_lowered]

@[simp] theorem textOf_map_lowered (source : Source) (t : Option Tree) :
    textOf (source.lowered p) (t.map (lowered p)) = textOf source t := by
  cases t <;> simp [textOf]

@[simp] theorem field?_lowered (t : Tree) (f : String) :
    (t.lowered p).field? f = (t.field? f).map (lowered p) := by
  simp [field?, List.find?_map]

@[simp] theorem namedChildren_lowered (t : Tree) :
    (t.lowered p).namedChildren = t.namedChildren.map (lowered p) := by
  simp [namedChildren, List.filter_map, Function.comp_def]

@[simp] theorem contents_lowered (t : Tree) :
    (t.lowered p).contents = t.contents.map (lowered p) := by
  simp [contents, List.filter_map, Function.comp_def]

@[simp] theorem hasToken_lowered (t : Tree) (token : String) :
    (t.lowered p).hasToken token = t.hasToken token := by
  simp [hasToken, Function.comp_def]

@[simp] theorem filter_type_lowered (t : Tree) (type : String) :
    (t.lowered p).namedChildren.filter (·.type == type) =
      (t.namedChildren.filter (·.type == type)).map (lowered p) := by
  simp [List.filter_map, Function.comp_def]

mutual
theorem preorder_lowered (t : Tree) :
    (t.lowered p).preorder = t.preorder.map (lowered p) := by
  match t with
  | .node l ts => rw [lowered, preorder_node, preorderList_lowered ts, preorder_node,
      List.map_cons, lowered]
theorem preorderList_lowered (ts : List Tree) :
    preorderList (loweredList p ts) = (preorderList ts).map (lowered p) := by
  match ts with
  | [] => rfl
  | t :: ts =>
    rw [loweredList, preorderList_cons, preorder_lowered t, preorderList_lowered ts,
      preorderList_cons, List.map_append]
end

theorem descendants_lowered (t : Tree) :
    (t.lowered p).descendants = t.descendants.map (lowered p) := by
  obtain ⟨l, ts⟩ := t
  exact preorderList_lowered ts

@[simp] theorem descendantsOf_lowered (t : Tree) (k : Kind) :
    (t.lowered p).descendantsOf k = (t.descendantsOf k).map (lowered p) := by
  simp [descendantsOf, descendants_lowered, List.filter_map, Function.comp_def]

mutual
@[simp] theorem unparenthesized_lowered (t : Tree) :
    (t.lowered p).unparenthesized = t.unparenthesized.map (lowered p) := by
  match t with
  | .node l ts =>
    have hl : (l.lowered p).type = l.type := rfl
    rw [lowered, unparenthesized, unparenthesized, firstUnparenthesized_lowered ts, hl]
    cases l.type == "parenthesized_expression" <;> rfl
theorem firstUnparenthesized_lowered (ts : List Tree) :
    firstUnparenthesized (loweredList p ts) = (firstUnparenthesized ts).map (lowered p) := by
  match ts with
  | [] => rfl
  | t :: ts =>
    rw [loweredList, firstUnparenthesized, firstUnparenthesized, named_lowered,
      isComment_lowered, unparenthesized_lowered t, firstUnparenthesized_lowered ts]
    cases t.named && !t.isComment <;> rfl
end

end Tree

def Step.lowered (p : Preface) (s : Step) : Step :=
  ⟨s.label.lowered p, s.left.map (Tree.lowered p), s.right.map (Tree.lowered p)⟩

namespace Node

def lowered (p : Preface) (n : Node) : Node := ⟨n.tree.lowered p, n.place.map (Step.lowered p)⟩

variable {p : Preface}

@[simp] theorem tree_lowered (n : Node) : (n.lowered p).tree = n.tree.lowered p := rfl

@[simp] theorem kind_lowered (n : Node) : (n.lowered p).kind = n.kind := by simp [kind]

theorem fill_lowered (s : Step) (t : Tree) :
    (s.lowered p).fill (t.lowered p) = (s.fill t).lowered p := by
  simp [Step.fill, Step.lowered, Tree.lowered_node]

theorem parent?_lowered (n : Node) : (n.lowered p).parent? = n.parent?.map (lowered p) := by
  obtain ⟨t, place⟩ := n
  cases place with
  | nil => rfl
  | cons s above => simp [parent?, lowered, fill_lowered]

theorem isField_lowered (f : String) (n : Node) : (n.lowered p).isField f = n.isField f := by
  obtain ⟨t, place⟩ := n
  cases place with
  | nil => rfl
  | cons s above => simp [isField, lowered, Step.lowered, Function.comp_def]

theorem ancestors_lowered (n : Node) : (n.lowered p).ancestors = n.ancestors.map (lowered p) := by
  obtain ⟨t, place⟩ := n
  rw [ancestors, ancestors, lowered]
  induction place generalizing t with
  | nil => rfl
  | cons s above ih =>
    simp only [List.map_cons, ancestorsFrom, fill_lowered, ih (s.fill t)]
    rfl

mutual
theorem walk_lowered (place : List Step) (t : Tree) :
    walk ⟨t.lowered p, place.map (Step.lowered p)⟩ = (walk ⟨t, place⟩).map (lowered p) := by
  match t with
  | .node l ts =>
    have h := walkForest_lowered l place [] ts
    rw [Tree.loweredList_eq, List.map_nil] at h
    rw [Tree.lowered_node, walk_eq_cons, walk_eq_cons, List.map_cons, descendants, descendants]
    simp only [Tree.label, Tree.children, h, lowered, Tree.lowered_node]
theorem walkForest_lowered (l : Label) (place : List Step) (left ts : List Tree) :
    walkForest (l.lowered p) (place.map (Step.lowered p)) (left.map (Tree.lowered p))
      (Tree.loweredList p ts) = (walkForest l place left ts).map (lowered p) := by
  match ts with
  | [] => rfl
  | t :: ts =>
    have ht := walk_lowered (⟨l, left, ts⟩ :: place) t
    have hts := walkForest_lowered l place (t :: left) ts
    rw [Tree.loweredList, walkForest_cons, walkForest_cons, List.map_append, ← ht, ← hts,
      Tree.loweredList_eq]
    rfl
end

theorem descendants_lowered (t : Tree) :
    (ofTree (t.lowered p)).descendants = (ofTree t).descendants.map (lowered p) := by
  obtain ⟨l, ts⟩ := t
  exact walkForest_lowered l [] [] ts

end Node

end ComponentSurvey
