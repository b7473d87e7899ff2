/-!
Syntax trees of source texts. A tree holds no text of its own: each node has a type name, a byte
span of the source and the field names under which its parent finds it.
-/

set_option autoImplicit false

namespace ComponentSurvey

structure Span where
  start : Nat
  stop : Nat
  deriving DecidableEq, Repr, Inhabited

/-- What a node says of itself. A token that is not named has its own text as type. -/
structure Label where
  type : String
  named : Bool
  missing : Bool
  span : Span
  fields : List String
  deriving DecidableEq, Repr, Inhabited

inductive Tree where
  | node : Label → List Tree → Tree
  deriving Repr, Inhabited

inductive Kind where
  | function
  | functionExpression
  | arrow
  | method
  | classLike
  | variable
  | call
  | returnStatement
  | block
  | ifStatement
  | whileLoop
  | doLoop
  | forLoop
  | switch
  | switchCase
  | ternary
  | elementTree
  | other
  deriving DecidableEq, Repr

def Kind.name : Kind → String
  | .function => "function"
  | .functionExpression => "function_expression"
  | .arrow => "arrow"
  | .method => "method"
  | .classLike => "class"
  | .variable => "variable"
  | .call => "call"
  | .returnStatement => "return"
  | .block => "block"
  | .ifStatement => "if"
  | .whileLoop => "while"
  | .doLoop => "do"
  | .forLoop => "for"
  | .switch => "switch"
  | .switchCase => "case"
  | .ternary => "ternary"
  | .elementTree => "element_tree"
  | .other => "other"

def Kind.ofType : String → Kind
  | "function_declaration" => .function
  | "generator_function_declaration" => .function
  | "function_expression" => .functionExpression
  | "function" => .functionExpression
  | "generator_function" => .functionExpression
  | "arrow_function" => .arrow
  | "method_definition" => .method
  | "class_declaration" => .classLike
  | "abstract_class_declaration" => .classLike
  | "class" => .classLike
  | "variable_declarator" => .variable
  | "call_expression" => .call
  | "return_statement" => .returnStatement
  | "statement_block" => .block
  | "if_statement" => .ifStatement
  | "while_statement" => .whileLoop
  | "do_statement" => .doLoop
  | "for_statement" => .forLoop
  | "for_in_statement" => .forLoop
  | "switch_statement" => .switch
  | "switch_case" => .switchCase
  | "ternary_expression" => .ternary
  | "jsx_element" => .elementTree
  | "jsx_self_closing_element" => .elementTree
  | "jsx_fragment" => .elementTree
  | _ => .other

def Kind.isFunctionLike : Kind → Bool
  | .function | .functionExpression | .arrow | .method => true
  | _ => false

/-- A token such as `class` shares its type with a real node, so only named nodes have a kind. -/
def Label.kind (l : Label) : Kind :=
  if l.named then Kind.ofType l.type else .other

def Label.isBroken (l : Label) : Bool :=
  l.type == "ERROR" || l.missing

namespace Tree

def label : Tree → Label
  | .node l _ => l

def children : Tree → List Tree
  | .node _ ts => ts

def type (t : Tree) : String := t.label.type

def named (t : Tree) : Bool := t.label.named

def span (t : Tree) : Span := t.label.span

def kind (t : Tree) : Kind := t.label.kind

theorem kind_of_type {t : Tree} {type : String} (h : t.type = type)
    (ho : Kind.ofType type = .other) : t.kind = .other := by
  rw [kind, Label.kind, show t.label.type = type from h, ho, ite_self]

def isComment (t : Tree) : Bool := t.type == "comment"

def marked (f : String) (t : Tree) : Bool := t.label.fields.contains f

/-- First child that the field names. -/
def field? (t : Tree) (f : String) : Option Tree :=
  t.children.find? (marked f)

def namedChildren (t : Tree) : List Tree :=
  t.children.filter named

def contents (t : Tree) : List Tree :=
  t.namedChildren.filter (!·.isComment)

def hasToken (t : Tree) (token : String) : Bool :=
  t.children.any fun c => !c.named && c.type == token

mutual
def size : Tree → Nat
  | .node _ ts => 1 + sizeList ts
def sizeList : List Tree → Nat
  | [] => 0
  | t :: ts => t.size + sizeList ts
end

theorem sizeList_append (ts us : List Tree) :
    sizeList (ts ++ us) = sizeList ts + sizeList us := by
  induction ts with
  | nil => simp [sizeList]
  | cons t ts ih => simp [sizeList, ih, Nat.add_assoc]

mutual
def preorderOnto : Tree → List Tree → List Tree
  | .node l ts, after => .node l ts :: preorderListOnto ts after
def preorderListOnto : List Tree → List Tree → List Tree
  | [], after => after
  | t :: ts, after => t.preorderOnto (preorderListOnto ts after)
end

def preorder (t : Tree) : List Tree := t.preorderOnto []

def preorderList (ts : List Tree) : List Tree := preorderListOnto ts []

mutual
theorem preorderOnto_append (t : Tree) (us vs : List Tree) :
    t.preorderOnto (us ++ vs) = t.preorderOnto us ++ vs := by
  match t with
  | .node l ts => simp [preorderOnto, preorderListOnto_append ts us vs]
theorem preorderListOnto_append (ts us vs : List Tree) :
    preorderListOnto ts (us ++ vs) = preorderListOnto ts us ++ vs := by
  match ts with
  | [] => rfl
  | t :: ts =>
    rw [preorderListOnto, preorderListOnto_append ts us vs, preorderOnto_append t _ vs,
      preorderListOnto]
end

theorem preorder_node (l : Label) (ts : List Tree) :
    (node l ts).preorder = .node l ts :: preorderList ts := rfl

theorem preorderList_nil : preorderList [] = [] := rfl

theorem preorderList_cons (t : Tree) (ts : List Tree) :
    preorderList (t :: ts) = t.preorder ++ preorderList ts := by
  rw [preorder, ← preorderOnto_append, List.nil_append]
  rfl

def descendants (t : Tree) : List Tree := preorderList t.children

def descendantsOf (t : Tree) (k : Kind) : List Tree :=
  t.descendants.filter (·.kind == k)

mutual
/-- The expression inside any number of parentheses. Parentheses that hold no expression give none. -/
def unparenthesized : Tree → Option Tree
  | .node l ts =>
    if l.type == "parenthesized_expression" then firstUnparenthesized ts else some (.node l ts)
def firstUnparenthesized : List Tree → Option Tree
  | [] => none
  | t :: ts => if t.named && !t.isComment then t.unparenthesized else firstUnparenthesized ts
end

theorem firstUnparenthesized_eq (ts : List Tree) :
    firstUnparenthesized ts =
      ((ts.filter named).filter (!·.isComment)).head?.bind unparenthesized := by
  induction ts with
  | nil => rfl
  | cons t ts ih =>
    by_cases hn : t.named <;> by_cases hc : t.isComment <;> simp [firstUnparenthesized, hn, hc, ih]

theorem unparenthesized_eq (t : Tree) :
    t.unparenthesized =
      if t.type == "parenthesized_expression" then t.contents.head?.bind unparenthesized
      else some t := by
  cases t
  simp [unparenthesized, firstUnparenthesized_eq, contents, namedChildren, children, type, label]

end Tree

end ComponentSurvey
