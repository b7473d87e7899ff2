import Mathlib.Data.List.Basic
import ComponentSurvey.Failure

/-!
Runs that stop at the first thing they use and that is absent. A survey asks for many things that a
tree need not have; read as such a run, it shows each place where one of them is used. Traversals
whose every step has a result have one.
-/

set_option autoImplicit false

namespace ComponentSurvey

inductive Absence where
  | node
  | element
  | name
  | weight (pattern : String)
  deriving DecidableEq, Repr

inductive Stop where
  | failure (f : Failure)
  | absent (what : Absence)
  deriving DecidableEq, Repr

abbrev Run (α : Type) : Type := Except Stop α

namespace Run

variable {α β : Type}

def ofExcept (x : Except Failure α) : Run α := x.mapError .failure

def the (what : Absence) : Option α → Run α
  | none => .error (.absent what)
  | some a => .ok a

/-- Uses a node where there is one, and does with less where there is none. -/
def guarded (x : Option α) (otherwise : β) (use : α → Run β) : Run β :=
  if x.isNone then .ok otherwise else the .node x >>= use

/-- Uses a name where there is one that is not empty. -/
def named (name : Option String) (otherwise : Run β) (use : String → Run β) : Run β :=
  if name.isNone || name == some "" then otherwise else the .name name >>= use

@[simp] theorem the_some (what : Absence) (a : α) : the what (some a) = .ok a := rfl

@[simp] theorem guarded_none (b : β) (f : α → Run β) : guarded none b f = .ok b := rfl

@[simp] theorem guarded_some (a : α) (b : β) (f : α → Run β) : guarded (some a) b f = f a := rfl

@[simp] theorem ok_bind (a : α) (f : α → Run β) : ((.ok a : Run α) >>= f) = f a := rfl

@[simp] theorem pure_eq_ok (a : α) : (pure a : Run α) = .ok a := rfl

@[simp] theorem map_ok (f : α → β) (a : α) : (f <$> (.ok a : Run α)) = .ok (f a) := rfl

@[simp] theorem ofExcept_ok (a : α) : ofExcept (.ok a) = .ok a := rfl

@[simp] theorem ofExcept_error (f : Failure) :
    ofExcept (.error f : Except Failure α) = .error (.failure f) := rfl

@[simp] theorem ite_ok (c : Prop) [Decidable c] (a b : α) :
    (if c then .ok a else .ok b : Run α) = .ok (if c then a else b) := by
  split <;> rfl

theorem guarded_eq_ok {x : Option α} {b : β} {f : α → Run β} {g : α → β}
    (h : ∀ a, f a = .ok (g a)) : guarded x b f = .ok ((x.map g).getD b) := by
  cases x with
  | none => rfl
  | some a => exact h a

theorem named_eq {name : Option String} {b : β} {f : String → Run β} {g : String → β}
    (h : ∀ n, f n = .ok (g n)) :
    named name (.ok b) f = .ok (((name.filter (· != "")).map g).getD b) := by
  rw [named]
  cases name with
  | none => rfl
  | some n => by_cases hn : n = "" <;> simp [hn, h, Option.filter]

/-- A use of names that does nothing with the empty one anyway. -/
theorem named_filter {name : Option String} {p : String → Bool} (hp : p "" = false)
    {f : String → Run (Option β)} {g : String → Option β}
    (h : ∀ n, f n = .ok (if p n then g n else none)) :
    named name (.ok none) f = .ok ((name.filter p).bind g) := by
  rw [named_eq h]
  cases name with
  | none => rfl
  | some n => by_cases hn : n = "" <;> cases hpn : p n <;> simp_all [Option.filter]

variable {as : List α}

theorem mapM_eq_ok {f : α → Run β} {g : α → β} (h : ∀ a ∈ as, f a = .ok (g a)) :
    as.mapM f = .ok (as.map g) := by
  induction as with
  | nil => rfl
  | cons a as ih =>
    obtain ⟨ha, has⟩ := List.forall_mem_cons.1 h
    rw [List.mapM_cons, ha, ih has]
    rfl

/-- A traversal that has a result for each element, where the survey would leave out elements that
have none. -/
theorem mapM_eq_ok_filterMap {f : α → Run β} {g : α → Option β}
    (h : ∀ a ∈ as, ∃ b, g a = some b ∧ f a = .ok b) : as.mapM f = .ok (as.filterMap g) := by
  induction as with
  | nil => rfl
  | cons a as ih =>
    obtain ⟨⟨b, hg, hf⟩, has⟩ := List.forall_mem_cons.1 h
    rw [List.mapM_cons, hf, ih has, List.filterMap_cons_some hg]
    rfl

theorem flatMapM_eq_ok {f : α → Run (List β)} {g : α → List β} (h : ∀ a ∈ as, f a = .ok (g a)) :
    as.flatMapM f = .ok (as.flatMap g) := by
  induction as with
  | nil => rfl
  | cons a as ih =>
    obtain ⟨ha, has⟩ := List.forall_mem_cons.1 h
    rw [List.flatMapM_cons, ha, ih has]
    rfl

theorem filterMapM_eq_ok {f : α → Run (Option β)} {g : α → Option β}
    (h : ∀ a ∈ as, f a = .ok (g a)) : as.filterMapM f = .ok (as.filterMap g) := by
  induction as with
  | nil => rfl
  | cons a as ih =>
    obtain ⟨ha, has⟩ := List.forall_mem_cons.1 h
    rw [List.filterMapM_cons, ha, List.filterMap_cons, ok_bind]
    cases g a with
    | none => exact ih has
    | some b =>
      rw [ih has]
      rfl

theorem findSomeM?_eq_ok {f : α → Run (Option β)} {g : α → Option β} (h : ∀ a, f a = .ok (g a)) :
    as.findSomeM? f = .ok (as.findSome? g) := by
  rw [funext h]
  exact List.findSomeM?_pure

theorem anyM_eq_ok {p : α → Run Bool} {q : α → Bool} (h : ∀ a, p a = .ok (q a)) :
    as.anyM p = .ok (as.any q) := by
  rw [funext h]
  exact List.anyM_pure

theorem findM?_eq_ok {p : α → Run Bool} {q : α → Bool} (h : ∀ a, p a = .ok (q a)) :
    as.findM? p = .ok (as.find? q) := by
  rw [funext h]
  exact List.findM?_pure q as

end Run

end ComponentSurvey
