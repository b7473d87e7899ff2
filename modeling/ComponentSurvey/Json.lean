import ComponentSurvey.Number

/-!
Documents: the values of JSON. An object keeps its fields in the order in which they were given.
-/

set_option autoImplicit false

namespace ComponentSurvey

theorem lookup_of_nodup_keys {α β : Type} [BEq α] [LawfulBEq α] {es : List (α × β)}
    (hn : (es.map (·.1)).Nodup) {k : α} {b : β} (h : (k, b) ∈ es) : es.lookup k = some b := by
  induction es with
  | nil => cases h
  | cons e es ih =>
    obtain ⟨l, a⟩ := e
    obtain ⟨hl, hes⟩ := List.nodup_cons.1 hn
    rcases List.mem_cons.1 h with he | h
    · cases he
      exact List.lookup_cons_self
    · have hk : (k == l) = false :=
        beq_eq_false_iff_ne.2 fun hk => hl (hk ▸ List.mem_map_of_mem (f := (·.1)) h)
      rw [List.lookup_cons, hk]
      exact ih hes h

inductive Json where
  | null : Json
  | bool : Bool → Json
  | number : Number → Json
  | string : String → Json
  | array : List Json → Json
  | object : List (String × Json) → Json
  deriving Repr

namespace Json

instance : Inhabited Json := ⟨.null⟩

def whole (n : Int) : Json := .number (.whole n)

def strings (ss : List String) : Json := .array (ss.map .string)

mutual
/-- Decides whether two values are one and the same; 1 and 1.0 are different values. -/
def decideEq (a b : Json) : Decidable (a = b) :=
  match a, b with
  | .null, .null => isTrue rfl
  | .bool a, .bool b => decidable_of_iff (a = b) (by simp)
  | .number m, .number n => decidable_of_iff (m = n) (by simp)
  | .string s, .string t => decidable_of_iff (s = t) (by simp)
  | .array xs, .array ys =>
    haveI := decideEqItems xs ys
    decidable_of_iff (xs = ys) (by simp)
  | .object fs, .object gs =>
    haveI := decideEqFields fs gs
    decidable_of_iff (fs = gs) (by simp)
  | .null, .bool _ | .null, .number _ | .null, .string _ | .null, .array _ | .null, .object _
  | .bool _, .null | .bool _, .number _ | .bool _, .string _ | .bool _, .array _
  | .bool _, .object _ | .number _, .null | .number _, .bool _ | .number _, .string _
  | .number _, .array _ | .number _, .object _ | .string _, .null | .string _, .bool _
  | .string _, .number _ | .string _, .array _ | .string _, .object _ | .array _, .null
  | .array _, .bool _ | .array _, .number _ | .array _, .string _ | .array _, .object _
  | .object _, .null | .object _, .bool _ | .object _, .number _ | .object _, .string _
  | .object _, .array _ => isFalse (by simp)
def decideEqItems (xs ys : List Json) : Decidable (xs = ys) :=
  match xs, ys with
  | [], [] => isTrue rfl
  | x :: xs, y :: ys =>
    haveI := decideEq x y
    haveI := decideEqItems xs ys
    decidable_of_iff (x = y ∧ xs = ys) (by simp)
  | [], _ :: _ | _ :: _, [] => isFalse (by simp)
def decideEqFields (fs gs : List (String × Json)) : Decidable (fs = gs) :=
  match fs, gs with
  | [], [] => isTrue rfl
  | (k, v) :: fs, (l, w) :: gs =>
    haveI := decideEq v w
    haveI := decideEqFields fs gs
    decidable_of_iff (k = l ∧ v = w ∧ fs = gs) (by simp [and_assoc])
  | [], _ :: _ | _ :: _, [] => isFalse (by simp)
end

instance : DecidableEq Json := decideEq

def ofTruth (b : Bool) : Number := .whole (if b then 1 else 0)

mutual
/-- Equality of values, with numbers compared as numbers and fields of objects by their keys. -/
def same : Json → Json → Bool
  | .null, .null => true
  | .bool a, .bool b => a == b
  | .bool a, .number n => (ofTruth a).same n
  | .number m, .bool b => m.same (ofTruth b)
  | .number m, .number n => m.same n
  | .string s, .string t => s == t
  | .array xs, .array ys => sameItems xs ys
  | .object fs, .object gs => fs.length == gs.length && sameFields fs gs
  | _, _ => false
def sameItems : List Json → List Json → Bool
  | [], [] => true
  | x :: xs, y :: ys => x.same y && sameItems xs ys
  | _, _ => false
def sameFields : List (String × Json) → List (String × Json) → Bool
  | [], _ => true
  | (k, v) :: fs, gs => (gs.lookup k).any (v.same ·) && sameFields fs gs
end

def get? (j : Json) (key : String) : Option Json :=
  match j with
  | .object fs => fs.lookup key
  | _ => none

end Json

end ComponentSurvey
