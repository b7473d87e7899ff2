import Mathlib.Data.List.Induction

/-!
Lists with each element once. `eraseDups` keeps the first occurrence of each element; what is kept is
found in the order of these first occurrences.
-/

set_option autoImplicit false

namespace ComponentSurvey

section EraseDups

variable {α : Type} [BEq α]

theorem eraseDups_sublist (l : List α) : l.eraseDups.Sublist l := by
  match l with
  | [] => exact List.Sublist.refl _
  | a :: l =>
    rw [List.eraseDups_cons]
    exact ((eraseDups_sublist _).trans List.filter_sublist).cons_cons a
termination_by l.length
decreasing_by exact Nat.lt_succ_of_le (List.length_filter_le _ _)

variable [LawfulBEq α]

theorem nodup_eraseDups (l : List α) : l.eraseDups.Nodup := by
  match l with
  | [] => exact List.nodup_nil
  | a :: l =>
    rw [List.eraseDups_cons, List.nodup_cons]
    refine ⟨fun ha => ?_, nodup_eraseDups _⟩
    simpa using List.mem_eraseDups.1 ha
termination_by l.length
decreasing_by exact Nat.lt_succ_of_le (List.length_filter_le _ _)

theorem eraseDups_filter (p : α → Bool) (l : List α) :
    (l.filter p).eraseDups = l.eraseDups.filter p := by
  match l with
  | [] => rfl
  | a :: l =>
    have hi := eraseDups_filter p (l.filter fun b => !b == a)
    rw [List.filter_filter] at hi
    by_cases ha : p a
    · rw [List.filter_cons_of_pos ha, List.eraseDups_cons, List.eraseDups_cons,
        List.filter_cons_of_pos ha, List.filter_filter, ← hi]
      simp only [Bool.and_comm]
    -- Without `a` none of its repetitions is left over either.
    · rw [List.filter_cons_of_neg ha, List.eraseDups_cons, List.filter_cons_of_neg ha, ← hi]
      congr 1
      refine List.filter_congr fun b _ => ?_
      by_cases hb : b = a
      · simp [hb, ha]
      · simp [hb]
termination_by l.length
decreasing_by exact Nat.lt_succ_of_le (List.length_filter_le _ _)

theorem eraseDups_append_eq (as bs : List α) :
    (as ++ bs).eraseDups = as.eraseDups ++ bs.eraseDups.filter (!as.contains ·) := by
  rw [List.eraseDups_append, List.removeAll, eraseDups_filter]

/-- Of two elements that are kept, the first one has an occurrence before all those of the second. -/
theorem pairwise_eraseDups (l : List α) :
    l.eraseDups.Pairwise fun a b => ∃ before after, l = before ++ a :: after ∧ b ∉ before := by
  induction l using List.reverseRecOn with
  | nil => exact .nil
  | append_singleton l c ih =>
    rw [eraseDups_append_eq, List.pairwise_append]
    refine ⟨ih.imp ?_, ?_, fun a ha b hb => ?_⟩
    · rintro a b ⟨before, after, rfl, hb⟩
      exact ⟨before, after ++ [c], by simp, hb⟩
    · exact (List.pairwise_singleton _ c).sublist List.filter_sublist
    · obtain ⟨before, after, rfl⟩ := List.append_of_mem (List.mem_eraseDups.1 ha)
      refine ⟨before, after ++ [c], by simp, fun hbefore => ?_⟩
      simp [hbefore] at hb

end EraseDups

end ComponentSurvey
