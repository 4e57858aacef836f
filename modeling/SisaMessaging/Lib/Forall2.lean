/-
  Lists whose elements are related one by one.
-/
import Mathlib.Data.List.Forall2

namespace SisaMessaging.Lib

variable {α β γ : Type} {R : α → β → Prop} {as : List α} {bs : List β}

theorem forall₂_mem (h : List.Forall₂ R as bs) :
    List.Forall₂ (fun a b => a ∈ as ∧ R a b) as bs := by
  induction h with
  | nil => exact .nil
  | cons hr _ ih =>
    exact .cons ⟨List.mem_cons_self, hr⟩
      (ih.imp fun _ _ ⟨hm, hr⟩ => ⟨List.mem_cons_of_mem _ hm, hr⟩)

theorem forall₂_mem_left (h : List.Forall₂ R as bs) {a : α} (ha : a ∈ as) : ∃ b ∈ bs, R a b := by
  induction h with
  | nil => exact absurd ha List.not_mem_nil
  | @cons a b as bs hr _ ih =>
    rcases List.mem_cons.mp ha with rfl | ha
    · exact ⟨b, List.mem_cons_self, hr⟩
    · obtain ⟨b', hb, hr⟩ := ih ha
      exact ⟨b', List.mem_cons_of_mem _ hb, hr⟩

theorem forall₂_mem_right (h : List.Forall₂ R as bs) {b : β} (hb : b ∈ bs) : ∃ a ∈ as, R a b :=
  forall₂_mem_left (List.Forall₂.flip (R := flip R) h) hb

/-- The elements and what they are mapped to. -/
theorem forall₂_filterMap_iff {f : α → Option β} (h : ∀ a ∈ as, (f a).isSome) :
    List.Forall₂ R as (as.filterMap f) ↔ ∀ a ∈ as, ∀ b, f a = some b → R a b := by
  induction as with
  | nil => simp
  | cons a as ih =>
    rw [List.forall_mem_cons] at h
    obtain ⟨b, hb⟩ := Option.isSome_iff_exists.mp h.1
    rw [List.filterMap_cons_some hb, List.forall₂_cons, ih h.2, List.forall_mem_cons]
    simp [hb]

/-- The elements on the left that have one on the right with a value, and the values. -/
theorem forall₂_filter (h : List.Forall₂ R as bs) {p : α → Bool} {f : β → Option γ}
    (hp : ∀ a b, R a b → (f b).isSome = p a) :
    List.Forall₂ (fun a c => ∃ b, R a b ∧ f b = some c) (as.filter p) (bs.filterMap f) := by
  induction h with
  | nil => exact .nil
  | @cons a b as bs hr _ ih =>
    cases hf : f b with
    | none =>
      rw [List.filter_cons_of_neg (by simp [← hp a b hr, hf]), List.filterMap_cons_none hf]
      exact ih
    | some c =>
      rw [List.filter_cons_of_pos (by simp [← hp a b hr, hf]), List.filterMap_cons_some hf]
      exact .cons ⟨b, hr, hf⟩ ih

end SisaMessaging.Lib
