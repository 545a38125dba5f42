import Mathlib.Data.List.Basic

/-!
# Labelled runs

A system takes one labelled step after another. An abstract machine that follows every step follows
every run.
-/

namespace Library

variable {σ τ α : Type}

inductive Steps (step : σ → α → σ → Prop) : σ → List α → σ → Prop
  | nil (s : σ) : Steps step s [] s
  | cons {s s' t : σ} {a : α} {rest : List α} (first : step s a s') (others : Steps step s' rest t) :
      Steps step s (a :: rest) t

namespace Steps

variable {step : σ → α → σ → Prop} {s t : σ} {l l' : List α}

theorem append_iff : Steps step s (l ++ l') t ↔ ∃ m, Steps step s l m ∧ Steps step m l' t := by
  constructor
  · intro run
    induction l generalizing s with
    | nil => exact ⟨s, .nil s, run⟩
    | cons a l ih =>
        cases run with
        | cons first others =>
            obtain ⟨m, before, after⟩ := ih others
            exact ⟨m, .cons first before, after⟩
  · rintro ⟨m, before, after⟩
    induction before with
    | nil s => exact after
    | cons first others ih => exact .cons first (ih after)

theorem cons_iff {a : α} : Steps step s (a :: l) t ↔ ∃ m, step s a m ∧ Steps step m l t := by
  constructor
  · intro run
    cases run with
    | cons first others => exact ⟨_, first, others⟩
  · rintro ⟨m, first, others⟩
    exact .cons first others

/-- The abstract machine takes the same labels. -/
theorem follows (rel : σ → τ → Prop) (next : τ → α → τ) (allowed : α → Prop)
    (round : ∀ s x a t, allowed a → rel s x → step s a t → rel t (next x a))
    (run : Steps step s l t) (all : ∀ a ∈ l, allowed a) {x : τ} (start : rel s x) :
    rel t (l.foldl next x) := by
  induction run generalizing x with
  | nil s => exact start
  | cons first others ih =>
      rw [List.foldl_cons]
      apply ih (fun a member => all a (List.mem_cons_of_mem _ member))
      exact round _ _ _ _ (all _ List.mem_cons_self) start first

/-- A view of the system takes the steps of another one, none or some for each label. -/
theorem shows {υ β : Type} {step' : υ → β → υ → Prop} (inv : σ → Prop) (view : σ → υ)
    (label : α → List β) (allowed : α → Prop)
    (round : ∀ s a t, allowed a → inv s → step s a t → inv t ∧ Steps step' (view s) (label a) (view t))
    (run : Steps step s l t) (all : ∀ a ∈ l, allowed a) (start : inv s) :
    inv t ∧ Steps step' (view s) (l.flatMap label) (view t) := by
  induction run with
  | nil s => exact ⟨start, .nil _⟩
  | cons first others ih =>
      obtain ⟨kept, now⟩ := round _ _ _ (all _ List.mem_cons_self) start first
      obtain ⟨still, later⟩ := ih (fun a member => all a (List.mem_cons_of_mem _ member)) kept
      rw [List.flatMap_cons]
      exact ⟨still, append_iff.mpr ⟨_, now, later⟩⟩

end Steps

end Library
