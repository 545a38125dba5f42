import AttoHTTP.Library.Comp

/-!
# Foreign code as a script of calls

Code that is only known to call an interface is the tree of the calls it makes: each call waits
for its reply, and every branch ends.
-/

namespace Library

inductive Script (Op : Type) (Reply : Op → Type) (α : Type)
  | done (result : α)
  | call (op : Op) (next : Reply op → Script Op Reply α)

namespace Script
open Library.Comp

variable {Op : Type} {Reply : Op → Type} {α σ : Type}

def run (handle : (op : Op) → σ → Comp (Reply op × σ)) : Script Op Reply α → σ → Comp (α × σ)
  | .done result, s => pure (result, s)
  | .call op next, s => do
      let p ← handle op s
      run handle (next p.1) p.2

variable {handle : (op : Op) → σ → Comp (Reply op × σ)}

theorem run_invariant (inv : σ → Prop)
    (keeps : ∀ op s p, inv s → (handle op s).Returns p → inv p.2)
    {script : Script Op Reply α} {s : σ} {p : α × σ} (h : (run handle script s).Returns p)
    (start : inv s) : inv p.2 := by
  induction script generalizing s with
  | done result =>
      rw [run, returns_pure] at h
      rwa [h]
  | call op next ih =>
      rw [run, returns_bind] at h
      obtain ⟨q, hq, h⟩ := h
      exact ih q.1 h (keeps op s q start hq)

theorem run_total (inv : σ → Prop)
    (total : ∀ op s, inv s → ∃ p, (handle op s).Returns p ∧ inv p.2)
    (script : Script Op Reply α) (s : σ) (start : inv s) :
    ∃ p, (run handle script s).Returns p ∧ inv p.2 := by
  induction script generalizing s with
  | done result => exact ⟨(result, s), returns_pure.mpr rfl, start⟩
  | call op next ih =>
      obtain ⟨q, hq, hinv⟩ := total op s start
      obtain ⟨p, hp, done⟩ := ih q.1 q.2 hinv
      exact ⟨p, hq.bind hp, done⟩

/-- Every call of a run is made in a state that is `ready` for it. -/
def Meets (handle : (op : Op) → σ → Comp (Reply op × σ)) (ready : Op → σ → Prop) :
    Script Op Reply α → σ → Prop
  | .done _, _ => True
  | .call op next, s =>
      ready op s ∧ ∀ p, (handle op s).Returns p → Meets handle ready (next p.1) p.2

theorem run_simulated {rel : σ → σ → Prop} {ready : Op → σ → Prop}
    (step : ∀ op s s' p, rel s s' → ready op s → (handle op s).Returns p →
      ∃ u, (handle op s').Returns (p.1, u) ∧ rel p.2 u)
    {script : Script Op Reply α} {s s' : σ} {p : α × σ} (meets : script.Meets handle ready s)
    (h : (run handle script s).Returns p) (start : rel s s') :
    ∃ u, (run handle script s').Returns (p.1, u) ∧ rel p.2 u := by
  induction script generalizing s s' with
  | done result =>
      rw [run, returns_pure] at h
      rw [h]
      exact ⟨s', returns_pure.mpr rfl, start⟩
  | call op next ih =>
      rw [run, returns_bind] at h
      obtain ⟨q, call, h⟩ := h
      obtain ⟨v, call', middle⟩ := step op s s' q start meets.1 call
      obtain ⟨u, rest, last⟩ := ih q.1 (meets.2 q call) h middle
      exact ⟨u, call'.bind rest, last⟩

end Script
end Library
