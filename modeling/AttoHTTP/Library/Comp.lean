import Mathlib.Data.Option.Basic
import Mathlib.Order.Basic

/-!
# Computations that may not terminate

`Comp α` is a computation run with a budget of loop iterations. The budget is no part of its
meaning: a result found with some budget is found with every larger one, and a computation
without a result for any budget does not terminate.
-/

namespace Library

structure Comp (α : Type) where
  run : Nat → Option α
  mono : ∀ {n m : Nat} {a : α}, n ≤ m → run n = some a → run m = some a

namespace Comp

variable {α β σ : Type}

/-- The computation terminates with this result. -/
def Returns (x : Comp α) (a : α) : Prop := ∃ n, x.run n = some a

def Diverges (x : Comp α) : Prop := ∀ n, x.run n = none

protected def pure (a : α) : Comp α := ⟨fun _ => some a, fun _ h => h⟩

protected def bind (x : Comp α) (f : α → Comp β) : Comp β where
  run n := (x.run n).bind fun a => (f a).run n
  mono le h := by
    obtain ⟨a, ha, hb⟩ := Option.bind_eq_some_iff.mp h
    exact Option.bind_eq_some_iff.mpr ⟨a, x.mono le ha, (f a).mono le hb⟩

instance : Monad Comp where
  pure := Comp.pure
  bind := Comp.bind

theorem Returns.unique {x : Comp α} {a b : α} (ha : x.Returns a) (hb : x.Returns b) : a = b := by
  obtain ⟨n, ha⟩ := ha
  obtain ⟨m, hb⟩ := hb
  have h := (x.mono (Nat.le_max_left n m) ha).symm.trans (x.mono (Nat.le_max_right n m) hb)
  exact Option.some.inj h

@[simp]
theorem returns_pure {a b : α} : (pure a : Comp α).Returns b ↔ b = a :=
  ⟨fun ⟨_, h⟩ => (Option.some.inj h).symm, fun h => ⟨0, congrArg some h.symm⟩⟩

@[simp]
theorem returns_bind {x : Comp α} {f : α → Comp β} {b : β} :
    (x >>= f).Returns b ↔ ∃ a, x.Returns a ∧ (f a).Returns b := by
  constructor
  · rintro ⟨n, h⟩
    obtain ⟨a, ha, hb⟩ := Option.bind_eq_some_iff.mp h
    exact ⟨a, ⟨n, ha⟩, ⟨n, hb⟩⟩
  · rintro ⟨a, ⟨n, ha⟩, ⟨m, hb⟩⟩
    refine ⟨max n m, Option.bind_eq_some_iff.mpr ⟨a, ?_, ?_⟩⟩
    · exact x.mono (Nat.le_max_left n m) ha
    · exact (f a).mono (Nat.le_max_right n m) hb

theorem Returns.bind {x : Comp α} {f : α → Comp β} {a : α} {b : β} (ha : x.Returns a)
    (hb : (f a).Returns b) : (x >>= f).Returns b :=
  returns_bind.mpr ⟨a, ha, hb⟩

theorem Returns.bind_iff {x : Comp α} {f : α → Comp β} {a : α} {b : β} (ha : x.Returns a) :
    (x >>= f).Returns b ↔ (f a).Returns b := by
  rw [returns_bind]
  constructor
  · rintro ⟨a', ha', hb⟩
    rwa [ha.unique ha']
  · exact fun hb => ⟨a, ha, hb⟩

theorem diverges_iff {x : Comp α} : x.Diverges ↔ ∀ a, ¬ x.Returns a := by
  constructor
  · rintro never a ⟨n, h⟩
    simp [never n] at h
  · intro never n
    cases h : x.run n with
    | none => rfl
    | some a => exact absurd ⟨n, h⟩ (never a)

theorem Diverges.not_returns {x : Comp α} {a : α} (h : x.Diverges) : ¬ x.Returns a :=
  diverges_iff.mp h a

theorem Diverges.bind {x : Comp α} {f : α → Comp β} (h : x.Diverges) : (x >>= f).Diverges := by
  refine diverges_iff.mpr fun b hb => ?_
  obtain ⟨a, ha, -⟩ := returns_bind.mp hb
  exact h.not_returns ha

theorem returns_of_run {x : Comp α} {f : α → β} {n : Nat} {b : β}
    (h : (x.run n).map f = some b) : ∃ a, x.Returns a ∧ f a = b := by
  obtain ⟨a, found, equal⟩ := Option.map_eq_some_iff.mp h
  exact ⟨a, ⟨n, found⟩, equal⟩

/-! ## Loops -/

/-- One more round of a loop: `body` says, with the new state, whether to go round again. -/
def doWhileWithin (body : σ → Comp (σ × Bool)) : Nat → σ → Option σ
  | 0, _ => none
  | n + 1, s => ((body s).run n).bind fun p => if p.2 then doWhileWithin body n p.1 else some p.1

theorem doWhileWithin_mono (body : σ → Comp (σ × Bool)) {n m : Nat} (le : n ≤ m) {s t : σ}
    (h : doWhileWithin body n s = some t) : doWhileWithin body m s = some t := by
  induction n generalizing m s with
  | zero => simp [doWhileWithin] at h
  | succ n ih =>
      obtain ⟨m, rfl⟩ : ∃ k, m = k + 1 := ⟨m - 1, by omega⟩
      have le' : n ≤ m := by omega
      obtain ⟨p, hp, rest⟩ := Option.bind_eq_some_iff.mp h
      refine Option.bind_eq_some_iff.mpr ⟨p, (body s).mono le' hp, ?_⟩
      split at rest
      · rename_i again
        rw [if_pos again]
        exact ih le' rest
      · rename_i stop
        rwa [if_neg stop]

/-- `do … while` with a body that may itself not terminate. -/
def doWhileM (body : σ → Comp (σ × Bool)) (s : σ) : Comp σ :=
  ⟨fun n => doWhileWithin body n s, fun le h => doWhileWithin_mono body le h⟩

def doWhile (step : σ → σ × Bool) (s : σ) : Comp σ :=
  doWhileM (fun s => pure (step s)) s

def whileDo (test : σ → Bool) (step : σ → σ) (s : σ) : Comp σ :=
  if test s then doWhile (fun s => (step s, test (step s))) s else pure s

def whileDoM (test : σ → Bool) (body : σ → Comp σ) (s : σ) : Comp σ :=
  if test s then doWhileM (fun s => do let t ← body s; pure (t, test t)) s else pure s

theorem doWhileM_returns {body : σ → Comp (σ × Bool)} {s t : σ} :
    (doWhileM body s).Returns t ↔ ∃ p, (body s).Returns p ∧
      if p.2 then (doWhileM body p.1).Returns t else t = p.1 := by
  constructor
  · rintro ⟨n, h⟩
    cases n with
    | zero => simp [doWhileM, doWhileWithin] at h
    | succ n =>
        obtain ⟨p, hp, rest⟩ := Option.bind_eq_some_iff.mp h
        refine ⟨p, ⟨n, hp⟩, ?_⟩
        split at rest
        · rename_i again
          rw [if_pos again]
          exact ⟨n, rest⟩
        · rename_i stop
          rw [if_neg stop]
          exact (Option.some.inj rest).symm
  · rintro ⟨p, ⟨n, hp⟩, rest⟩
    split at rest
    · rename_i again
      obtain ⟨m, rest⟩ := rest
      refine ⟨max n m + 1, Option.bind_eq_some_iff.mpr ⟨p, ?_, ?_⟩⟩
      · exact (body s).mono (Nat.le_max_left n m) hp
      · rw [if_pos again]
        exact doWhileWithin_mono body (Nat.le_max_right n m) rest
    · rename_i stop
      refine ⟨n + 1, Option.bind_eq_some_iff.mpr ⟨p, hp, ?_⟩⟩
      rw [if_neg stop, rest]

theorem doWhileM_induction {body : σ → Comp (σ × Bool)} {motive : σ → σ → Prop}
    (exit : ∀ s p, (body s).Returns p → p.2 = false → motive s p.1)
    (next : ∀ s p t, (body s).Returns p → p.2 = true → motive p.1 t → motive s t)
    {s t : σ} (h : (doWhileM body s).Returns t) : motive s t := by
  obtain ⟨n, h⟩ := h
  induction n generalizing s with
  | zero => simp [doWhileM, doWhileWithin] at h
  | succ n ih =>
      obtain ⟨p, hp, rest⟩ := Option.bind_eq_some_iff.mp h
      split at rest
      · rename_i again
        exact next s p t ⟨n, hp⟩ again (ih rest)
      · rename_i stop
        obtain rfl := Option.some.inj rest
        exact exit s p ⟨n, hp⟩ (by simpa using stop)

/-- Total correctness: the body terminates, keeps `inv` and lowers `rank` until it stops in `post`. -/
theorem doWhileM_total {body : σ → Comp (σ × Bool)} (rank : σ → Nat) (inv post : σ → Prop)
    (round : ∀ s, inv s → ∃ p, (body s).Returns p ∧
      if p.2 then inv p.1 ∧ rank p.1 < rank s else post p.1)
    (s : σ) (start : inv s) : ∃ t, (doWhileM body s).Returns t ∧ post t := by
  induction h : rank s using Nat.strongRecOn generalizing s with
  | ind n ih =>
      obtain ⟨p, hp, rest⟩ := round s start
      cases again : p.2 with
      | true =>
          rw [if_pos again] at rest
          obtain ⟨t, ht, done⟩ := ih (rank p.1) (h ▸ rest.2) p.1 rest.1 rfl
          exact ⟨t, doWhileM_returns.mpr ⟨p, hp, by rwa [if_pos again]⟩, done⟩
      | false =>
          rw [if_neg (by simp [again])] at rest
          exact ⟨p.1, doWhileM_returns.mpr ⟨p, hp, by rw [if_neg (by simp [again])]⟩, rest⟩

/-- The states a loop goes through before its rounds. -/
inductive Reaches (body : σ → Comp (σ × Bool)) : σ → σ → Prop
  | refl (s : σ) : Reaches body s s
  | next {s t : σ} {p : σ × Bool} (round : (body s).Returns p) (again : p.2 = true)
      (rest : Reaches body p.1 t) : Reaches body s t

theorem Reaches.invariant {body : σ → Comp (σ × Bool)} (inv : σ → Prop)
    (round : ∀ s p, inv s → (body s).Returns p → p.2 = true → inv p.1) {s t : σ}
    (reach : Reaches body s t) (start : inv s) : inv t := by
  induction reach with
  | refl s => exact start
  | next first again rest ih => exact ih (round _ _ start first again)

theorem Reaches.trans {body : σ → Comp (σ × Bool)} {s t u : σ} (first : Reaches body s t)
    (second : Reaches body t u) : Reaches body s u := by
  induction first with
  | refl s => exact second
  | next round again rest ih => exact .next round again (ih second)

theorem Reaches.returns {body : σ → Comp (σ × Bool)} {s t u : σ} (reach : Reaches body s u)
    (h : (doWhileM body s).Returns t) : (doWhileM body u).Returns t := by
  induction reach with
  | refl s => exact h
  | next first again rest ih =>
      obtain ⟨p, round, others⟩ := doWhileM_returns.mp h
      obtain rfl := first.unique round
      rw [if_pos again] at others
      exact ih others

/-- A loop that follows another one, as long as that one starts its rounds in states that are
`ready`. -/
theorem doWhileM_simulated {τ : Type} {body : σ → Comp (σ × Bool)} {body' : τ → Comp (τ × Bool)}
    (rel : σ → τ → Prop) (ready : σ → Prop)
    (round : ∀ s s' p, rel s s' → ready s → (body s).Returns p →
      ∃ p', (body' s').Returns p' ∧ p'.2 = p.2 ∧ rel p.1 p'.1)
    {s t : σ} {s' : τ} (h : (doWhileM body s).Returns t) (all : ∀ u, Reaches body s u → ready u)
    (start : rel s s') : ∃ t', (doWhileM body' s').Returns t' ∧ rel t t' := by
  refine doWhileM_induction (motive := fun s t => ∀ s', (∀ u, Reaches body s u → ready u) →
    rel s s' → ∃ t', (doWhileM body' s').Returns t' ∧ rel t t') ?_ ?_ h s' all start
  · intro s p first stop s' all start
    obtain ⟨p', first', flag, last⟩ := round s s' p start (all s (.refl s)) first
    exact ⟨p'.1, doWhileM_returns.mpr ⟨p', first', by simp [flag, stop]⟩, last⟩
  · intro s p t first again ih s' all start
    obtain ⟨p', first', flag, next⟩ := round s s' p start (all s (.refl s)) first
    obtain ⟨t', rest, last⟩ := ih p'.1 (fun u reach => all u (.next first again reach)) next
    exact ⟨t', doWhileM_returns.mpr ⟨p', first', by rwa [flag, again, if_pos rfl]⟩, last⟩

theorem doWhile_next {step : σ → σ × Bool} {s t : σ} (h : (step s).2 = true) :
    (doWhile step s).Returns t ↔ (doWhile step (step s).1).Returns t := by
  rw [doWhile, doWhileM_returns]
  simp [h, doWhile]

theorem doWhile_exit {step : σ → σ × Bool} {s t : σ} (h : (step s).2 = false) :
    (doWhile step s).Returns t ↔ t = (step s).1 := by
  rw [doWhile, doWhileM_returns]
  simp [h]

theorem doWhile_induction {step : σ → σ × Bool} {motive : σ → σ → Prop}
    (exit : ∀ s, (step s).2 = false → motive s (step s).1)
    (next : ∀ s t, (step s).2 = true → motive (step s).1 t → motive s t)
    {s t : σ} (h : (doWhile step s).Returns t) : motive s t := by
  refine doWhileM_induction ?_ ?_ h
  · intro s p hp stop
    rw [returns_pure] at hp
    subst hp
    exact exit s stop
  · intro s p t hp again ih
    rw [returns_pure] at hp
    subst hp
    exact next s t again ih

inductive Rounds (step : σ → σ × Bool) : σ → List σ → Prop
  | last {s : σ} (stop : (step s).2 = false) : Rounds step s [s]
  | next {s : σ} {l : List σ} (again : (step s).2 = true) (rest : Rounds step (step s).1 l) :
      Rounds step s (s :: l)

theorem Rounds.unique {step : σ → σ × Bool} {s : σ} {l l' : List σ}
    (first : Rounds step s l) (second : Rounds step s l') : l = l' := by
  induction first generalizing l' with
  | last stop =>
      cases second with
      | last => rfl
      | next again => exact absurd (again.symm.trans stop) (by simp)
  | next again rest ih =>
      cases second with
      | last stop => exact absurd (again.symm.trans stop) (by simp)
      | next _ rest' => rw [ih rest']

theorem doWhile_rounds {step : σ → σ × Bool} {s t : σ} (h : (doWhile step s).Returns t) :
    ∃ l, Rounds step s l :=
  doWhile_induction (motive := fun s _ => ∃ l, Rounds step s l) (fun s stop => ⟨[s], .last stop⟩)
    (fun s _ again ⟨l, rest⟩ => ⟨s :: l, .next again rest⟩) h

theorem Rounds.returns {step : σ → σ × Bool} {s : σ} {l : List σ} (h : Rounds step s l) :
    ∃ last, l.getLast? = some last ∧ (doWhile step s).Returns (step last).1 := by
  induction h with
  | @last s stop => exact ⟨s, rfl, (doWhile_exit stop).mpr rfl⟩
  | @next s l again rest ih =>
      obtain ⟨last, found, run⟩ := ih
      refine ⟨last, ?_, (doWhile_next again).mpr run⟩
      rw [List.getLast?_cons, found]
      rfl

theorem doWhile_invariant {step : σ → σ × Bool} (inv post : σ → Prop)
    (round : ∀ s, inv s → if (step s).2 then inv (step s).1 else post (step s).1)
    {s t : σ} (h : (doWhile step s).Returns t) (start : inv s) : post t := by
  refine doWhile_induction (motive := fun s t => inv s → post t) ?_ ?_ h start
  · intro s stop hs
    simpa [stop] using round s hs
  · intro s t again ih hs
    exact ih (by simpa [again] using round s hs)

theorem doWhile_total {step : σ → σ × Bool} (rank : σ → Nat) (inv post : σ → Prop)
    (round : ∀ s, inv s →
      if (step s).2 then inv (step s).1 ∧ rank (step s).1 < rank s else post (step s).1)
    (s : σ) (start : inv s) : ∃ t, (doWhile step s).Returns t ∧ post t :=
  doWhileM_total rank inv post (fun s hs => ⟨step s, by simp, round s hs⟩) s start

/-- Total correctness, with what holds whenever a round starts. -/
theorem doWhile_confined {step : σ → σ × Bool} (rank : σ → Nat) (inv post : σ → Prop)
    (round : ∀ s, inv s →
      if (step s).2 then inv (step s).1 ∧ rank (step s).1 < rank s else post (step s).1)
    (s : σ) (start : inv s) : ∃ t, (doWhile step s).Returns t ∧ post t ∧
      ∀ u, Reaches (fun s => pure (step s)) s u → inv u := by
  obtain ⟨t, run, last⟩ := doWhile_total rank inv post round s start
  refine ⟨t, run, last, fun u reach => reach.invariant inv ?_ start⟩
  intro s p holds first again
  rw [returns_pure] at first
  subst first
  have next := round s holds
  rw [if_pos again] at next
  exact next.1

theorem doWhile_diverges {step : σ → σ × Bool} (inv : σ → Prop)
    (round : ∀ s, inv s → (step s).2 = true ∧ inv (step s).1) (s : σ) (start : inv s) :
    (doWhile step s).Diverges := by
  refine diverges_iff.mpr fun t h => ?_
  refine doWhile_induction (motive := fun s _ => ¬ inv s) ?_ ?_ h start
  · intro s stop hs
    simp [(round s hs).1] at stop
  · intro s t again ih hs
    exact ih (round s hs).2

theorem whileDo_stop {test : σ → Bool} {step : σ → σ} {s t : σ} (h : test s = false) :
    (whileDo test step s).Returns t ↔ t = s := by
  simp [whileDo, h]

theorem whileDo_next {test : σ → Bool} {step : σ → σ} {s t : σ} (h : test s = true) :
    (whileDo test step s).Returns t ↔ (whileDo test step (step s)).Returns t := by
  cases again : test (step s) with
  | true => simp [whileDo, h, again, doWhile_next]
  | false => simp [whileDo, h, again, doWhile_exit]

theorem whileDo_total {test : σ → Bool} {step : σ → σ} (rank : σ → Nat) (inv : σ → Prop)
    (round : ∀ s, inv s → test s = true → inv (step s) ∧ rank (step s) < rank s)
    (s : σ) (start : inv s) : ∃ t, (whileDo test step s).Returns t ∧ inv t ∧ test t = false := by
  induction h : rank s using Nat.strongRecOn generalizing s with
  | ind n ih =>
      cases more : test s with
      | false => exact ⟨s, (whileDo_stop more).mpr rfl, start, more⟩
      | true =>
          obtain ⟨keep, lower⟩ := round s start more
          obtain ⟨t, run, done⟩ := ih _ (h ▸ lower) (step s) keep rfl
          exact ⟨t, (whileDo_next more).mpr run, done⟩

theorem whileDo_diverges {test : σ → Bool} {step : σ → σ} (always : ∀ s, test s = true) (s : σ) :
    (whileDo test step s).Diverges := by
  rw [whileDo, if_pos (always s)]
  exact doWhile_diverges (fun _ => True) (fun s _ => ⟨always (step s), trivial⟩) s trivial

theorem whileDoM_stop {test : σ → Bool} {body : σ → Comp σ} {s t : σ} (h : test s = false) :
    (whileDoM test body s).Returns t ↔ t = s := by
  simp [whileDoM, h]

theorem whileDoM_next {test : σ → Bool} {body : σ → Comp σ} {s t : σ} (h : test s = true) :
    (whileDoM test body s).Returns t ↔
      ∃ s', (body s).Returns s' ∧ (whileDoM test body s').Returns t := by
  rw [whileDoM, if_pos h, doWhileM_returns]
  constructor
  · rintro ⟨p, hp, rest⟩
    obtain ⟨s', hs', hp⟩ := returns_bind.mp hp
    rw [returns_pure] at hp
    subst hp
    exact ⟨s', hs', by cases again : test s' <;> simp_all [whileDoM]⟩
  · rintro ⟨s', hs', rest⟩
    refine ⟨(s', test s'), hs'.bind (returns_pure.mpr rfl), ?_⟩
    cases again : test s' <;> simp_all [whileDoM]

theorem whileDoM_induction {test : σ → Bool} {body : σ → Comp σ} {motive : σ → σ → Prop}
    (stop : ∀ s, test s = false → motive s s)
    (next : ∀ s s' t, test s = true → (body s).Returns s' → motive s' t → motive s t)
    {s t : σ} (h : (whileDoM test body s).Returns t) : motive s t := by
  cases start : test s with
  | false =>
      rw [whileDoM_stop start] at h
      rw [h]
      exact stop s start
  | true =>
      rw [whileDoM, if_pos start] at h
      refine doWhileM_induction (motive := fun s t => test s = true → motive s t) ?_ ?_ h start
      · intro s p hp last again
        obtain ⟨s', hs', hp⟩ := returns_bind.mp hp
        rw [returns_pure] at hp
        subst hp
        exact next s s' s' again hs' (stop s' last)
      · intro s p t hp more ih again
        obtain ⟨s', hs', hp⟩ := returns_bind.mp hp
        rw [returns_pure] at hp
        subst hp
        exact next s s' t again hs' (ih more)

theorem whileDoM_total {test : σ → Bool} {body : σ → Comp σ} (rank : σ → Nat)
    (inv : σ → Prop)
    (round : ∀ s, inv s → test s = true →
      ∃ s', (body s).Returns s' ∧ inv s' ∧ (test s' = true → rank s' < rank s))
    (s : σ) (start : inv s) : ∃ t, (whileDoM test body s).Returns t ∧ inv t := by
  cases first : test s with
  | false => exact ⟨s, (whileDoM_stop first).mpr rfl, start⟩
  | true =>
      rw [whileDoM, if_pos first]
      refine doWhileM_total rank (fun s => inv s ∧ test s = true) inv ?_ s ⟨start, first⟩
      rintro s ⟨hs, again⟩
      obtain ⟨s', hs', keep, lower⟩ := round s hs again
      refine ⟨(s', test s'), hs'.bind (returns_pure.mpr rfl), ?_⟩
      cases more : test s' with
      | true => simpa [more] using And.intro keep (lower more)
      | false => simpa [more] using keep

end Comp
end Library
