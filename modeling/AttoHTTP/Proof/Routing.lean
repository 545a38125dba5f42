import AttoHTTP.Model.Server

/-!
# Where a request goes

`Finds` lists the ways `_attoHTTPFindPage` can go, each with its condition and the state it leaves.
-/

namespace AttoHTTP
open Library Comp

def State.path (cfg : Config) (s : State) : PathLoop :=
  cutPath cfg.apiLevels s.request.urlLen ⟨s.request.url, 0, 0, 0, fun _ => none, fun _ => none⟩

def State.withPath (cfg : Config) (s : State) : State :=
  { s with request := { s.request with url := (s.path cfg).url } }

def State.callbackArgs (cfg : Config) (s : State) : CallbackArgs where
  method := s.request.method
  accepted := s.request.accept
  command := (List.range cfg.apiLevels).map fun k =>
    ((s.path cfg).command k).map (s.path cfg).url.skip
  id := (List.range cfg.apiLevels).map fun k => ((s.path cfg).id k).map (s.path cfg).url.skip
  cmdlvl := (s.path cfg).cmdlvl
  idlvl := (s.path cfg).idlvl

theorem findAPICallback_eq {cfg : Config} {visit : Nat} {s : State} {callback : Callback}
    (registered : s.registry.callback = some callback) :
    findAPICallback cfg visit s =
      if 0 < (s.path cfg).cmdlvl then do
        let t ← runCallback cfg callback visit (s.callbackArgs cfg) (s.withPath cfg)
        pure ⟨1, t⟩
      else pure ⟨1, (s.withPath cfg).setReturnCode statusInternalError⟩ := by
  simp only [findAPICallback, registered]
  rfl

inductive Finds (cfg : Config) (visit : Nat) (s : State) : Found → Prop
  | page {p : Page} (entry : findPageEntry cfg s.request s.registry = some p)
      (get : s.request.method = .get) : Finds cfg visit s ⟨1, sendPage cfg p s⟩
  | unsupported {p : Page} (entry : findPageEntry cfg s.request s.registry = some p)
      (other : s.request.method ≠ .get) :
      Finds cfg visit s ⟨-1, s.setReturnCode statusUnsupported⟩
  | events (entry : findPageEntry cfg s.request s.registry = none)
      (path : isEventsPath cfg s.request s.registry = true) :
      Finds cfg visit s ⟨1, (sendServerSentEventHeaders cfg s).state⟩
  | nothing (entry : findPageEntry cfg s.request s.registry = none)
      (path : isEventsPath cfg s.request s.registry = false) (callback : s.registry.callback = none) :
      Finds cfg visit s ⟨0, s⟩
  | noCommand {callback : Callback} (entry : findPageEntry cfg s.request s.registry = none)
      (path : isEventsPath cfg s.request s.registry = false)
      (registered : s.registry.callback = some callback) (level : (s.path cfg).cmdlvl = 0) :
      Finds cfg visit s ⟨1, (s.withPath cfg).setReturnCode statusInternalError⟩
  | called {callback : Callback} {t : State}
      (entry : findPageEntry cfg s.request s.registry = none)
      (path : isEventsPath cfg s.request s.registry = false)
      (registered : s.registry.callback = some callback) (level : 0 < (s.path cfg).cmdlvl)
      (run : (runCallback cfg callback visit (s.callbackArgs cfg) (s.withPath cfg)).Returns t) :
      Finds cfg visit s ⟨1, t⟩

theorem findPage_returns {cfg : Config} {visit : Nat} {s : State} {f : Found} :
    (findPage cfg visit s).Returns f ↔ Finds cfg visit s f := by
  constructor
  · intro h
    unfold findPage at h
    cases entry : findPageEntry cfg s.request s.registry with
    | some p =>
        simp only [entry] at h
        by_cases get : s.request.method = .get
        · rw [if_pos get, returns_pure] at h
          rw [h]
          exact .page entry get
        · rw [if_neg get, returns_pure] at h
          rw [h]
          exact .unsupported entry get
    | none =>
        simp only [entry] at h
        cases path : isEventsPath cfg s.request s.registry with
        | true =>
            rw [if_pos path, returns_pure] at h
            rw [h]
            exact .events entry path
        | false =>
            rw [if_neg (by simp [path])] at h
            cases registered : s.registry.callback with
            | none =>
                simp only [findAPICallback, registered, returns_pure] at h
                rw [h]
                exact .nothing entry path registered
            | some callback =>
                rw [findAPICallback_eq registered] at h
                by_cases level : 0 < (s.path cfg).cmdlvl
                · rw [if_pos level] at h
                  obtain ⟨t, run, h⟩ := returns_bind.mp h
                  rw [returns_pure] at h
                  rw [h]
                  exact .called entry path registered level run
                · rw [if_neg level, returns_pure] at h
                  rw [h]
                  exact .noCommand entry path registered (by omega)
  · intro found
    unfold findPage
    cases found with
    | page entry get =>
        simp only [entry, if_pos get]
        exact returns_pure.mpr rfl
    | unsupported entry other =>
        simp only [entry, if_neg other]
        exact returns_pure.mpr rfl
    | events entry path =>
        simp only [entry, if_pos path]
        exact returns_pure.mpr rfl
    | nothing entry path callback =>
        simp only [entry, path, findAPICallback, callback, Bool.false_eq_true, if_false]
        exact returns_pure.mpr rfl
    | noCommand entry path registered level =>
        have top : ¬ 0 < (s.path cfg).cmdlvl := by omega
        simp only [entry, path, Bool.false_eq_true, if_false]
        rw [findAPICallback_eq registered, if_neg top]
        exact returns_pure.mpr rfl
    | called entry path registered level run =>
        simp only [entry, path, Bool.false_eq_true, if_false]
        rw [findAPICallback_eq registered, if_pos level]
        exact run.bind (returns_pure.mpr rfl)

/-! ## What becomes of the return code -/

def State.authorized (s : State) : State :=
  if s.request.authenticated = 0 then s.setReturnCode statusUnauthorized else s

def Found.settled (f : Found) : State :=
  let s := if 0 < f.ret ∧ f.state.request.returnCode = statusUnknown then
      f.state.setReturnCode statusOk
    else f.state
  if s.request.returnCode = statusUnknown then s.setReturnCode statusInternalError else s

theorem respond_eq (cfg : Config) (visit : Nat) (s : State) :
    respond cfg visit s =
      if s.authorized.request.returnCode = statusUnknown then
        findPage cfg visit (s.authorized.setReturnCode statusNotFound) >>= fun f =>
          pure (if 0 < f.ret ∧ f.state.request.returnCode = statusUnknown then
            f.state.setReturnCode statusOk
          else f.state) >>= fun t =>
            pure (if t.request.returnCode = statusUnknown then t.setReturnCode statusInternalError
              else t)
      else pure s.authorized >>= fun t =>
        pure (if t.request.returnCode = statusUnknown then t.setReturnCode statusInternalError
          else t) := by
  rfl

theorem respond_returns {cfg : Config} {visit : Nat} {s u : State} :
    (respond cfg visit s).Returns u ↔
      if s.authorized.request.returnCode = statusUnknown then
        ∃ f, Finds cfg visit (s.authorized.setReturnCode statusNotFound) f ∧ u = f.settled
      else u = s.authorized := by
  rw [respond_eq]
  split
  · rw [returns_bind]
    apply exists_congr
    intro f
    rw [findPage_returns, Returns.bind_iff (returns_pure.mpr rfl), returns_pure]
    rfl
  · rename_i known
    rw [Returns.bind_iff (returns_pure.mpr rfl), returns_pure, if_neg known]

end AttoHTTP
