import AttoHTTP.Proof.Response

/-!
# What a response leaves alone

Answering a request changes the return code and what goes with it; what the parsers have found out
stays, and the URL is only cut at its slashes. Over a whole run this keeps the end of the URL buffer
a terminator.
-/

namespace AttoHTTP
open Library Comp

def Request.lasting (q : Request) : Request :=
  { q with
    returnCode := statusUnknown, contenttype := .textHtml, contentlength := 0
    urlParams := .null 0, urlParamsStart := 0, paramLog := [] }

theorem lasting_of_parsedPart {q q' : Request} (same : q'.parsedPart = q.parsedPart) :
    q'.lasting = q.lasting := by
  change q'.parsedPart.lasting = q.parsedPart.lasting
  rw [same]

theorem url_of_lasting {q q' : Request} (same : q'.lasting = q.lasting) : q'.url = q.url := by
  simpa [Request.lasting] using congrArg Request.url same

theorem authLog_of_lasting {q q' : Request} (same : q'.lasting = q.lasting) :
    q'.authLog = q.authLog := by
  simpa [Request.lasting] using congrArg Request.authLog same

theorem afterLine_lasting (sent : Bool) (code : UInt16) (q : Request) :
    (q.afterLine sent code).lasting = q.lasting := by
  unfold Request.afterLine
  split <;> rfl

theorem runCallback_lasting {cfg : Config} {callback : Callback} {visit : Nat}
    {args : CallbackArgs} {s t : State} (h : (runCallback cfg callback visit args s).Returns t) :
    t.request.lasting = s.request.lasting := by
  obtain ⟨p, run, h⟩ := returns_bind.mp h
  rw [returns_pure] at h
  rw [h]
  refine Script.run_invariant (fun t => t.request.lasting = s.request.lasting) ?_ run rfl
  intro op u p same call
  cases apply_returns call with
  | inl answer =>
      obtain ⟨_, _, _, answered, _⟩ := answer
      rw [answered.request, afterLine_lasting]
      exact same
  | inr plain => exact (lasting_of_parsedPart plain.2.2.1).trans same

theorem Finds.lasting {cfg : Config} {visit : Nat} {s : State} {f : Found}
    (find : Finds cfg visit s f) : f.state.request.lasting = s.request.lasting ∨
      s.registry.callback.isSome ∧
        f.state.request.lasting = (s.withPath cfg).request.lasting := by
  cases find with
  | @page p entry get =>
      have answered := sendHeaders_answered cfg { s with
        request := { s.request with
          returnCode := statusOk, contenttype := p.type, contentlength := p.size } }
      have kept := congrArg Request.lasting answered.request
      rw [afterLine_lasting] at kept
      exact .inl kept
  | unsupported entry other => exact .inl rfl
  | events entry path =>
      have kept := congrArg Request.lasting (firstLine_answered cfg statusOk.toUInt16 s).request
      rw [afterLine_lasting] at kept
      exact .inl kept
  | nothing entry path callback => exact .inl rfl
  | noCommand entry path registered level => exact .inr ⟨by rw [registered]; rfl, rfl⟩
  | called entry path registered level run =>
      exact .inr ⟨by rw [registered]; rfl, runCallback_lasting (s := s.withPath cfg) run⟩

theorem settled_lasting (f : Found) : f.settled.request.lasting = f.state.request.lasting := by
  unfold Found.settled
  dsimp only
  split <;> split <;> rfl

theorem authorized_lasting (s : State) : s.authorized.request.lasting = s.request.lasting := by
  unfold State.authorized
  split <;> rfl

theorem finish_lasting (cfg : Config) (s : State) :
    (finish cfg s).request.lasting = s.request.lasting := by
  obtain ⟨code, answered, -⟩ := finish_answered cfg s
  rw [answered.request, afterLine_lasting]

theorem respond_lasting {cfg : Config} {visit : Nat} {s u : State}
    (h : (respond cfg visit s).Returns u) : u.request.lasting = s.request.lasting ∨
      s.registry.callback.isSome ∧
        u.request.lasting = (s.withPath cfg).request.lasting := by
  rw [respond_returns] at h
  split at h
  · obtain ⟨f, find, h⟩ := h
    have path : ((s.authorized.setReturnCode statusNotFound).withPath cfg).request.lasting =
        (s.withPath cfg).request.lasting := by
      unfold State.authorized
      split <;> rfl
    have registry : (s.authorized.setReturnCode statusNotFound).registry = s.registry := by
      unfold State.authorized
      split <;> rfl
    rw [h, settled_lasting]
    cases find.lasting with
    | inl same => exact .inl (same.trans (authorized_lasting s))
    | inr cut => exact .inr ⟨registry ▸ cut.1, cut.2.trans path⟩
  · rw [h]
    exact .inl (authorized_lasting s)

/-! ## The URL buffer over runs

A property of the buffer that is kept by reading a target into it and by cutting it lasts. -/

theorem cutSlash_url (levels ctr : Nat) (t : PathLoop) :
    (cutSlash levels ctr t).url = t.url.set t.pos 0 ∧ (cutSlash levels ctr t).pos = t.pos := by
  simp only [cutSlash]
  repeat' split
  all_goals exact ⟨rfl, rfl⟩

section Url
variable {inv : Mem → Prop}

theorem cutPath_keeps (cuts : ∀ m i, inv m → inv (m.set i 0)) {levels ctr : Nat} {t : PathLoop}
    (start : inv t.url) : inv (cutPath levels ctr t).url := by
  induction ctr generalizing t with
  | zero => exact start
  | succ ctr ih =>
      rw [cutPath]
      split
      · exact start
      · apply ih
        dsimp only
        split
        · rw [(cutSlash_url ..).1]
          exact cuts _ _ start
        · exact start

theorem recordHeader_url (cfg : Config) (check : CheckAuth) (name value : Mem) (q : Request) :
    (recordHeader cfg check name value q).url = q.url := by
  simp only [recordHeader, authorize, checkAuth]
  repeat' split
  all_goals rfl

def ParseKeeps (cfg : Config) (inv : Mem → Prop) : Prop :=
  ∀ r q p, (parseURL cfg r q).Returns p → inv q.url → inv p.request.url

theorem urlInvariant {cfg : Config} (parse : ParseKeeps cfg inv) (check : CheckAuth) :
    RequestInvariant cfg check fun q => inv q.url where
  method _ _ holds := holds
  version _ _ holds := holds
  url := parse
  done _ holds := holds
  unsupported _ holds := holds
  failed _ holds := holds
  header q name value holds := by
    rw [recordHeader_url]
    exact holds

theorem execute_url {cfg : Config} (cuts : ∀ m i, inv m → inv (m.set i 0))
    (parse : ParseKeeps cfg inv) {conn : Connection} {s t : State} (start : inv s.request.url)
    (h : (execute cfg conn s).Returns t) : inv t.request.url := by
  obtain ⟨p, parsing, h⟩ := returns_bind.mp h
  obtain ⟨u, answer, h⟩ := returns_bind.mp h
  rw [returns_pure] at h
  have parsed : inv p.request.url := (urlInvariant parse conn.checkAuth).parseRequest parsing start
  have url : t.request.url = u.request.url := by
    rw [h]
    exact url_of_lasting (finish_lasting cfg u)
  rw [url]
  cases respond_lasting answer with
  | inl same =>
      rw [url_of_lasting same]
      exact parsed
  | inr cut =>
      rw [url_of_lasting cut.2]
      exact cutPath_keeps cuts parsed

theorem reachable_url {cfg : Config} (cuts : ∀ m i, inv m → inv (m.set i 0))
    (parse : ParseKeeps cfg inv) (zeros : ∀ m, (∀ i, i < cfg.urlBufferSize → m i = 0) → inv m)
    {s : State} (h : Reachable cfg s) : inv s.request.url := by
  obtain ⟨boot, calls, history, booted, serves⟩ := h
  have start : inv (boot.setUp cfg calls).request.url := zeros _ booted
  generalize boot.setUp cfg calls = first at serves start
  induction serves with
  | nil s => exact start
  | cons execution others ih => exact ih (execute_url cuts parse start execution)

end Url

/-- The last cell of the URL buffer, which no target reaches. -/
def Request.UrlEnds (cfg : Config) (q : Request) : Prop := q.url (cfg.urlBufferSize - 1) = 0

theorem parseURLStep_cell (cfg : Config) (p : Parsed) :
    (∀ i, i ≠ p.request.urlLen → (parseURLStep cfg p).1.request.url i = p.request.url i) ∧
      (parseURLStep cfg p).1.request.urlLen ≤ p.request.urlLen + 1 ∧
      ((parseURLStep cfg p).2 = true →
        (parseURLStep cfg p).1.request.urlLen < cfg.urlBufferSize - 1) := by
  have other (m : Mem) (b : UInt8) {i : Nat} (h : i ≠ p.request.urlLen) :
      m.set p.request.urlLen b i = m i := Mem.set_of_ne m b h
  cases blank : isBlank (readC (p.request.url p.request.urlLen) p.reader).c with
  | true =>
      simp only [parseURLStep, blank, if_true]
      exact ⟨fun i h => other _ _ h, by omega, fun again => absurd again (by simp)⟩
  | false =>
      simp only [parseURLStep, blank, Bool.false_eq_true, if_false]
      split
      · refine ⟨fun i h => ?_, le_rfl, fun again => ?_⟩
        · exact (other _ _ h).trans (other _ _ h)
        · rw [Bool.and_eq_true, decide_eq_true_eq, decide_eq_true_eq] at again
          exact again.2
      · refine ⟨fun i h => other _ _ h, le_rfl, fun again => ?_⟩
        rw [Bool.and_eq_true, decide_eq_true_eq, decide_eq_true_eq] at again
        exact again.2

theorem urlLoop_ends {cfg : Config} {p t : Parsed} (ends : p.request.UrlEnds cfg)
    (inside : p.request.urlLen < cfg.urlBufferSize - 1)
    (h : (doWhile (parseURLStep cfg) p).Returns t) :
    t.request.UrlEnds cfg ∧ t.request.urlLen ≤ cfg.urlBufferSize - 1 := by
  refine doWhile_invariant
    (fun p => p.request.UrlEnds cfg ∧ p.request.urlLen < cfg.urlBufferSize - 1)
    (fun p => p.request.UrlEnds cfg ∧ p.request.urlLen ≤ cfg.urlBufferSize - 1) ?_ h ⟨ends, inside⟩
  intro p hp
  obtain ⟨cells, next, again⟩ := parseURLStep_cell cfg p
  have kept : (parseURLStep cfg p).1.request.UrlEnds cfg :=
    (cells _ (by have := hp.2; omega)).trans hp.1
  split
  · rename_i more
    exact ⟨kept, again more⟩
  · exact ⟨kept, by have := hp.2; omega⟩

theorem parseURL_ends {cfg : Config} {r : Reader} {q : Request} {p : Parsed}
    (ends : q.UrlEnds cfg) (h : (parseURL cfg r q).Returns p) : p.request.UrlEnds cfg := by
  obtain ⟨t, -, h⟩ := returns_bind.mp h
  have size := cfg.url_ge
  split at h
  · obtain ⟨u, loop, h⟩ := returns_bind.mp h
    obtain ⟨g, -, h⟩ := returns_bind.mp h
    rw [returns_pure] at h
    rw [h]
    have looped := urlLoop_ends (p := ⟨t.ret, t.reader, { q with urlLen := 0 }⟩) ends
      (show 0 < _ by omega) loop
    change (u.request.url.set u.request.urlLen 0) (cfg.urlBufferSize - 1) = 0
    rw [Mem.set_apply]
    split
    · rfl
    · exact looped.1
  · rw [returns_pure] at h
    rw [h]
    exact ends

theorem reachable_ends {cfg : Config} {s : State} (h : Reachable cfg s) : s.request.UrlEnds cfg := by
  have size := cfg.url_ge
  refine @reachable_url (fun m => m (cfg.urlBufferSize - 1) = 0) cfg ?_ ?_ ?_ s h
  · intro m i zero
    rw [Mem.set_apply]
    split
    · rfl
    · exact zero
  · intro r q p parse zero
    exact parseURL_ends zero parse
  · intro m zeros
    exact zeros _ (by omega)

/-! No cell holds a blank: the loops over a target find one only where it is delivered. -/

def Unblank (cfg : Config) (m : Mem) : Prop := ∀ i, i < cfg.urlBufferSize → isBlank (m i) = false

theorem Unblank.set {cfg : Config} {m : Mem} (unblank : Unblank cfg m) (i : Nat) {b : UInt8}
    (plain : isBlank b = false) : Unblank cfg (m.set i b) := by
  intro j inside
  rw [Mem.set_apply]
  split
  · exact plain
  · exact unblank j inside

theorem parseURLStep_unblank {cfg : Config} {p : Parsed} (unblank : Unblank cfg p.request.url) :
    if (parseURLStep cfg p).2 then Unblank cfg (parseURLStep cfg p).1.request.url
    else Unblank cfg ((parseURLStep cfg p).1.request.url.set (parseURLStep cfg p).1.request.urlLen 0) := by
  cases blank : isBlank (readC (p.request.url p.request.urlLen) p.reader).c with
  | true =>
      simp only [parseURLStep, blank, if_true, Bool.false_eq_true, if_false, Mem.set_set]
      exact unblank.set _ (show isBlank 0 = false by decide)
  | false =>
      have stored := unblank.set p.request.urlLen blank
      have step : Unblank cfg (parseURLStep cfg p).1.request.url := by
        simp only [parseURLStep, blank, Bool.false_eq_true, if_false]
        split
        · exact stored.set _ (by decide)
        · exact stored
      split
      · exact step
      · exact step.set _ (by decide)

theorem parseURL_unblank {cfg : Config} : ParseKeeps cfg (Unblank cfg) := by
  intro r q p h unblank
  obtain ⟨t, -, h⟩ := returns_bind.mp h
  split at h
  · obtain ⟨u, loop, h⟩ := returns_bind.mp h
    obtain ⟨g, -, h⟩ := returns_bind.mp h
    rw [returns_pure] at h
    rw [h]
    exact doWhile_invariant (fun p => Unblank cfg p.request.url)
      (fun p => Unblank cfg (p.request.url.set p.request.urlLen 0))
      (fun p unblank => parseURLStep_unblank unblank) loop unblank
  · rw [returns_pure] at h
    rw [h]
    exact unblank

theorem reachable_unblank {cfg : Config} {s : State} (h : Reachable cfg s) :
    Unblank cfg s.request.url := by
  refine reachable_url ?_ parseURL_unblank ?_ h
  · intro m i unblank
    exact unblank.set i (by decide)
  · intro m zeros i inside
    rw [zeros i inside]
    decide

/-- The cell behind the target keeps the loop that drops the rest of it going. -/
theorem accept_last {cfg : Config} {s : State} (h : Reachable cfg s) (conn : Connection) :
    isBlank ((s.accept cfg conn).request.url (cfg.urlBufferSize - 1)) = false := by
  have ends : s.request.url (cfg.urlBufferSize - 1) = 0 := reachable_ends h
  change isBlank (s.request.url (cfg.urlBufferSize - 1)) = false
  rw [ends]
  decide

end AttoHTTP
