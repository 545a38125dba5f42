import AttoHTTP.Model.Headers
import AttoHTTP.Proof.Reader

/-!
# What the parsers keep

The parsers change the request in few ways. A property that survives each of them holds after
parsing, wherever the request was cut.
-/

namespace AttoHTTP
open Library Comp

/-- Kept by what comes after the URL. -/
structure TailInvariant (cfg : Config) (check : CheckAuth) (inv : Request → Prop) : Prop where
  version : ∀ q version, inv q → inv { q with version := version }
  done : ∀ q, inv q → inv { q with headersDone := true }
  header : ∀ q name value, inv q → inv (recordHeader cfg check name value q)

structure RequestInvariant (cfg : Config) (check : CheckAuth) (inv : Request → Prop) : Prop
    extends TailInvariant cfg check inv where
  method : ∀ q method, inv q → inv { q with method := method }
  url : ∀ r q p, (parseURL cfg r q).Returns p → inv q → inv p.request
  unsupported : ∀ q, inv q → inv { q with returnCode := statusUnsupported }
  failed : ∀ q, inv q → inv { q with returnCode := statusInternalError }

/-- `_attoHTTPParseURL` touches the variables of the URL only. -/
def Request.SameButUrl (q q' : Request) : Prop :=
  ∃ url params start len,
    q' = { q with url := url, urlParams := params, urlParamsStart := start, urlLen := len }

theorem parseURLStep_sameButUrl (cfg : Config) {q : Request} {p : Parsed}
    (same : q.SameButUrl p.request) : q.SameButUrl (parseURLStep cfg p).1.request := by
  obtain ⟨url, params, start, len, request⟩ := same
  simp only [parseURLStep, request]
  split
  · exact ⟨_, _, _, _, rfl⟩
  · split <;> exact ⟨_, _, _, _, rfl⟩

theorem parseURL_sameButUrl {cfg : Config} {r : Reader} {q : Request} {p : Parsed}
    (h : (parseURL cfg r q).Returns p) : q.SameButUrl p.request := by
  obtain ⟨t, -, h⟩ := returns_bind.mp h
  split at h
  · obtain ⟨u, loop, h⟩ := returns_bind.mp h
    obtain ⟨g, -, h⟩ := returns_bind.mp h
    rw [returns_pure] at h
    have looped : q.SameButUrl u.request := by
      refine doWhile_invariant (fun p => q.SameButUrl p.request) (fun p => q.SameButUrl p.request)
        ?_ loop ⟨_, _, _, _, rfl⟩
      intro p same
      have step := parseURLStep_sameButUrl cfg same
      split <;> exact step
    obtain ⟨url, params, start, len, request⟩ := looped
    rw [h, request]
    exact ⟨_, _, _, _, rfl⟩
  · rw [returns_pure] at h
    rw [h]
    exact ⟨_, _, _, _, rfl⟩

section Invariants
variable {cfg : Config} {check : CheckAuth} {inv : Request → Prop}

namespace TailInvariant

theorem parseEOL (keeps : TailInvariant cfg check inv) {r : Reader} {q : Request} {p : Parsed}
    (h : (AttoHTTP.parseEOL r q).Returns p) (start : inv q) : inv p.request := by
  obtain ⟨t, -, h⟩ := returns_bind.mp h
  rw [returns_pure] at h
  rw [h]
  dsimp only
  split
  · exact keeps.done q start
  · exact start

theorem parseVersion (keeps : TailInvariant cfg check inv) {r : Reader} {q : Request}
    {p : Parsed} (h : (AttoHTTP.parseVersion r q).Returns p) (start : inv q) : inv p.request := by
  obtain ⟨t, -, h⟩ := returns_bind.mp h
  split at h
  · obtain ⟨f, -, h⟩ := returns_bind.mp h
    exact keeps.parseEOL h (keeps.version q _ start)
  · exact keeps.parseEOL h start

theorem parseHeadersBody (keeps : TailInvariant cfg check inv) {h h' : HeaderLoop}
    (step : (AttoHTTP.parseHeadersBody cfg check h).Returns h') (start : inv h.request) :
    inv h'.request := by
  obtain ⟨k, header, step⟩ := returns_bind.mp step
  rw [returns_pure] at step
  rw [step]
  obtain ⟨f, -, header⟩ := returns_bind.mp header
  obtain ⟨t, -, header⟩ := returns_bind.mp header
  obtain ⟨v, -, header⟩ := returns_bind.mp header
  obtain ⟨p, line, header⟩ := returns_bind.mp header
  rw [returns_pure] at header
  rw [header]
  exact keeps.header _ _ _ (keeps.parseEOL line start)

theorem parseHeaders (keeps : TailInvariant cfg check inv) {r : Reader} {q : Request}
    {p : Parsed} (h : (AttoHTTP.parseHeaders cfg check r q).Returns p) (start : inv q) :
    inv p.request := by
  obtain ⟨k, loop, h⟩ := returns_bind.mp h
  rw [returns_pure] at h
  rw [h]
  refine whileDoM_induction (motive := fun h k => inv h.request → inv k.request) ?_ ?_ loop start
  · intro h stop same
    exact same
  · intro h h' k again step rest same
    exact rest (keeps.parseHeadersBody step same)

end TailInvariant

namespace RequestInvariant

theorem parseMethod (keeps : RequestInvariant cfg check inv) {r : Reader} {q : Request}
    {p : Parsed} (h : (AttoHTTP.parseMethod r q).Returns p) (start : inv q) : inv p.request := by
  obtain ⟨t, -, h⟩ := returns_bind.mp h
  split at h
  · obtain ⟨f, -, h⟩ := returns_bind.mp h
    dsimp only at h
    split at h
    · rw [returns_pure] at h
      rw [h]
      exact keeps.method q _ start
    · rw [returns_pure] at h
      rw [h]
      exact keeps.unsupported q start
  · rw [returns_pure] at h
    rw [h]
    exact keeps.failed q start

theorem parseRequestLine (keeps : RequestInvariant cfg check inv) {r : Reader} {q : Request}
    {p : Parsed} (h : (AttoHTTP.parseRequestLine cfg r q).Returns p) (start : inv q) :
    inv p.request := by
  obtain ⟨m, method, h⟩ := returns_bind.mp h
  have first := keeps.parseMethod method start
  split at h
  · obtain ⟨u, url, h⟩ := returns_bind.mp h
    exact keeps.parseVersion h (keeps.url _ _ _ url first)
  · rw [returns_pure] at h
    rw [h]
    exact first

theorem parseRequest (keeps : RequestInvariant cfg check inv) {r : Reader} {q : Request}
    {p : Parsed} (h : (AttoHTTP.parseRequest cfg check r q).Returns p) (start : inv q) :
    inv p.request := by
  obtain ⟨v, line, h⟩ := returns_bind.mp h
  have first := keeps.parseRequestLine line start
  split at h
  · exact keeps.parseHeaders h first
  · rw [returns_pure] at h
    rw [h]
    exact first

end RequestInvariant
end Invariants
end AttoHTTP
