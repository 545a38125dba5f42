import AttoHTTP.Model.Headers
import AttoHTTP.Proof.Reader

namespace AttoHTTP
open Library Comp

theorem parseMethod_follows {r : Reader} {q : Request} {p : Parsed}
    (h : (parseMethod r q).Returns p) : p.reader.Follows r := by
  obtain ⟨t, space, h⟩ := returns_bind.mp h
  have first : t.reader.Follows r := (parseSpace_follows space).trans (enter_follows r)
  split at h
  · obtain ⟨f, token, h⟩ := returns_bind.mp h
    have second := (fill_follows token).trans first
    dsimp only at h
    split at h
    · rw [returns_pure] at h
      rwa [h]
    · rw [returns_pure] at h
      rwa [h]
  · rw [returns_pure] at h
    rwa [h]

theorem parseMethod_total {r : Reader} (final : r.atEnd.ret ≤ 0) (q : Request) :
    ∃ p, (parseMethod r q).Returns p := by
  obtain ⟨t, space⟩ := parseSpace_total (r := r.enter) final
  simp only [parseMethod, space.bind_iff]
  split
  · obtain ⟨f, token⟩ := fill_total isBlank (fun ret => 0 < ret) (tokenSize - 1) r.frame t.reader
    simp only [token.bind_iff]
    split <;> exact ⟨_, returns_pure.mpr rfl⟩
  · exact ⟨_, returns_pure.mpr rfl⟩

theorem parseURLStep_reader (cfg : Config) (p : Parsed) :
    (parseURLStep cfg p).1.reader = (readC (p.request.url p.request.urlLen) p.reader).reader := by
  simp only [parseURLStep]
  split <;> rfl

theorem urlLoop_follows {cfg : Config} {p t : Parsed} (h : (doWhile (parseURLStep cfg) p).Returns t) :
    t.reader.Follows p.reader := by
  refine doWhile_invariant (fun t => t.reader.Follows p.reader) (fun t => t.reader.Follows p.reader)
    ?_ h (Reader.Follows.refl _)
  intro t ht
  have step : (parseURLStep cfg t).1.reader.Follows p.reader := by
    rw [parseURLStep_reader]
    exact (readC_follows _ _).trans ht
  split <;> exact step

theorem urlLoop_total (cfg : Config) {p : Parsed} (final : p.reader.atEnd.ret = 0) :
    ∃ t, (doWhile (parseURLStep cfg) p).Returns t := by
  suffices round : ∃ t, (doWhile (parseURLStep cfg) p).Returns t ∧ True by
    obtain ⟨t, loop, -⟩ := round
    exact ⟨t, loop⟩
  apply doWhile_total (fun t => t.reader.pending.length) (fun t => t.reader.atEnd = p.reader.atEnd)
    (fun _ => True) _ _ rfl
  intro t ht
  split
  · rename_i again
    have success : t.reader.next.ret ≠ 0 := by
      simp only [parseURLStep] at again
      split at again
      · simp at again
      · simp only [readC_ret, Bool.and_eq_true, decide_eq_true_eq] at again
        exact again.1
    have lower := pending_tail_lt (ht ▸ final) success
    rw [parseURLStep_reader]
    exact ⟨by simp [ht], by simpa using lower⟩
  · trivial

theorem dropLoop_follows {g t : Got}
    (h : (whileDo (fun g => g.ret ≠ 0 && !isBlank g.c) (fun g => readC g.c g.reader) g).Returns t) :
    t.reader.Follows g.reader := by
  unfold whileDo at h
  split at h
  · refine doWhile_invariant (fun t => t.reader.Follows g.reader)
      (fun t => t.reader.Follows g.reader) ?_ h (Reader.Follows.refl _)
    intro t ht
    split <;> exact (readC_follows _ _).trans ht
  · rw [returns_pure] at h
    rw [h]
    exact Reader.Follows.refl _

theorem dropLoop_total {g : Got} (final : g.reader.atEnd.ret = 0) :
    ∃ t, (whileDo (fun g => g.ret ≠ 0 && !isBlank g.c) (fun g => readC g.c g.reader) g).Returns t := by
  unfold whileDo
  split
  · suffices round : ∃ t, (doWhile (fun g : Got => (readC g.c g.reader,
        (readC g.c g.reader).ret ≠ 0 && !isBlank (readC g.c g.reader).c)) g).Returns t ∧ True by
      obtain ⟨t, loop, -⟩ := round
      exact ⟨t, loop⟩
    apply doWhile_total (fun t => t.reader.pending.length) (fun t => t.reader.atEnd = g.reader.atEnd)
      (fun _ => True) _ _ rfl
    intro t ht
    split
    · rename_i again
      simp only [readC_ret, Bool.and_eq_true, decide_eq_true_eq] at again
      have lower := pending_tail_lt (ht ▸ final) again.1
      exact ⟨by simp [ht], by simpa using lower⟩
    · trivial
  · exact ⟨g, returns_pure.mpr rfl⟩

theorem parseURL_follows {cfg : Config} {r : Reader} {q : Request} {p : Parsed}
    (h : (parseURL cfg r q).Returns p) : p.reader.Follows r := by
  obtain ⟨t, space, h⟩ := returns_bind.mp h
  have first := parseSpace_follows space
  split at h
  · obtain ⟨u, url, h⟩ := returns_bind.mp h
    obtain ⟨g, rest, h⟩ := returns_bind.mp h
    rw [returns_pure] at h
    subst h
    exact (pushC_follows _ _).trans ((dropLoop_follows rest).trans ((urlLoop_follows url).trans first))
  · rw [returns_pure] at h
    rwa [h]

theorem parseURL_total (cfg : Config) {r : Reader} (final : r.atEnd.ret = 0) (q : Request) :
    ∃ p, (parseURL cfg r q).Returns p := by
  obtain ⟨t, space⟩ := parseSpace_total (Int8.le_of_eq final)
  have first := parseSpace_follows space
  simp only [parseURL, space.bind_iff]
  split
  · obtain ⟨u, url⟩ := urlLoop_total cfg (p := ⟨t.ret, t.reader, { q with urlLen := 0 }⟩)
      (by rw [first.atEnd, final])
    have second := (urlLoop_follows url).trans first
    obtain ⟨g, rest⟩ := dropLoop_total (g := ⟨u.ret, u.request.url u.request.urlLen, u.reader⟩)
      (by rw [second.atEnd, final])
    simp only [url.bind_iff, rest.bind_iff]
    exact ⟨_, returns_pure.mpr rfl⟩
  · exact ⟨_, returns_pure.mpr rfl⟩

theorem parseVersion_follows {r : Reader} {q : Request} {p : Parsed}
    (h : (parseVersion r q).Returns p) : p.reader.Follows r := by
  obtain ⟨t, space, h⟩ := returns_bind.mp h
  have first : t.reader.Follows r := (parseSpace_follows space).trans (enter_follows r)
  split at h
  · obtain ⟨f, token, h⟩ := returns_bind.mp h
    exact (parseEOL_follows h).trans ((pushC_follows _ _).trans ((fill_follows token).trans first))
  · exact (parseEOL_follows h).trans first

theorem parseVersion_total {r : Reader} (final : r.atEnd.ret = 0) (q : Request) :
    ∃ p, (parseVersion r q).Returns p := by
  obtain ⟨t, space⟩ := parseSpace_total (r := r.enter) (Int8.le_of_eq final)
  have first : t.reader.Follows r := (parseSpace_follows space).trans (enter_follows r)
  simp only [parseVersion, space.bind_iff]
  split
  · obtain ⟨f, token⟩ := fill_total isSpace (fun ret => ret ≠ 0) (tokenSize - 1) r.frame t.reader
    simp only [token.bind_iff]
    exact parseEOL_total (by rw [pushC_atEnd, (fill_follows token).atEnd, first.atEnd, final]) _
  · exact parseEOL_total (by rw [first.atEnd, final]) _

theorem parseHeader_follows {cfg : Config} {h h' : HeaderLoop} (step : (parseHeader cfg h).Returns h') :
    h'.reader.Follows h.reader := by
  obtain ⟨f, name, step⟩ := returns_bind.mp step
  obtain ⟨t, space, step⟩ := returns_bind.mp step
  obtain ⟨v, value, step⟩ := returns_bind.mp step
  obtain ⟨p, line, step⟩ := returns_bind.mp step
  rw [returns_pure] at step
  subst step
  have third := (fill_follows value).trans ((parseSpace_follows space).trans (fill_follows name))
  refine (parseEOL_follows line).trans ?_
  split
  · exact (pushC_follows _ _).trans third
  · exact third

theorem parseHeader_progress {cfg : Config} {h h' : HeaderLoop}
    (step : (parseHeader cfg h).Returns h') (final : h.reader.atEnd.ret ≤ 0) (more : 0 < h'.ret) :
    h'.reader.input.length < h.reader.input.length := by
  obtain ⟨f, name, step⟩ := returns_bind.mp step
  obtain ⟨t, space, step⟩ := returns_bind.mp step
  obtain ⟨v, value, step⟩ := returns_bind.mp step
  obtain ⟨p, line, step⟩ := returns_bind.mp step
  rw [returns_pure] at step
  subst step
  have third := (fill_follows value).trans ((parseSpace_follows space).trans (fill_follows name))
  have pushed : (if v.ptr < cfg.headerValueSize - 1 then pushC (v.buffer v.ptr) v.reader
      else v.reader).Follows h.reader := by
    split
    · exact (pushC_follows _ _).trans third
    · exact third
  exact (parseEOL_progress line (pushed.atEnd ▸ final) more).trans_le pushed.input.length_le

theorem parseHeader_total (cfg : Config) {h : HeaderLoop} (final : h.reader.atEnd.ret = 0) :
    ∃ h', (parseHeader cfg h).Returns h' := by
  obtain ⟨f, name⟩ := fill_total (fun c => c == 58) (fun ret => 0 < ret) (cfg.headerNameSize - 1)
    h.name h.reader
  have first := fill_follows name
  obtain ⟨t, space⟩ := parseSpace_total (r := f.reader) (Int8.le_of_eq (first.atEnd ▸ final))
  have second := (parseSpace_follows space).trans first
  obtain ⟨v, value⟩ := fill_total (fun c => c == 13 || c == 10) (fun ret => 0 < ret)
    (cfg.headerValueSize - 1) h.value t.reader
  have third := (fill_follows value).trans second
  have last : (if v.ptr < cfg.headerValueSize - 1 then pushC (v.buffer v.ptr) v.reader
      else v.reader).atEnd.ret = 0 := by
    split <;> exact third.atEnd ▸ final
  obtain ⟨p, line⟩ := parseEOL_total last h.request
  exact ⟨_, name.bind (space.bind (value.bind (line.bind (returns_pure.mpr rfl))))⟩

theorem parseHeadersBody_follows {cfg : Config} {check : CheckAuth} {h h' : HeaderLoop}
    (step : (parseHeadersBody cfg check h).Returns h') : h'.reader.Follows h.reader := by
  obtain ⟨k, header, step⟩ := returns_bind.mp step
  rw [returns_pure] at step
  subst step
  have moved := parseHeader_follows header
  exact moved

theorem parseHeaders_follows {cfg : Config} {check : CheckAuth} {r : Reader} {q : Request}
    {p : Parsed} (h : (parseHeaders cfg check r q).Returns p) : p.reader.Follows r := by
  obtain ⟨k, loop, h⟩ := returns_bind.mp h
  rw [returns_pure] at h
  subst h
  have moved : k.reader.Follows r.enter.enter :=
    whileDoM_induction (motive := fun h k => k.reader.Follows h.reader)
      (fun h _ => Reader.Follows.refl h.reader)
      (fun h h' k _ step rest => rest.trans (parseHeadersBody_follows step)) loop
  exact moved.trans ((enter_follows _).trans (enter_follows r))

theorem parseHeaders_total (cfg : Config) (check : CheckAuth) {r : Reader}
    (final : r.atEnd.ret = 0) (q : Request) : ∃ p, (parseHeaders cfg check r q).Returns p := by
  suffices rounds : ∃ h, (whileDoM moreHeaders (parseHeadersBody cfg check)
      ⟨1, r.frame, r.enter.frame, r.enter.enter, q⟩).Returns h ∧ h.reader.atEnd.ret = 0 by
    obtain ⟨h, loop, -⟩ := rounds
    exact ⟨_, loop.bind (returns_pure.mpr rfl)⟩
  apply whileDoM_total (fun h : HeaderLoop => h.reader.input.length)
    (fun h => h.reader.atEnd.ret = 0) _ _ final
  intro h final again
  obtain ⟨h', header⟩ := parseHeader_total cfg final
  refine ⟨_, header.bind (returns_pure.mpr rfl), ?_, fun more => ?_⟩
  · rw [(parseHeader_follows header).atEnd, final]
  · simp only [moreHeaders, Bool.and_eq_true, decide_eq_true_eq] at more
    have progress := parseHeader_progress header (Int8.le_of_eq final)
    exact progress more.2

theorem parseRequestLine_follows {cfg : Config} {r : Reader} {q : Request} {p : Parsed}
    (h : (parseRequestLine cfg r q).Returns p) : p.reader.Follows r := by
  obtain ⟨m, method, h⟩ := returns_bind.mp h
  have first := parseMethod_follows method
  split at h
  · obtain ⟨u, url, h⟩ := returns_bind.mp h
    exact (parseVersion_follows h).trans ((parseURL_follows url).trans first)
  · rw [returns_pure] at h
    rwa [h]

theorem parseRequestLine_total (cfg : Config) {r : Reader} (final : r.atEnd.ret = 0)
    (q : Request) : ∃ p, (parseRequestLine cfg r q).Returns p := by
  obtain ⟨m, method⟩ := parseMethod_total (Int8.le_of_eq final) q
  have first : m.reader.atEnd.ret = 0 := by rw [(parseMethod_follows method).atEnd, final]
  simp only [parseRequestLine, method.bind_iff]
  split
  · obtain ⟨u, url⟩ := parseURL_total cfg first m.request
    obtain ⟨v, version⟩ := parseVersion_total (by rw [(parseURL_follows url).atEnd, first]) u.request
    exact ⟨v, url.bind version⟩
  · exact ⟨m, returns_pure.mpr rfl⟩

theorem parseRequest_follows {cfg : Config} {check : CheckAuth} {r : Reader} {q : Request}
    {p : Parsed} (h : (parseRequest cfg check r q).Returns p) : p.reader.Follows r := by
  obtain ⟨v, line, h⟩ := returns_bind.mp h
  have first := parseRequestLine_follows line
  split at h
  · exact (parseHeaders_follows h).trans first
  · rw [returns_pure] at h
    rwa [h]

theorem parseRequest_total (cfg : Config) (check : CheckAuth) {r : Reader}
    (final : r.atEnd.ret = 0) (q : Request) : ∃ p, (parseRequest cfg check r q).Returns p := by
  obtain ⟨v, line⟩ := parseRequestLine_total cfg final q
  simp only [parseRequest, line.bind_iff]
  split
  · exact parseHeaders_total cfg check (by rw [(parseRequestLine_follows line).atEnd, final]) _
  · exact ⟨v, returns_pure.mpr rfl⟩

end AttoHTTP
