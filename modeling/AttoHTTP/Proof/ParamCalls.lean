import AttoHTTP.Proof.ParamSources

namespace AttoHTTP
open Library Comp

/-- What a call returns and the bytes it stores, from the start of each buffer on. -/
structure Yield where
  ret : UInt8
  name : List UInt8
  value : List UInt8

variable {cfg : Config} {nameLen valueLen : UInt8}

/-- A call with buffers of these sizes, whatever they hold. -/
def State.Yields (cfg : Config) (nameLen valueLen : UInt8) (s : State) (y : Yield) (s' : State) :
    Prop :=
  ∀ name value, (parseParam cfg name nameLen value valueLen s).Returns
    ⟨(y.ret, name.put y.name, value.put y.value), s'⟩

inductive ParamCalls (cfg : Config) (nameLen valueLen : UInt8) : State → List Yield → State → Prop
  | nil (s : State) : ParamCalls cfg nameLen valueLen s [] s
  | cons {s s' t : State} {y : Yield} {ys : List Yield}
      (call : s.Yields cfg nameLen valueLen y s') (rest : ParamCalls cfg nameLen valueLen s' ys t) :
      ParamCalls cfg nameLen valueLen s (y :: ys) t

theorem State.Yields.unique {s s₁ s₂ : State} {y₁ y₂ : Yield}
    (h₁ : s.Yields cfg nameLen valueLen y₁ s₁) (h₂ : s.Yields cfg nameLen valueLen y₂ s₂) :
    y₁ = y₂ ∧ s₁ = s₂ := by
  have same (name value : Mem) := (h₁ name value).unique (h₂ name value)
  simp only [ParamReply.mk.injEq, Prod.mk.injEq] at same
  obtain ⟨ret, name, value⟩ := y₁
  obtain ⟨ret', name', value'⟩ := y₂
  obtain rfl : ret = ret' := (same (fun _ => 0) fun _ => 0).1.1
  obtain rfl : name = name' := Mem.put_injective fun m => (same m fun _ => 0).1.2.1
  obtain rfl : value = value' := Mem.put_injective fun m => (same (fun _ => 0) m).1.2.2
  exact ⟨rfl, (same (fun _ => 0) fun _ => 0).2⟩

def State.UrlEncoded (s : State) : Prop :=
  s.request.method = .get ∨ s.request.method ∈ [.post, .put, .patch, .delete] ∧
    s.request.contenttype = .applicationXWwwFormUrlencoded

theorem parseParam_urlEncoded {s : State} (url : s.UrlEncoded) (name value : Mem) :
    parseParam cfg name nameLen value valueLen s =
      s.parseURLParam cfg (name.set 0 0) nameLen (value.set 0 0) valueLen := by
  unfold parseParam
  rcases url with get | ⟨other, form⟩
  · rw [get]
  · cases method : s.request.method with
    | get => rfl
    | notSupported =>
        rw [method] at other
        exact absurd other (by decide)
    | post => exact if_pos form
    | put => exact if_pos form
    | patch => exact if_pos form
    | delete => exact if_pos form

theorem State.SameOutside.urlEncoded {s s' : State} (same : s.SameOutside s')
    (url : s.UrlEncoded) : s'.UrlEncoded := by
  have method := Request.method_eq same.request
  have contenttype : s'.request.contenttype = s.request.contenttype := by
    simpa [Request.parsedPart] using congrArg Request.contenttype same.request
  unfold State.UrlEncoded
  rwa [method, contenttype]

def yieldOf (v : ParamView) : Yield :=
  ⟨if v.nameLen = 0 then 1 else 0, v.name ++ [0], v.value ++ [0]⟩

variable {holds : List UInt8 → Reader → Request → Prop} {past : Reader → Request → Prop}

theorem parseParam_run (source : CharSource cfg holds past) {text : List UInt8}
    (nonzero : ∀ b ∈ text, b ≠ 0) {nameLen valueLen : UInt8}
    (whole : ParamView.cut ⟨[], nameLen, [], valueLen⟩ text = false) {s : State}
    (url : s.UrlEncoded) (left : holds text s.reader s.request) {v : ParamView}
    {rest : Option (List UInt8)} (run : ParamView.run ⟨[], nameLen, [], valueLen⟩ text = (v, rest)) :
    ∃ s', s.Yields cfg nameLen valueLen (yieldOf v) s' ∧ s'.UrlEncoded ∧
      (∀ text', rest = some text' → holds text' s'.reader s'.request) ∧
      (rest = none → past s'.reader s'.request) := by
  obtain ⟨r', q', call, more, past⟩ := parseURLParam_run source nonzero whole left run
  have yields : s.Yields cfg nameLen valueLen (yieldOf v)
      { s with reader := r', request := q' } := by
    intro name value
    rw [parseParam_urlEncoded url]
    refine (call (name.set 0 0) (value.set 0 0)).bind (returns_pure.mpr ?_)
    rw [Mem.set_zero_put _ _ (by simp), Mem.set_zero_put _ _ (by simp)]
    rfl
  refine ⟨_, yields, ?_, more, past⟩
  exact (parseParam_sameOutside (yields (fun _ => 0) fun _ => 0)).urlEncoded url

theorem parseParam_readable (source : CharSource cfg holds past) {text : List UInt8}
    (well : Readable text) (nameLen valueLen : UInt8) {s : State} (url : s.UrlEncoded)
    (left : holds text s.reader s.request) {v : ParamView} {rest : Option (List UInt8)}
    (run : ParamView.run ⟨[], nameLen, [], valueLen⟩ text = (v, rest)) :
    ∃ s', s.Yields cfg nameLen valueLen (yieldOf v) s' ∧ s'.UrlEncoded ∧
      (∀ text', rest = some text' → Readable text' ∧ holds text' s'.reader s'.request) ∧
      (rest = none → past s'.reader s'.request) := by
  obtain ⟨s', yields, url', more, past⟩ :=
    parseParam_run source well.nonzero (well.uncut _) url left run
  refine ⟨s', yields, url', fun text' same => ⟨?_, more text' same⟩, past⟩
  refine ParamView.run_rest (v := ⟨[], nameLen, [], valueLen⟩) ?_ well
  rw [run, same]

/-! ## The places read -/

theorem parseURLParamChar_log {c : UInt8} {r : Reader} {q : Request} {g : ParamGot}
    (h : (parseURLParamChar cfg c r q).Returns g) : q.paramLog <+: g.request.paramLog := by
  unfold parseURLParamChar at h
  split at h
  · dsimp only at h
    split at h
    · rw [returns_pure.mp h]
      exact List.prefix_append _ _
    · rw [returns_pure.mp h]
  · rw [(bodyParam_follows h).2]

theorem paramToken_log {t : UrlParamLoop} {k : ParamToken × UrlParamLoop}
    (h : (paramToken cfg t).Returns k) : t.request.paramLog <+: k.2.request.paramLog := by
  obtain ⟨g, char, h⟩ := returns_bind.mp h
  have first := parseURLParamChar_log char
  unfold classify at h
  split at h
  · split at h
    · rwa [returns_pure.mp h]
    · split at h
      · rwa [returns_pure.mp h]
      · split at h
        · obtain ⟨u, decoded, h⟩ := returns_bind.mp h
          obtain ⟨a, second, decoded⟩ := returns_bind.mp decoded
          obtain ⟨b, third, decoded⟩ := returns_bind.mp decoded
          rw [returns_pure.mp h, returns_pure.mp decoded]
          exact (first.trans (parseURLParamChar_log second)).trans (parseURLParamChar_log third)
        · rwa [returns_pure.mp h]
  · rwa [returns_pure.mp h]

theorem take_request (t : UrlParamLoop) (token : ParamToken) :
    (t.take token).1.reader = t.reader ∧ (t.take token).1.request = t.request := by
  cases token with
  | char b => exact storeParamChar_reader t
  | stop => exact ⟨rfl, rfl⟩
  | divide => exact ⟨rfl, rfl⟩
  | separate => exact ⟨rfl, rfl⟩

theorem parseURLParam_log {name value : Mem} {r : Reader} {q : Request} {p : UrlParam}
    (h : (parseURLParam cfg name nameLen value valueLen r q).Returns p) :
    q.paramLog <+: p.request.paramLog := by
  obtain ⟨t, loop, h⟩ := returns_bind.mp h
  rw [returns_pure.mp h]
  have body {t : UrlParamLoop} {p : UrlParamLoop × Bool} (h : (urlParamBody cfg t).Returns p) :
      t.request.paramLog <+: p.1.request.paramLog := by
    obtain ⟨k, token, rfl⟩ := urlParamBody_returns.mp h
    rw [(take_request k.2 k.1).2]
    exact paramToken_log token
  exact doWhileM_induction (motive := fun s t => s.request.paramLog <+: t.request.paramLog)
    (fun s p step _ => body step) (fun s p t step _ rest => (body step).trans rest) loop

theorem parseParam_log {name value : Mem} {s : State} {p : ParamReply} (url : s.UrlEncoded)
    (h : (parseParam cfg name nameLen value valueLen s).Returns p) :
    s.request.paramLog <+: p.state.request.paramLog := by
  rw [parseParam_urlEncoded url] at h
  obtain ⟨u, param, h⟩ := returns_bind.mp h
  rw [returns_pure.mp h]
  exact parseURLParam_log param

theorem ParamCalls.log {s t : State} {ys : List Yield} (h : ParamCalls cfg nameLen valueLen s ys t)
    (url : s.UrlEncoded) : s.request.paramLog <+: t.request.paramLog := by
  induction h with
  | nil s => exact List.prefix_rfl
  | cons call rest ih =>
      have step := call (fun _ => 0) fun _ => 0
      have next := ih ((parseParam_sameOutside step).urlEncoded url)
      exact (parseParam_log url step).trans next

/-! ## Query and body -/

/-- One run has this much of a query left and the other this much of a body. -/
structure InStep (cfg : Config) (origin stop : Nat) (text : List UInt8) (s s' : State) : Prop where
  readable : Readable text
  query : QueryHolds cfg origin stop text s.reader s.request
  body : BodyHolds text s'.reader s'.request
  url : s.UrlEncoded
  url' : s'.UrlEncoded

theorem InStep.call {origin stop : Nat} {text : List UInt8} {s s' : State}
    (h : InStep cfg origin stop text s s') (nameLen valueLen : UInt8) :
    ∃ y u u', s.Yields cfg nameLen valueLen y u ∧ s'.Yields cfg nameLen valueLen y u' ∧
      ((∃ rest, InStep cfg origin stop rest u u') ∨ .url stop ∈ u.request.paramLog) := by
  rcases run : ParamView.run ⟨[], nameLen, [], valueLen⟩ text with ⟨v, rest⟩
  obtain ⟨u, call, url, more, past⟩ :=
    parseParam_readable (query_source cfg origin stop) h.readable nameLen valueLen h.url h.query run
  obtain ⟨u', call', url', more', past'⟩ :=
    parseParam_readable (body_source cfg) h.readable nameLen valueLen h.url' h.body run
  refine ⟨_, u, u', call, call', ?_⟩
  cases rest with
  | none =>
      right
      have log : u.request.paramLog = readPlaces origin (stop + 1) := (past rfl).paramLog
      obtain ⟨k, here, size, -⟩ := h.query.reached
      rw [log, readPlaces]
      refine List.mem_map.mpr ⟨stop, ?_, rfl⟩
      have started := here.started
      simp only [List.mem_range'_1]
      omega
  | some rest =>
      obtain ⟨readable, query⟩ := more rest rfl
      exact .inl ⟨rest, readable, query, (more' rest rfl).2, url, url'⟩

theorem InStep.calls {origin stop : Nat} {text : List UInt8} {s s' u : State} {ys : List Yield}
    (h : InStep cfg origin stop text s s') (calls : ParamCalls cfg nameLen valueLen s ys u)
    (inside : .url stop ∉ u.request.paramLog) :
    ∃ u' rest, ParamCalls cfg nameLen valueLen s' ys u' ∧ InStep cfg origin stop rest u u' := by
  induction calls generalizing text s' with
  | nil s => exact ⟨s', text, .nil s', h⟩
  | cons call rest ih =>
      obtain ⟨y, v, v', call₁, call₂, next⟩ := h.call nameLen valueLen
      obtain ⟨rfl, rfl⟩ := call.unique call₁
      rcases next with ⟨left, step⟩ | past
      · obtain ⟨u', last, rest', step'⟩ := ih step inside
        exact ⟨u', last, .cons call₂ rest', step'⟩
      · have url := (parseParam_sameOutside (call (fun _ => 0) fun _ => 0)).urlEncoded h.url
        exact absurd ((rest.log url).subset past) inside

end AttoHTTP
