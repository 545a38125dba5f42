import AttoHTTP.Proof.Entry
import AttoHTTP.Proof.JsonMachine
import AttoHTTP.Proof.Leftovers

namespace AttoHTTP
open Library Comp

variable {cfg : Config}

/-! ## Answers -/

def State.withReader (s : State) (r : Reader) : State := { s with reader := r }

/-- The states differ in the variables of the coming calls only. -/
def State.Alike (s s' : State) : Prop := ∃ r, s.reader.Same r ∧ s' = s.withReader r

def WriteOnly (f : State → State) : Prop := ∀ s r, f (s.withReader r) = (f s).withReader r

theorem WriteOnly.alike {f : State → State} (only : WriteOnly f) {s s' : State} (h : s.Alike s') :
    (f s).Alike (f s') := by
  obtain ⟨r, same, rfl⟩ := h
  have own : f s = (f s).withReader s.reader := only s s.reader
  have kept : (f s).reader = s.reader := by
    rw [own]
    rfl
  exact ⟨r, kept ▸ same, only s r⟩

theorem WriteOnly.comp {f g : State → State} (first : WriteOnly f) (second : WriteOnly g) :
    WriteOnly fun s => g (f s) := by
  intro s r
  dsimp only
  rw [first, second]

theorem WriteOnly.ite (test : State → Prop) [DecidablePred test] {f g : State → State}
    (same : ∀ s r, test (s.withReader r) ↔ test s) (yes : WriteOnly f) (no : WriteOnly g) :
    WriteOnly fun s => if test s then f s else g s := by
  intro s r
  dsimp only
  by_cases holds : test s
  · rw [if_pos holds, if_pos ((same s r).mpr holds), yes]
  · rw [if_neg holds, if_neg (mt (same s r).mp holds), no]

theorem WriteOnly.id : WriteOnly fun s => s := fun _ _ => rfl

theorem mark_writeOnly (e : Event) : WriteOnly fun s => s.mark e := fun _ _ => rfl

theorem setReturnCode_writeOnly (code : ReturnCode) : WriteOnly (State.setReturnCode code) :=
  fun _ _ => rfl

def SendOnly {α : Type} (f : State → Sent α) : Prop :=
  ∀ s r, f (s.withReader r) = ⟨(f s).count, (f s).state.withReader r⟩

theorem SendOnly.alike {α : Type} {f : State → Sent α} (only : SendOnly f) {s s' : State}
    (h : s.Alike s') : (f s').count = (f s).count ∧ (f s).state.Alike (f s').state := by
  have state : WriteOnly fun s => (f s).state := fun s r => congrArg Sent.state (only s r)
  refine ⟨?_, state.alike h⟩
  obtain ⟨r, same, rfl⟩ := h
  rw [only s r]

theorem firstLine_withReader (code : UInt16) (s : State) (r : Reader) :
    firstLine cfg code (s.withReader r) =
      ⟨(firstLine cfg code s).count, (firstLine cfg code s).state.withReader r⟩ := by
  unfold firstLine
  change (if s.writer.firstlineSent then _ else _) = _
  split
  · rfl
  · cases reasonPhrase code <;> rfl

theorem ensureFirstLine_withReader (code : UInt16) (s : State) (r : Reader) :
    ensureFirstLine cfg code (s.withReader r) = (ensureFirstLine cfg code s).withReader r := by
  unfold ensureFirstLine
  change (if s.writer.firstlineSent then _ else _) = _
  split
  · rfl
  · rw [firstLine_withReader]

theorem sendHeaders_withReader (s : State) (r : Reader) : sendHeaders cfg (s.withReader r) =
    ⟨(sendHeaders cfg s).count, (sendHeaders cfg s).state.withReader r⟩ := by
  unfold sendHeaders
  rw [ensureFirstLine_withReader,
    show (s.withReader r).request.returnCode = s.request.returnCode from rfl]
  generalize ensureFirstLine cfg s.request.returnCode.toUInt16 s = t
  dsimp only
  change (if t.writer.headersSent then _ else _) = _
  split
  · rfl
  · by_cases sized : 0 < t.request.contentlength
    · cases cfg.gzipPages <;> simp only [State.withReader, State.mark, State.printf, sized] <;> rfl
    · cases cfg.gzipPages <;> simp only [State.withReader, State.mark, State.printf, sized] <;> rfl

theorem restSendHeaders_withReader (code : UInt16) (type : List UInt8)
    (headers : Option (List UInt8)) (s : State) (r : Reader) :
    restSendHeaders cfg code type headers (s.withReader r) =
      ⟨(restSendHeaders cfg code type headers s).count,
        (restSendHeaders cfg code type headers s).state.withReader r⟩ := by
  unfold restSendHeaders
  rw [ensureFirstLine_withReader]
  generalize ensureFirstLine cfg code s = t
  dsimp only
  change (if t.writer.headersSent then _ else _) = _
  split
  · rfl
  · cases headers <;> rfl

theorem sendServerSentEventHeaders_writeOnly :
    WriteOnly fun s => (sendServerSentEventHeaders cfg s).state := by
  intro s r
  beta_reduce
  unfold sendServerSentEventHeaders
  rw [firstLine_withReader]
  rfl

theorem printfAll_withReader (texts : List (List UInt8)) (s : State) (r : Reader) :
    (s.withReader r).printfAll cfg texts =
      ⟨(s.printfAll cfg texts).count, (s.printfAll cfg texts).state.withReader r⟩ := by
  induction texts generalizing s with
  | nil => rfl
  | cons text texts ih =>
      have first : (s.withReader r).printf cfg text =
          ⟨(s.printf cfg text).count, (s.printf cfg text).state.withReader r⟩ := rfl
      rw [State.printfAll, first, State.printfAll]
      dsimp only
      rw [ih]

theorem sendAuthMessage_writeOnly : WriteOnly fun s => (sendAuthMessage cfg none s).state := by
  intro s r
  beta_reduce
  unfold sendAuthMessage
  rw [ensureFirstLine_withReader]
  generalize ensureFirstLine cfg statusUnauthorized.toUInt16 s = t
  have mark : (t.withReader r).mark .headerBlock = (t.mark .headerBlock).withReader r := rfl
  have print (text : List UInt8) (u : State) : (u.withReader r).print text =
      ⟨(u.print text).count, (u.print text).state.withReader r⟩ := rfl
  have sent (u : State) : (u.withReader r).headersSent = u.headersSent.withReader r := rfl
  have written : (t.withReader r).writer = t.writer := rfl
  simp only [mark, printfAll_withReader, print, sent, written]
  by_cases done : t.writer.headersSent
  · rw [if_pos done, if_pos done]
  · rw [if_neg done, if_neg done]

theorem finish_writeOnly : WriteOnly (finish cfg) := by
  have line (code : State → UInt16) (same : ∀ s r, code (s.withReader r) = code s) :
      WriteOnly fun s => (firstLine cfg (code s) s).state := by
    intro s r
    dsimp only
    rw [same, firstLine_withReader]
  exact .ite _ (fun _ _ => Iff.rfl) sendAuthMessage_writeOnly
    (.ite _ (fun _ _ => Iff.rfl) (line (fun _ => statusOk.toUInt16) fun _ _ => rfl)
      (line (fun s => s.request.returnCode.toUInt16) fun _ _ => rfl))

theorem sendPage_writeOnly (p : Page) : WriteOnly (sendPage cfg p) := by
  intro s r
  unfold sendPage
  have offer : ({ s.withReader r with
      request := { (s.withReader r).request with
        returnCode := statusOk, contenttype := p.type, contentlength := p.size } } : State) =
      State.withReader { s with
        request := { s.request with
          returnCode := statusOk, contenttype := p.type, contentlength := p.size } } r := rfl
  rw [offer]
  dsimp only
  rw [sendHeaders_withReader]
  rfl

/-! ## Parameters -/

def SuppliedCall (cfg : Config) (nameLen valueLen : UInt8) (r : Reader) (q : Request) : Prop :=
  ∀ name value v b, Comp.Reaches (urlParamBody cfg)
    (ParamView.loop ⟨[], nameLen, [], valueLen⟩ name value
      ⟨0, r.frame 0, r.frame.skip 1, r.enter, q⟩) (ParamView.loop v name value b) → b.Supplied cfg

theorem parseURLParam_same {name value : Mem} {nameLen valueLen : UInt8} {r : Reader} {q : Request}
    {p : UrlParam} (h : (parseURLParam cfg name nameLen value valueLen r q).Returns p)
    (supplied : SuppliedCall cfg nameLen valueLen r q) {r' : Reader} (same : r.Same r') :
    ∃ u, p.reader.Same u ∧ (parseURLParam cfg name nameLen value valueLen r' q).Returns
      { p with reader := u } := by
  obtain ⟨t, loop, h⟩ := returns_bind.mp h
  have start : ∃ v b b',
      (⟨0, r.frame 0, r.frame.skip 1, 0, name, 0, nameLen, value, 0, valueLen, r.enter, q⟩ :
        UrlParamLoop) = ParamView.loop v name value b ∧
      (⟨0, r'.frame 0, r'.frame.skip 1, 0, name, 0, nameLen, value, 0, valueLen, r'.enter, q⟩ :
        UrlParamLoop) = ParamView.loop v name value b' ∧ b.Same b' :=
    ⟨⟨[], nameLen, [], valueLen⟩, ⟨0, r.frame 0, r.frame.skip 1, r.enter, q⟩,
      ⟨0, r'.frame 0, r'.frame.skip 1, r'.enter, q⟩, rfl, rfl, same.enter, rfl⟩
  obtain ⟨t', loop', v, b, b', rfl, rfl, last⟩ := doWhileM_simulated
    (fun s s' => ∃ v b b', s = ParamView.loop v name value b ∧ s' = ParamView.loop v name value b' ∧
      b.Same b')
    (fun s => ∀ v b, s = ParamView.loop v name value b → b.Supplied cfg)
    (by
      rintro s s' p ⟨v, b, b', rfl, rfl, alike⟩ ready body
      obtain ⟨token, u, read, rfl⟩ := urlParamBody_loop body
      obtain ⟨token', u', read', -, last, equal⟩ := read.same alike
      obtain rfl := equal (ready v b rfl).fed
      exact ⟨_, read'.body v name value, rfl, _, u, u', rfl, rfl, last⟩)
    loop
    (fun u reach v b equal => supplied name value v b (equal ▸ reach))
    start
  refine ⟨b'.reader, ?_, loop'.bind (returns_pure.mpr ?_)⟩
  · rw [returns_pure.mp h]
    exact last.reader
  · rw [returns_pure.mp h]
    dsimp only [ParamView.loop]
    rw [last.request]
    rfl

theorem JsonMove.same {r r' : Reader} (h : r.Same r') (c : UInt8) (move : JsonMove) :
    (move.reader c r).Same (move.reader c r') := by
  cases move with
  | push => exact pushC_same h c
  | next => exact h
  | stop => exact h

def JsonAlike (name value : Mem) (t t' : JsonLoop) : Prop :=
  ∃ (v : JsonView) (ret : Int8) (c c' : UInt8) (r r' : Reader),
    t = v.loop name value ret c r ∧ t' = v.loop name value ret c' r' ∧ r.Same r'

theorem jsonStep_alike {name value : Mem} {t t' : JsonLoop} (h : JsonAlike name value t t') :
    (jsonStep t').2 = (jsonStep t).2 ∧ JsonAlike name value (jsonStep t).1 (jsonStep t').1 := by
  obtain ⟨v, ret, c, c', r, r', rfl, rfl, same⟩ := h
  obtain ⟨result, reader, equal⟩ := readC_same same c c'
  rw [jsonStep_loop, jsonStep_loop]
  dsimp only
  rw [result]
  by_cases positive : 0 < (readC c r).ret
  · rw [equal positive]
    split
    · exact ⟨rfl, _, _, _, _, _, _, rfl, rfl, JsonMove.same reader _ _⟩
    · exact ⟨rfl, _, _, _, _, _, _, rfl, rfl, reader⟩
  · rw [if_neg fun both => positive both.1, if_neg fun both => positive both.1]
    exact ⟨rfl, _, _, _, _, _, _, rfl, rfl, reader⟩

theorem parseJSONParam_same {name value : Mem} {nameLen valueLen : UInt8} {r : Reader} {j : JsonState}
    {p : JsonParam} (h : (parseJSONParam name nameLen value valueLen r j).Returns p) {r' : Reader}
    (same : r.Same r') :
    ∃ u, p.reader.Same u ∧ (parseJSONParam name nameLen value valueLen r' j).Returns
      { p with reader := u } := by
  obtain ⟨t, loop, h⟩ := returns_bind.mp h
  have start : JsonAlike name value
      ⟨0, r.frame 0, name, 0, nameLen, value, 0, valueLen, 0, 0, 0, j, r.enter⟩
      ⟨0, r'.frame 0, name, 0, nameLen, value, 0, valueLen, 0, 0, 0, j, r'.enter⟩ :=
    ⟨.start nameLen valueLen j, 0, _, _, _, _, rfl, rfl, same.enter⟩
  obtain ⟨t', loop', v, ret, c, c', r₁, r₂, rfl, rfl, last⟩ : ∃ t', (doWhile jsonStep
      ⟨0, r'.frame 0, name, 0, nameLen, value, 0, valueLen, 0, 0, 0, j, r'.enter⟩).Returns t' ∧
      JsonAlike name value t t' := by
    refine doWhileM_simulated (JsonAlike name value) (fun _ => True) ?_ loop (fun _ _ => trivial)
      start
    intro t t' p alike _ step
    rw [returns_pure.mp step]
    exact ⟨_, returns_pure.mpr rfl, jsonStep_alike alike⟩
  have finished : finishJson nameLen valueLen (v.loop name value ret c' r₂) =
      { finishJson nameLen valueLen (v.loop name value ret c r₁) with reader := r₂ } := by
    unfold finishJson JsonView.loop
    dsimp only
    split
    · rfl
    · rfl
  have reader : (finishJson nameLen valueLen (v.loop name value ret c r₁)).reader = r₁ := by
    unfold finishJson
    dsimp only
    split
    · rfl
    · rfl
  refine ⟨r₂, ?_, loop'.bind (returns_pure.mpr ?_)⟩
  · rw [returns_pure.mp h, reader]
    exact last
  · rw [returns_pure.mp h, finished]

/-! ## Calls -/

def Request.FormEncoded (q : Request) : Prop :=
  q.method = .get ∨ q.contenttype = .applicationXWwwFormUrlencoded

/-- The escapes that the call reads get their characters. -/
def ApiCall.Supplied (cfg : Config) : ApiCall → State → Prop
  | .parseParam _ nameLen _ valueLen, s =>
      s.request.FormEncoded → SuppliedCall cfg nameLen valueLen s.reader s.request
  | _, _ => True

theorem State.parseURLParam_alike {name value : Mem} {nameLen valueLen : UInt8} {s s' : State}
    {p : ParamReply} (alike : s.Alike s') (supplied : SuppliedCall cfg nameLen valueLen s.reader s.request)
    (h : (s.parseURLParam cfg name nameLen value valueLen).Returns p) :
    ∃ u, (s'.parseURLParam cfg name nameLen value valueLen).Returns ⟨p.reply, u⟩ ∧
      p.state.Alike u := by
  obtain ⟨r, same, rfl⟩ := alike
  obtain ⟨g, parse, h⟩ := returns_bind.mp h
  obtain ⟨u, last, parse'⟩ := parseURLParam_same parse supplied same
  rw [returns_pure.mp h]
  exact ⟨_, parse'.bind (returns_pure.mpr rfl), u, last, rfl⟩

theorem State.parseJSONParam_alike {name value : Mem} {nameLen valueLen : UInt8} {s s' : State}
    {p : ParamReply} (alike : s.Alike s')
    (h : (s.parseJSONParam name nameLen value valueLen).Returns p) :
    ∃ u, (s'.parseJSONParam name nameLen value valueLen).Returns ⟨p.reply, u⟩ ∧
      p.state.Alike u := by
  obtain ⟨r, same, rfl⟩ := alike
  obtain ⟨g, parse, h⟩ := returns_bind.mp h
  obtain ⟨u, last, parse'⟩ := parseJSONParam_same parse same
  rw [returns_pure.mp h]
  exact ⟨_, parse'.bind (returns_pure.mpr rfl), u, last, rfl⟩

theorem parseParam_alike {name value : Mem} {nameLen valueLen : UInt8} {s s' : State}
    {p : ParamReply} (alike : s.Alike s')
    (supplied : (ApiCall.parseParam name nameLen value valueLen).Supplied cfg s)
    (h : (parseParam cfg name nameLen value valueLen s).Returns p) :
    ∃ u, (parseParam cfg name nameLen value valueLen s').Returns ⟨p.reply, u⟩ ∧
      p.state.Alike u := by
  have request : s'.request = s.request := by
    obtain ⟨r, -, rfl⟩ := alike
    rfl
  unfold parseParam at h ⊢
  rw [request]
  have body (h : (if s.request.contenttype = .applicationXWwwFormUrlencoded then
        s.parseURLParam cfg (name.set 0 0) nameLen (value.set 0 0) valueLen
      else s.parseJSONParam (name.set 0 0) nameLen (value.set 0 0) valueLen).Returns p) :
      ∃ u, (if s.request.contenttype = .applicationXWwwFormUrlencoded then
          s'.parseURLParam cfg (name.set 0 0) nameLen (value.set 0 0) valueLen
        else s'.parseJSONParam (name.set 0 0) nameLen (value.set 0 0) valueLen).Returns
          ⟨p.reply, u⟩ ∧ p.state.Alike u := by
    by_cases form : s.request.contenttype = .applicationXWwwFormUrlencoded
    · rw [if_pos form] at h ⊢
      exact State.parseURLParam_alike alike (supplied (.inr form)) h
    · rw [if_neg form] at h ⊢
      exact State.parseJSONParam_alike alike h
  cases method : s.request.method with
  | get =>
      rw [method] at h
      exact State.parseURLParam_alike alike (supplied (.inl method)) h
  | post => rw [method] at h; exact body h
  | put => rw [method] at h; exact body h
  | patch => rw [method] at h; exact body h
  | delete => rw [method] at h; exact body h
  | notSupported =>
      rw [method] at h
      rw [returns_pure.mp h]
      exact ⟨s', returns_pure.mpr rfl, alike⟩

theorem getRawParamChar_alike (c : UInt8) {s s' : State} (alike : s.Alike s') :
    (getRawParamChar c s').1 = (getRawParamChar c s).1 ∧
      (getRawParamChar c s).2.Alike (getRawParamChar c s').2 := by
  obtain ⟨r, same, rfl⟩ := alike
  obtain ⟨ret, reader, -⟩ := readC_same same c c
  have char : (readC c r).c = (readC c s.reader).c := by rw [readC_c, readC_c, same.next]
  refine ⟨?_, (readC c r).reader, reader, rfl⟩
  change ((readC c r).ret.toUInt8, (readC c r).c) =
    ((readC c s.reader).ret.toUInt8, (readC c s.reader).c)
  rw [ret, char]

theorem SendOnly.returns {α : Type} {f : State → Sent α} (only : SendOnly f) {s s' : State}
    (alike : s.Alike s') {p : α × State}
    (h : (pure ((f s).count, (f s).state) : Comp (α × State)).Returns p) :
    ∃ u, (pure ((f s').count, (f s').state) : Comp (α × State)).Returns (p.1, u) ∧ p.2.Alike u := by
  obtain ⟨count, state⟩ := only.alike alike
  rw [returns_pure.mp h]
  exact ⟨(f s').state, returns_pure.mpr (by rw [count]), state⟩

theorem apply_alike {op : ApiCall} {s s' : State} {p : op.Reply × State} (alike : s.Alike s')
    (supplied : op.Supplied cfg s) (h : (apply cfg s op).Returns p) :
    ∃ u, (apply cfg s' op).Returns (p.1, u) ∧ p.2.Alike u := by
  cases op with
  | firstLine code => exact SendOnly.returns (firstLine_withReader code) alike h
  | sendHeaders => exact SendOnly.returns sendHeaders_withReader alike h
  | restSendHeaders code type headers =>
      exact SendOnly.returns (restSendHeaders_withReader code type headers) alike h
  | print text => exact SendOnly.returns (f := State.print text) (fun _ _ => rfl) alike h
  | printf expansion => exact SendOnly.returns (f := State.printf cfg expansion) (fun _ _ => rfl) alike h
  | write bytes => exact SendOnly.returns (f := State.write bytes) (fun _ _ => rfl) alike h
  | sendEvent event data => exact SendOnly.returns (f := sendEvent event data) (fun _ _ => rfl) alike h
  | parseParam name nameLen value valueLen =>
      obtain ⟨g, parse, h⟩ := returns_bind.mp h
      obtain ⟨u, parse', last⟩ := parseParam_alike alike supplied parse
      rw [returns_pure.mp h]
      exact ⟨u, parse'.bind (returns_pure.mpr rfl), last⟩
  | getRawParamChar c =>
      obtain ⟨reply, last⟩ := getRawParamChar_alike c alike
      rw [returns_pure.mp h]
      exact ⟨(getRawParamChar c s').2, returns_pure.mpr (Prod.ext reply.symm rfl), last⟩

theorem handle_alike (op : ApiCall) (s s' : State) (p : op.Reply × State) (alike : s.Alike s')
    (supplied : op.Supplied cfg s) (h : (handle cfg op s).Returns p) :
    ∃ u, (handle cfg op s').Returns (p.1, u) ∧ p.2.Alike u := by
  have marked : (s.mark (.call op)).Alike (s'.mark (.call op)) :=
    (mark_writeOnly (.call op)).alike alike
  refine apply_alike marked ?_ h
  cases op <;> exact supplied

/-! ## The whole answer -/

/-- The callback, if the search for a page leads to it, reads escapes that get their characters. -/
def SuppliedAnswer (cfg : Config) (visit : Nat) (s : State) : Prop :=
  ∀ callback, findPageEntry cfg s.request s.registry = none →
    isEventsPath cfg s.request s.registry = false → s.registry.callback = some callback →
    0 < (s.path cfg).cmdlvl →
    (callback visit (s.callbackArgs cfg)).Meets (handle cfg) (ApiCall.Supplied cfg) (s.called cfg)

theorem Finds.alike {visit : Nat} {s s' : State} {f : Found} (find : Finds cfg visit s f)
    (supplied : SuppliedAnswer cfg visit s) (alike : s.Alike s') :
    ∃ u, Finds cfg visit s' ⟨f.ret, u⟩ ∧ f.state.Alike u := by
  have path : WriteOnly (State.withPath cfg) := fun _ _ => rfl
  obtain ⟨r, same, rfl⟩ := id alike
  cases find with
  | @page p entry get =>
      exact ⟨_, .page entry get, (sendPage_writeOnly p).alike alike⟩
  | unsupported entry other =>
      exact ⟨_, .unsupported entry other, (setReturnCode_writeOnly _).alike alike⟩
  | events entry path =>
      exact ⟨_, .events entry path, sendServerSentEventHeaders_writeOnly.alike alike⟩
  | nothing entry path none => exact ⟨_, .nothing entry path none, alike⟩
  | noCommand entry events registered top =>
      exact ⟨_, .noCommand entry events registered top,
        (setReturnCode_writeOnly _).alike (path.alike alike)⟩
  | called entry events registered level run =>
      obtain ⟨q, calls, rfl⟩ := (runCallback_iff ..).mp run
      have called : (s.called cfg).Alike ((s.withReader r).called cfg) :=
        (mark_writeOnly _).alike (path.alike alike)
      obtain ⟨u, calls', last⟩ := Script.run_simulated handle_alike
        (supplied _ entry events registered level) calls called
      exact ⟨_, .called entry events registered level ((runCallback_iff ..).mpr ⟨_, calls', rfl⟩),
        (setReturnCode_writeOnly _).alike ((mark_writeOnly _).alike last)⟩

theorem authorized_writeOnly : WriteOnly State.authorized :=
  .ite _ (fun _ _ => Iff.rfl) (setReturnCode_writeOnly _) .id

theorem settled_writeOnly (ret : Int8) : WriteOnly fun s => Found.settled ⟨ret, s⟩ := by
  have answered : WriteOnly fun s =>
      if 0 < ret ∧ s.request.returnCode = statusUnknown then s.setReturnCode statusOk else s :=
    .ite _ (fun _ _ => Iff.rfl) (setReturnCode_writeOnly _) .id
  exact answered.comp
    (.ite (fun s => s.request.returnCode = statusUnknown) (fun _ _ => Iff.rfl)
      (setReturnCode_writeOnly _) .id)

theorem respond_alike {visit : Nat} {s s' u : State} (alike : s.Alike s')
    (supplied : s.authorized.request.returnCode = statusUnknown →
      SuppliedAnswer cfg visit (s.authorized.setReturnCode statusNotFound))
    (h : (respond cfg visit s).Returns u) : ∃ v, (respond cfg visit s').Returns v ∧ u.Alike v := by
  have authorized := authorized_writeOnly.alike alike
  have request : s'.authorized.request = s.authorized.request := by
    obtain ⟨r, -, equal⟩ := authorized
    rw [equal]
    rfl
  rw [respond_returns] at h
  simp only [respond_returns, request]
  split at h
  · rename_i unknown
    obtain ⟨f, find, rfl⟩ := h
    obtain ⟨v, find', last⟩ := find.alike (supplied unknown)
      ((setReturnCode_writeOnly statusNotFound).alike authorized)
    exact ⟨_, (if_pos unknown).mpr ⟨_, find', rfl⟩, (settled_writeOnly f.ret).alike last⟩
  · rename_i known
    rw [h]
    exact ⟨_, (if_neg known).mpr rfl, authorized⟩

end AttoHTTP
