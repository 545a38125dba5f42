import AttoHTTP.Model.Router
import AttoHTTP.Proof.Reader

/-!
# The parameter readers end

A parameter reader stops at the first read that delivers nothing, so it returns whenever the end
of the connection delivers nothing; it touches neither the write side nor the registry.
-/

namespace AttoHTTP
open Library Comp

/-! ## URL parameters -/

theorem bodyParam_follows {g t : ParamGot} (h : (doWhile bodyParamStep g).Returns t) :
    t.reader.Follows g.reader ∧ t.request = g.request := by
  refine doWhile_invariant (fun t => t.reader.Follows g.reader ∧ t.request = g.request)
    (fun t => t.reader.Follows g.reader ∧ t.request = g.request) ?_ h ⟨Reader.Follows.refl _, rfl⟩
  intro t ht
  have step : (bodyParamStep t).1.reader.Follows g.reader := (readC_follows _ _).trans ht.1
  split <;> exact ⟨step, ht.2⟩

theorem bodyParam_total {g : ParamGot} (final : g.reader.atEnd.ret ≤ 0) :
    ∃ t, (doWhile bodyParamStep g).Returns t ∧
      t.reader.pending.length ≤ g.reader.pending.length ∧
      (0 < t.ret.toInt8 → t.reader.pending.length < g.reader.pending.length) := by
  refine doWhile_total (fun t => t.reader.pending.length)
    (fun t => t.reader.atEnd = g.reader.atEnd ∧ t.reader.pending.length ≤ g.reader.pending.length)
    (fun t => t.reader.pending.length ≤ g.reader.pending.length ∧
      (0 < t.ret.toInt8 → t.reader.pending.length < g.reader.pending.length)) ?_ g ⟨rfl, le_refl _⟩
  intro t ht
  have lower (read : 0 < t.reader.next.ret.toUInt8.toInt8) :=
    pending_tail_lt_of_pos (ht.1 ▸ final) (ret_pos_of_unsigned read)
  split
  · rename_i again
    simp only [bodyParamStep, readC_ret, Bool.and_eq_true, beq_iff_eq] at again
    have less := lower (again.1 ▸ by decide)
    simp only [bodyParamStep, readC_atEnd, readC_pending]
    exact ⟨⟨ht.1, by omega⟩, less⟩
  · simp only [bodyParamStep, readC_ret, readC_pending]
    have shorter : t.reader.pending.tail.length ≤ t.reader.pending.length := by simp
    refine ⟨by omega, fun read => ?_⟩
    have := lower read
    omega

def Request.parsedPart (q : Request) : Request :=
  { q with urlParams := .null 0, urlParamsStart := 0, paramLog := [] }

theorem Request.method_eq {q q' : Request} (same : q'.parsedPart = q.parsedPart) :
    q'.method = q.method := by
  simpa [parsedPart] using congrArg Request.method same

theorem Request.returnCode_eq {q q' : Request} (same : q'.parsedPart = q.parsedPart) :
    q'.returnCode = q.returnCode := by
  simpa [parsedPart] using congrArg Request.returnCode same

theorem parseURLParamChar_follows {cfg : Config} {c : UInt8} {r : Reader} {q : Request}
    {g : ParamGot} (h : (parseURLParamChar cfg c r q).Returns g) :
    g.reader.Follows r ∧ g.request.parsedPart = q.parsedPart := by
  simp only [parseURLParamChar] at h
  split at h
  · split at h
    · rw [returns_pure] at h
      subst h
      exact ⟨Reader.Follows.refl r, rfl⟩
    · rw [returns_pure] at h
      subst h
      exact ⟨Reader.Follows.refl r, rfl⟩
  · have moved := bodyParam_follows h
    exact ⟨moved.1, by rw [moved.2]⟩

/-- What is left to read: cells of the URL buffer in a GET, bytes of the body else. -/
def paramsLeft (cfg : Config) (r : Reader) (q : Request) : Nat :=
  if q.method = .get then cfg.urlBufferSize - q.urlParamsStart else r.pending.length

theorem parseURLParamChar_total (cfg : Config) (c : UInt8) {r : Reader} (q : Request)
    (final : r.atEnd.ret ≤ 0) :
    ∃ g, (parseURLParamChar cfg c r q).Returns g ∧
      (q.method ≠ .get → paramsLeft cfg g.reader g.request ≤ paramsLeft cfg r q) ∧
      (0 < g.ret.toInt8 → paramsLeft cfg g.reader g.request < paramsLeft cfg r q) := by
  by_cases get : q.method = .get
  · simp only [parseURLParamChar, if_pos get]
    split
    · rename_i inside
      refine ⟨_, returns_pure.mpr rfl, fun other => absurd get other, fun _ => ?_⟩
      have width := cfg.url_lt
      have next : (q.urlParamsStart + 1) % 2 ^ 16 = q.urlParamsStart + 1 :=
        Nat.mod_eq_of_lt (by omega)
      simp only [paramsLeft, get, if_true, next]
      omega
    · refine ⟨_, returns_pure.mpr rfl, fun other => absurd get other, fun read => ?_⟩
      exact absurd read (show ¬ 0 < (0 : UInt8).toInt8 by decide)
  · simp only [parseURLParamChar, if_neg get]
    obtain ⟨g, loop, shorter, lower⟩ := bodyParam_total (g := ⟨0, c, r, q⟩) final
    have same := (bodyParam_follows loop).2
    refine ⟨g, loop, fun _ => ?_, fun read => ?_⟩
    · simp only [paramsLeft, same, if_neg get]
      exact shorter
    · simp only [paramsLeft, same, if_neg get]
      exact lower read

theorem decodeEscape_follows {cfg : Config} {t t' : UrlParamLoop}
    (h : (decodeEscape cfg t).Returns t') :
    t'.reader.Follows t.reader ∧ t'.request.parsedPart = t.request.parsedPart ∧
      t'.nameLen = t.nameLen ∧ t'.valueLen = t.valueLen := by
  obtain ⟨a, first, h⟩ := returns_bind.mp h
  obtain ⟨b, second, h⟩ := returns_bind.mp h
  rw [returns_pure] at h
  subst h
  have moved := parseURLParamChar_follows first
  have moved' := parseURLParamChar_follows second
  exact ⟨moved'.1.trans moved.1, moved'.2.trans moved.2, rfl, rfl⟩

theorem decodeEscape_total (cfg : Config) {t : UrlParamLoop} (final : t.reader.atEnd.ret ≤ 0) :
    ∃ t', (decodeEscape cfg t).Returns t' ∧ (t.request.method ≠ .get →
      paramsLeft cfg t'.reader t'.request ≤ paramsLeft cfg t.reader t.request) := by
  obtain ⟨a, first, le, -⟩ := parseURLParamChar_total cfg (t.decode 0) t.request final
  have moved := parseURLParamChar_follows first
  have last : a.reader.atEnd.ret ≤ 0 := by rwa [moved.1.atEnd]
  obtain ⟨b, second, le', -⟩ := parseURLParamChar_total cfg (t.decode 1) a.request last
  refine ⟨_, first.bind (second.bind (returns_pure.mpr rfl)), fun other => ?_⟩
  exact (le' (Request.method_eq moved.2 ▸ other)).trans (le other)

/-- How many characters may still be stored. The lengths count down to zero, unless the value has
no room from the start: then its length wraps once. -/
def storesLeft (t : UrlParamLoop) : Nat :=
  if t.valueLen = 0 then 1000 else t.nameLen.toNat + t.valueLen.toNat

theorem storeParamChar_storesLeft (t : UrlParamLoop) (room : 0 < (storeParamChar t).valueLen) :
    storesLeft (storeParamChar t) < storesLeft t := by
  have nonzero := UInt8.pos_iff_ne_zero.mp room
  by_cases named : 0 < t.nameLen
  · simp only [storeParamChar, if_pos named, storesLeft] at nonzero ⊢
    have one := sub_one_toNat (UInt8.pos_iff_ne_zero.mp named)
    rw [if_neg nonzero, if_neg nonzero]
    omega
  · simp only [storeParamChar, if_neg named, storesLeft] at nonzero ⊢
    have name := t.nameLen.toNat_lt
    have value := (t.valueLen - 1).toNat_lt
    rw [if_neg nonzero]
    split
    · omega
    · rename_i valued
      have one := sub_one_toNat valued
      omega

theorem storeParamChar_reader (t : UrlParamLoop) :
    (storeParamChar t).reader = t.reader ∧ (storeParamChar t).request = t.request := by
  unfold storeParamChar
  split <;> exact ⟨rfl, rfl⟩

/-- In a GET a percent sign at the end may take the counter past the buffer and round to its start;
that costs a character to be stored. -/
def urlParamRank (cfg : Config) (t : UrlParamLoop) : Nat :=
  (if t.request.method = .get then storesLeft t * (cfg.urlBufferSize + 1) else 0) +
    paramsLeft cfg t.reader t.request

theorem urlParamRank_lt {cfg : Config} {t t' : UrlParamLoop}
    (same : t'.request.method = t.request.method) (stores : storesLeft t' < storesLeft t)
    (left : t.request.method ≠ .get →
      paramsLeft cfg t'.reader t'.request < paramsLeft cfg t.reader t.request) :
    urlParamRank cfg t' < urlParamRank cfg t := by
  by_cases get : t.request.method = .get
  · have bound : paramsLeft cfg t'.reader t'.request ≤ cfg.urlBufferSize := by
      simp only [paramsLeft, same, get, if_true]
      omega
    have room : (storesLeft t' + 1) * (cfg.urlBufferSize + 1) ≤
        storesLeft t * (cfg.urlBufferSize + 1) := Nat.mul_le_mul_right _ stores
    rw [Nat.add_mul] at room
    simp only [urlParamRank, same, get, if_true]
    omega
  · simp only [urlParamRank, same, if_neg get]
    have := left get
    omega

theorem urlParamRank_lt_of_left {cfg : Config} {t t' : UrlParamLoop}
    (same : t'.request.method = t.request.method) (stores : storesLeft t' ≤ storesLeft t)
    (left : paramsLeft cfg t'.reader t'.request < paramsLeft cfg t.reader t.request) :
    urlParamRank cfg t' < urlParamRank cfg t := by
  have room := Nat.mul_le_mul_right (cfg.urlBufferSize + 1) stores
  simp only [urlParamRank, same]
  split <;> omega

theorem urlParamBody_follows {cfg : Config} {t : UrlParamLoop} {p : UrlParamLoop × Bool}
    (h : (urlParamBody cfg t).Returns p) :
    p.1.reader.Follows t.reader ∧ p.1.request.parsedPart = t.request.parsedPart := by
  obtain ⟨g, char, h⟩ := returns_bind.mp h
  have moved := parseURLParamChar_follows char
  dsimp only at h
  split at h
  · split at h
    · rw [returns_pure] at h
      rwa [h]
    · split at h
      · rw [returns_pure] at h
        rw [h]
        split <;> exact moved
      · split at h
        · obtain ⟨t', escape, h⟩ := returns_bind.mp h
          rw [returns_pure] at h
          have kept := decodeEscape_follows escape
          rw [h, (storeParamChar_reader t').1, (storeParamChar_reader t').2]
          exact ⟨kept.1.trans moved.1, kept.2.1.trans moved.2⟩
        · rw [returns_pure] at h
          rw [h, (storeParamChar_reader _).1, (storeParamChar_reader _).2]
          exact moved
  · rw [returns_pure] at h
    rwa [h]

theorem storesLeft_noName (t : UrlParamLoop) : storesLeft { t with nameLen := 0 } ≤ storesLeft t := by
  simp only [storesLeft, UInt8.toNat_zero]
  split <;> omega

theorem urlParamBody_total (cfg : Config) {t : UrlParamLoop} (final : t.reader.atEnd.ret ≤ 0) :
    ∃ p, (urlParamBody cfg t).Returns p ∧
      (p.2 = true → urlParamRank cfg p.1 < urlParamRank cfg t) := by
  obtain ⟨g, char, shorter, lower⟩ := parseURLParamChar_total cfg t.c t.request final
  have moved := parseURLParamChar_follows char
  simp only [urlParamBody, char.bind_iff]
  split
  · rename_i read
    have less := lower read.1
    split
    · refine ⟨_, returns_pure.mpr rfl, fun _ => ?_⟩
      apply urlParamRank_lt_of_left
      · exact Request.method_eq moved.2
      · exact storesLeft_noName _
      · exact less
    · split
      · refine ⟨_, returns_pure.mpr rfl, fun again => ?_⟩
        split at again
        · exact absurd again (by simp)
        · rename_i first
          rw [if_neg first]
          exact urlParamRank_lt_of_left (Request.method_eq moved.2) le_rfl less
      · split
        · obtain ⟨t', escape, left⟩ := decodeEscape_total cfg (t := { t with
            ret := g.ret.toInt8, c := g.c, reader := g.reader, request := g.request })
            (by rwa [moved.1.atEnd])
          have kept := decodeEscape_follows escape
          refine ⟨_, escape.bind (returns_pure.mpr rfl), fun again => ?_⟩
          simp only [Bool.and_eq_true, decide_eq_true_eq] at again
          have stores := storeParamChar_storesLeft t' again.1
          have same : storesLeft t' = storesLeft t := by
            simp only [storesLeft, kept.2.2.1, kept.2.2.2]
          refine urlParamRank_lt ?_ (same ▸ stores) fun other => ?_
          · rw [(storeParamChar_reader t').2, Request.method_eq kept.2.1, Request.method_eq moved.2]
          · rw [(storeParamChar_reader t').1, (storeParamChar_reader t').2]
            have := left (Request.method_eq moved.2 ▸ other)
            exact this.trans_lt less
        · refine ⟨_, returns_pure.mpr rfl, fun again => ?_⟩
          simp only [Bool.and_eq_true, decide_eq_true_eq] at again
          have stores := storeParamChar_storesLeft _ again.1
          refine urlParamRank_lt ?_ stores fun other => ?_
          · rw [(storeParamChar_reader _).2, Request.method_eq moved.2]
          · rw [(storeParamChar_reader _).1, (storeParamChar_reader _).2]
            exact less
  · exact ⟨_, returns_pure.mpr rfl, fun again => absurd again (by simp)⟩

theorem parseURLParam_follows {cfg : Config} {name value : Mem} {nameLen valueLen : UInt8}
    {r : Reader} {q : Request} {p : UrlParam}
    (h : (parseURLParam cfg name nameLen value valueLen r q).Returns p) :
    p.reader.Follows r ∧ p.request.parsedPart = q.parsedPart := by
  obtain ⟨t, loop, h⟩ := returns_bind.mp h
  rw [returns_pure] at h
  subst h
  have moved : t.reader.Follows r.enter ∧ t.request.parsedPart = q.parsedPart := by
    refine doWhileM_induction (motive := fun s t => t.reader.Follows s.reader ∧
      t.request.parsedPart = s.request.parsedPart) ?_ ?_ loop
    · intro s p step stop
      exact urlParamBody_follows step
    · intro s p t step again rest
      have body := urlParamBody_follows step
      exact ⟨rest.1.trans body.1, rest.2.trans body.2⟩
  exact ⟨moved.1.trans (enter_follows r), moved.2⟩

theorem parseURLParam_total (cfg : Config) (name : Mem) (nameLen : UInt8) (value : Mem)
    (valueLen : UInt8) {r : Reader} (q : Request) (final : r.atEnd.ret ≤ 0) :
    ∃ p, (parseURLParam cfg name nameLen value valueLen r q).Returns p := by
  suffices rounds : ∃ t, (doWhileM (urlParamBody cfg) ⟨0, r.frame 0, r.frame.skip 1, 0, name, 0,
      nameLen, value, 0, valueLen, r.enter, q⟩).Returns t ∧ True by
    obtain ⟨t, loop, -⟩ := rounds
    exact ⟨_, loop.bind (returns_pure.mpr rfl)⟩
  apply doWhileM_total (urlParamRank cfg) (fun t => t.reader.atEnd.ret ≤ 0) (fun _ => True)
  · intro t final
    obtain ⟨p, step, lower⟩ := urlParamBody_total cfg final
    refine ⟨p, step, ?_⟩
    split
    · rename_i again
      exact ⟨by rwa [(urlParamBody_follows step).1.atEnd], lower again⟩
    · trivial
  · exact final

/-! ## JSON parameters -/

theorem storeJsonChar_reader (t : JsonLoop) : (storeJsonChar t).reader = t.reader := by
  unfold storeJsonChar
  split
  · split <;> rfl
  · split <;> rfl

theorem jsonChar_follows (t : JsonLoop) :
    (jsonChar t).1.reader.Follows t.reader ∧
      ((jsonChar t).2 = true → (jsonChar t).1.reader = t.reader) := by
  simp only [jsonChar]
  repeat' split
  all_goals first
    | exact ⟨pushC_follows _ _, fun again => absurd again (by simp)⟩
    | simp [storeJsonChar_reader, Reader.Follows.refl]

theorem jsonStep_follows (t : JsonLoop) : (jsonStep t).1.reader.Follows t.reader := by
  simp only [jsonStep]
  split
  · exact (jsonChar_follows _).1.trans (readC_follows _ _)
  · exact readC_follows _ _

theorem jsonStep_lower {t : JsonLoop} (final : t.reader.atEnd.ret ≤ 0)
    (again : (jsonStep t).2 = true) :
    (jsonStep t).1.reader.pending.length < t.reader.pending.length := by
  simp only [jsonStep] at again ⊢
  split at again
  · rename_i read
    simp only [Bool.and_eq_true] at again
    simp only [readC_ret] at read
    rw [if_pos (by simpa using read), (jsonChar_follows _).2 again.1]
    simpa using pending_tail_lt_of_pos final read.1
  · exact absurd again (by simp)

theorem parseJSONParam_follows {name value : Mem} {nameLen valueLen : UInt8} {r : Reader}
    {j : JsonState} {p : JsonParam}
    (h : (parseJSONParam name nameLen value valueLen r j).Returns p) : p.reader.Follows r := by
  obtain ⟨t, loop, h⟩ := returns_bind.mp h
  rw [returns_pure] at h
  have moved : t.reader.Follows r.enter :=
    doWhile_induction (motive := fun s t => t.reader.Follows s.reader)
      (fun s _ => jsonStep_follows s)
      (fun s t _ rest => rest.trans (jsonStep_follows s)) loop
  have same : p.reader = t.reader := by
    rw [h]
    unfold finishJson
    dsimp only
    split <;> rfl
  rw [same]
  exact moved.trans (enter_follows r)

theorem parseJSONParam_total (name : Mem) (nameLen : UInt8) (value : Mem) (valueLen : UInt8)
    {r : Reader} (j : JsonState) (final : r.atEnd.ret ≤ 0) :
    ∃ p, (parseJSONParam name nameLen value valueLen r j).Returns p := by
  suffices rounds : ∃ t, (doWhile jsonStep ⟨0, r.frame 0, name, 0, nameLen, value, 0, valueLen, 0, 0,
      0, j, r.enter⟩).Returns t ∧ True by
    obtain ⟨t, loop, -⟩ := rounds
    exact ⟨_, loop.bind (returns_pure.mpr rfl)⟩
  apply doWhile_total (fun t => t.reader.pending.length) (fun t => t.reader.atEnd.ret ≤ 0)
    (fun _ => True)
  · intro t final
    split
    · rename_i again
      exact ⟨by rwa [(jsonStep_follows t).atEnd], jsonStep_lower final again⟩
    · trivial
  · exact final

/-! ## The public functions -/

structure State.SameOutside (s s' : State) : Prop where
  writer : s'.writer = s.writer
  registry : s'.registry = s.registry
  reader : s'.reader.Follows s.reader
  request : s'.request.parsedPart = s.request.parsedPart

theorem parseParam_sameOutside {cfg : Config} {name value : Mem} {nameLen valueLen : UInt8}
    {s : State} {p : ParamReply} (h : (parseParam cfg name nameLen value valueLen s).Returns p) :
    s.SameOutside p.state := by
  have url {name value : Mem} (h : (s.parseURLParam cfg name nameLen value valueLen).Returns p) :
      s.SameOutside p.state := by
    obtain ⟨u, param, h⟩ := returns_bind.mp h
    rw [returns_pure] at h
    rw [h]
    have moved := parseURLParam_follows param
    exact ⟨rfl, rfl, moved.1, moved.2⟩
  have json {name value : Mem} (h : (s.parseJSONParam name nameLen value valueLen).Returns p) :
      s.SameOutside p.state := by
    obtain ⟨u, param, h⟩ := returns_bind.mp h
    rw [returns_pure] at h
    rw [h]
    exact ⟨rfl, rfl, parseJSONParam_follows param, rfl⟩
  unfold parseParam at h
  cases method : s.request.method <;> simp only [method] at h
  case get => exact url h
  case notSupported =>
    rw [returns_pure] at h
    rw [h]
    exact ⟨rfl, rfl, Reader.Follows.refl _, rfl⟩
  all_goals
    split at h
    · exact url h
    · exact json h

theorem parseParam_total (cfg : Config) (name : Mem) (nameLen : UInt8) (value : Mem)
    (valueLen : UInt8) {s : State} (final : s.reader.atEnd.ret ≤ 0) :
    ∃ p, (parseParam cfg name nameLen value valueLen s).Returns p := by
  have url (name value : Mem) : ∃ p, (s.parseURLParam cfg name nameLen value valueLen).Returns p := by
    obtain ⟨u, param⟩ := parseURLParam_total cfg name nameLen value valueLen s.request final
    exact ⟨_, param.bind (returns_pure.mpr rfl)⟩
  have json (name value : Mem) : ∃ p, (s.parseJSONParam name nameLen value valueLen).Returns p := by
    obtain ⟨u, param⟩ := parseJSONParam_total name nameLen value valueLen s.json final
    exact ⟨_, param.bind (returns_pure.mpr rfl)⟩
  unfold parseParam
  cases s.request.method
  case get => exact url _ _
  case notSupported => exact ⟨_, returns_pure.mpr rfl⟩
  all_goals
    dsimp only
    split
    · exact url _ _
    · exact json _ _

end AttoHTTP
