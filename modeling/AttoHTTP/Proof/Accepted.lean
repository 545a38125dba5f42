import AttoHTTP.Proof.Entry

namespace AttoHTTP
open Library Comp

def MimeType.bit (t : MimeType) : UInt16 := 1 <<< UInt16.ofNat t.index

/-- The type that an Accept header names, by what is read of its value. -/
def Header.acceptType (types : List MimeType) (read : List UInt8 → List UInt8) (h : Header) :
    Option MimeType :=
  if equalFold h.name (ascii "accept") then types.find? fun t => equalFold (read h.value) t.name
  else none

def RequestText.acceptTypes (types : List MimeType) (read : List UInt8 → List UInt8)
    (text : RequestText) : List MimeType :=
  text.headers.filterMap (Header.acceptType types read)

/-- The mask stands for the last type named, or for HTML. -/
structure RequestText.Accepts (types : List MimeType) (text : RequestText) (mask : UInt16) : Prop where
  last : mask = ((text.acceptTypes types id).getLast?.getD .textHtml).bit
  named : ∀ t : MimeType, mask &&& t.bit ≠ 0 → t ∈ text.acceptTypes types id ∨ t = .textHtml

theorem bit_and {t t' : MimeType} (common : t.bit &&& t'.bit ≠ 0) : t = t' := by
  cases t <;> cases t' <;> first | rfl | exact absurd (by decide) common

theorem bit_injective {t t' : MimeType} : t.bit = t'.bit ↔ t = t' := by
  constructor
  · intro same
    apply bit_and
    rw [same]
    cases t' <;> decide
  · exact congrArg MimeType.bit

theorem accepts_iff {types : List MimeType} {text : RequestText} {mask : UInt16} :
    text.Accepts types mask ↔ mask = ((text.acceptTypes types id).getLast?.getD .textHtml).bit := by
  constructor
  · exact RequestText.Accepts.last
  · intro last
    refine ⟨last, fun t common => ?_⟩
    rw [last] at common
    have same := bit_and common
    cases found : (text.acceptTypes types id).getLast? with
    | none =>
        rw [found] at same
        exact .inr same.symm
    | some t' =>
        rw [found] at same
        exact .inl (same ▸ List.mem_of_getLast? found)

/-! ## The mask of a request -/

theorem negotiate_accept (cfg : Config) (n : Negotiated) (h : Header) :
    (h.negotiate cfg n).accept =
      ((h.acceptType mimeTypes (List.take (cfg.headerValueSize - 1))).map MimeType.bit).getD n.accept := by
  unfold Header.negotiate Header.acceptType
  dsimp only
  split
  · rfl
  · split <;> rfl

theorem negotiate_last (cfg : Config) (headers : List Header) (n : Negotiated) :
    (headers.foldl (Header.negotiate cfg) n).accept =
      (((headers.filterMap (Header.acceptType mimeTypes (List.take (cfg.headerValueSize - 1)))).getLast?).map
        MimeType.bit).getD n.accept := by
  induction headers generalizing n with
  | nil => rfl
  | cons h headers ih =>
      rw [List.foldl_cons, ih, negotiate_accept]
      cases named : h.acceptType mimeTypes (List.take (cfg.headerValueSize - 1)) with
      | none => rw [List.filterMap_cons_none named]; rfl
      | some t =>
          rw [List.filterMap_cons_some named, List.getLast?_cons]
          cases (headers.filterMap (Header.acceptType mimeTypes
            (List.take (cfg.headerValueSize - 1)))).getLast? <;> rfl

variable {cfg : Config} {conn : Connection} {s t : State} {callback : Callback} {args : CallbackArgs}

theorem CallsBack.accepted (reachable : Reachable cfg s) (text : RequestText) {body : List GetByte}
    (input : conn.input = sends text.render ++ body) (h : CallsBack cfg conn s callback args t) :
    args.accepted = ((text.acceptTypes mimeTypes (List.take (cfg.headerValueSize - 1))).getLast?.getD
      .applicationJson).bit := by
  have pending : (s.accept cfg conn).reader.pending = sends text.render ++ body := input
  obtain ⟨r', a, run, -⟩ := parseRequest_credentials conn.checkAuth text
    (q := (s.accept cfg conn).request) pending rfl rfl (accept_last reachable conn)
  cases h with
  | @intro p parse =>
      have accept : p.request.accept =
          (text.headers.foldl (Header.negotiate cfg) (s.accept cfg conn).request.negotiated).accept := by
        rw [parse.unique run]
        rfl
      have start : (s.accept cfg conn).request.negotiated.accept = MimeType.applicationJson.bit := rfl
      change p.request.accept = _
      rw [accept, negotiate_last, start, Option.getD_map]
      rfl

theorem acceptTypes_whole (text : RequestText) {size : Nat} (room : 34 ≤ size) :
    text.acceptTypes mimeTypes (List.take size) = text.acceptTypes mimeTypes id := by
  have short : ∀ t ∈ mimeTypes, t.name.length ≤ 33 := by decide
  have same (value : List UInt8) : ∀ t ∈ mimeTypes,
      equalFold (value.take size) t.name = equalFold value t.name := by
    intro t known
    have fits := short t known
    by_cases whole : value.length ≤ size
    · rw [List.take_of_length_le whole]
    · have differ {value : List UInt8} (long : 34 ≤ value.length) : equalFold value t.name = false := by
        by_contra equal
        have := equalFold_length (Bool.not_eq_false _ ▸ equal)
        omega
      rw [differ (by rw [List.length_take]; omega), differ (by omega)]
  refine congrArg (List.filterMap · text.headers) (funext fun h => ?_)
  unfold Header.acceptType
  split
  · rw [← List.head?_filter, ← List.head?_filter, List.filter_congr (same h.value)]
    rfl
  · rfl

/-- The mask is right when the type that the server has settled on is the one that was asked for. -/
theorem accepted_iff (reachable : Reachable cfg s) (text : RequestText) {body : List GetByte}
    (input : conn.input = sends text.render ++ body) (h : CallsBack cfg conn s callback args t)
    (types : List MimeType) :
    (text.Accepts types args.accepted ↔
        (text.acceptTypes mimeTypes (List.take (cfg.headerValueSize - 1))).getLast?.getD
          .applicationJson = (text.acceptTypes types id).getLast?.getD .textHtml) ∧
      (35 ≤ cfg.headerValueSize →
        (text.Accepts mimeTypes args.accepted ↔ text.acceptTypes mimeTypes id ≠ [])) := by
  have mask := h.accepted reachable text input
  constructor
  · rw [accepts_iff, mask, bit_injective]
  · intro room
    rw [acceptTypes_whole text (by omega)] at mask
    rw [accepts_iff, mask, bit_injective]
    cases last : (text.acceptTypes mimeTypes id).getLast? with
    | none => simp [List.getLast?_eq_none_iff.mp last]
    | some t =>
        have some : text.acceptTypes mimeTypes id ≠ [] := by
          intro empty
          rw [empty] at last
          cases last
        exact iff_of_true rfl some

theorem accepted_iff_html : ∃ callback args t,
    htmlRequest.acceptTypes mimeTypes id = [.textHtml] ∧
      CallsBack (.default .none) (.ofBytes (htmlRequest.render ++ [])) restServer callback args t ∧
      (htmlRequest.Accepts mimeTypes args.accepted ↔
        (htmlRequest.acceptTypes mimeTypes (List.take 63)).getLast?.getD .applicationJson =
          (htmlRequest.acceptTypes mimeTypes id).getLast?.getD .textHtml) ∧
      (35 ≤ 64 → (htmlRequest.Accepts mimeTypes args.accepted ↔
        htmlRequest.acceptTypes mimeTypes id ≠ [])) := by
  obtain ⟨callback, args, t, calls⟩ := restServer_calls htmlRequest [] (by simp)
  exact ⟨callback, args, t, by decide, calls, accepted_iff (reachable_setUp _ _) htmlRequest
    (List.map_append ..) calls mimeTypes⟩

theorem accepted_json : ∃ callback args t,
    CallsBack (.default .none) (.ofBytes (queryRequest.render ++ [])) restServer callback args t ∧
      args.accepted = MimeType.applicationJson.bit ∧ ¬ queryRequest.Accepts mimeTypes args.accepted := by
  obtain ⟨callback, args, t, calls⟩ := restServer_calls queryRequest [] (by simp)
  have mask : args.accepted = MimeType.applicationJson.bit :=
    calls.accepted (reachable_setUp _ _) queryRequest (List.map_append ..)
  refine ⟨callback, args, t, calls, mask, ?_⟩
  rw [accepts_iff, mask, bit_injective]
  decide

end AttoHTTP
