import AttoHTTP.Library.Steps
import AttoHTTP.Proof.Serving

/-!
# A site that grows while it is served

Registrations and requests come in any order. The registry follows the site, and each request is
answered by the site of its moment.
-/

namespace AttoHTTP
open Library Comp

def Site.act (cfg : Config) (site : Site) : Action → Site
  | .init => Site.init
  | .register call => (site.register cfg call).2
  | .serve _ => site

def Action.Proper (cfg : Config) : Action → Prop
  | .register call => call.Proper cfg
  | _ => True

/-- The server holds the site, and its URL buffer is fit for the next request. -/
structure Live (cfg : Config) (s : State) (site : Site) : Prop where
  holds : s.registry.Holds cfg site
  unblank : Unblank cfg s.request.url

theorem live_boot {cfg : Config} {boot : State} (booted : Booted cfg boot) :
    Live cfg (boot.init cfg) Site.init where
  holds := init_holds cfg boot
  unblank := by
    intro i inside
    change isBlank (boot.request.url i) = false
    rw [booted i inside]
    decide

theorem live_acts {cfg : Config} {s t : State} {site : Site} {action : Action}
    (proper : action.Proper cfg) (live : Live cfg s site) (acts : Acts cfg s action t) :
    Live cfg t (site.act cfg action) := by
  cases acts with
  | init => exact ⟨init_holds cfg s, live.unblank⟩
  | register call => exact ⟨(register_holds live.holds proper).2, live.unblank⟩
  | serve served =>
      constructor
      · rw [execute_registry served]
        exact live.holds
      · exact execute_url (fun m i unblank => unblank.set i (by decide)) parseURL_unblank live.unblank
          served

theorem live_steps {cfg : Config} {boot s : State} {actions : List Action} (booted : Booted cfg boot)
    (proper : ∀ action ∈ actions, action.Proper cfg)
    (run : Steps (Acts cfg) (boot.init cfg) actions s) :
    Live cfg s (actions.foldl (Site.act cfg) Site.init) :=
  run.follows (Live cfg) (Site.act cfg) (Action.Proper cfg)
    (fun _ _ _ _ proper live acts => live_acts proper live acts) proper (live_boot booted)

theorem steps_serve {cfg : Config} {s u : State} {before after : List Action} {conn : Connection}
    (run : Steps (Acts cfg) s (before ++ .serve conn :: after) u) :
    ∃ m t, Steps (Acts cfg) s before m ∧ (execute cfg conn m).Returns t ∧
      Steps (Acts cfg) t after u := by
  obtain ⟨m, first, rest⟩ := Steps.append_iff.mp run
  obtain ⟨t, acts, later⟩ := Steps.cons_iff.mp rest
  cases acts with
  | serve served => exact ⟨m, t, first, served, later⟩

theorem live_request {cfg : Config} (auth : cfg.auth = .none) {s : State} {site : Site}
    (live : Live cfg s site) (text : RequestText) (path : 63 ∉ text.target)
    (short : text.target.length < cfg.urlBufferSize) (conn : Connection) (body : List GetByte)
    (input : conn.input = sends text.render ++ body) {t : State}
    (served : (execute cfg conn s).Returns t) :
    Routed cfg conn s site text t := by
  have size := cfg.url_ge
  exact (execute_open auth live.holds text path short input (live.unblank _ (by omega))).1 t served

/-- Every request in a run is answered by the site that the calls before it have made. -/
theorem live_answers {cfg : Config} (auth : cfg.auth = .none) {boot s : State}
    {before after : List Action} {conn : Connection} (booted : Booted cfg boot)
    (proper : ∀ action ∈ before, action.Proper cfg)
    (run : Steps (Acts cfg) (boot.init cfg) (before ++ .serve conn :: after) s) (text : RequestText)
    (path : 63 ∉ text.target) (short : text.target.length < cfg.urlBufferSize)
    (body : List GetByte) (input : conn.input = sends text.render ++ body) :
    ∃ m t, Steps (Acts cfg) (boot.init cfg) before m ∧ (execute cfg conn m).Returns t ∧
      Steps (Acts cfg) t after s ∧ Routed cfg conn m (before.foldl (Site.act cfg) Site.init) text t := by
  obtain ⟨m, t, first, served, later⟩ := steps_serve run
  have live := live_steps booted proper first
  exact ⟨m, t, first, served, later, live_request auth live text path short conn body input served⟩

/-! A site with an event stream. -/

theorem events_proper (auth : AuthBuild) :
    ∀ action ∈ [Action.register (.eventsURL (ascii "/events"))], action.Proper (.default auth) := by
  intro action member
  rw [List.mem_singleton.mp member]
  cases auth <;> exact ⟨by decide, by decide⟩

theorem live_answers_icon : ∃ m t,
    Steps (Acts (.default .none)) (State.boot.init (.default .none))
        [.register (.eventsURL (ascii "/events"))] m ∧
      (execute (.default .none) (.ofBytes iconRequest.render) m).Returns t ∧
      Steps (Acts (.default .none)) t [] t ∧
      Routed (.default .none) (.ofBytes iconRequest.render) m
        ([.register (.eventsURL (ascii "/events"))].foldl (Site.act (.default .none)) Site.init)
        iconRequest t := by
  let call : Registration := .eventsURL (ascii "/events")
  obtain ⟨t, served⟩ := execute_total (.default .none) (.ofBytes iconRequest.render)
    { State.boot.init (.default .none) with
      registry := (call.apply (.default .none) (State.boot.init (.default .none)).registry).2 } rfl
  obtain ⟨m, t', first, served', later, answers⟩ :=
    @live_answers (.default .none) rfl State.boot t [.register call] []
      (.ofBytes iconRequest.render) (fun _ _ => rfl) (events_proper .none)
      (.cons (.register call) (.cons (.serve served) (.nil _))) iconRequest (by decide) (by decide) []
      (List.append_nil _).symm
  cases later
  exact ⟨m, _, first, served', .nil _, answers⟩

/-! ## What has been found stays -/

def Action.SetsDefault : Action → Prop
  | .register (.defaultPage ..) => True
  | _ => False

theorem find_append {cfg : Config} {site : Site} {path : List UInt8} {e : Entry}
    (found : site.find cfg path = some e) (more : List Entry) :
    { site with pages := site.pages ++ more }.find cfg path = some e := by
  unfold Site.find at found ⊢
  rw [List.find?_append]
  cases first : site.defaultPage.filter fun e => path == ascii "/" || e.agrees cfg path with
  | some e' =>
      rw [first] at found
      exact found
  | none =>
      rw [first, Option.none_or] at found
      rw [found]
      rfl

theorem find_lasts {cfg : Config} {site : Site} {path : List UInt8} {e : Entry} {action : Action}
    (found : site.find cfg path = some e) (same : action ≠ .init)
    (settled : site.defaultPage.isSome ∨ ¬ action.SetsDefault) :
    (site.act cfg action).find cfg path = some e ∧
      (site.defaultPage.isSome → (site.act cfg action).defaultPage.isSome) := by
  cases action with
  | init => exact absurd rfl same
  | serve conn => exact ⟨found, id⟩
  | register call =>
      cases call with
      | addPage url content size type =>
          simp only [Site.act, Site.register]
          split
          · exact ⟨find_append found _, id⟩
          · exact ⟨found, id⟩
      | defaultPage url content size type =>
          simp only [Site.act, Site.register]
          cases set : site.defaultPage with
          | none => simp [set, Action.SetsDefault] at settled
          | some e => exact ⟨found, fun _ => by rw [set]; rfl⟩
      | eventsURL url =>
          simp only [Site.act, Site.register]
          split <;> exact ⟨found, id⟩
      | defaultREST callback =>
          simp only [Site.act, Site.register]
          split <;> exact ⟨found, id⟩

theorem find_lasts_run {cfg : Config} {site : Site} {path : List UInt8} {e : Entry}
    {actions : List Action} (found : site.find cfg path = some e)
    (same : ∀ action ∈ actions, action ≠ .init)
    (settled : site.defaultPage.isSome ∨ ∀ action ∈ actions, ¬ action.SetsDefault) :
    (actions.foldl (Site.act cfg) site).find cfg path = some e := by
  induction actions generalizing site with
  | nil => exact found
  | cons action actions ih =>
      have now : site.defaultPage.isSome ∨ ¬ action.SetsDefault :=
        settled.imp_right fun none => none action List.mem_cons_self
      obtain ⟨found', kept⟩ := find_lasts found (same action List.mem_cons_self) now
      apply ih found'
      · exact fun a member => same a (List.mem_cons_of_mem _ member)
      · exact settled.imp kept fun none a member => none a (List.mem_cons_of_mem _ member)

theorem route_found {cfg : Config} {site : Site} {method : HttpMethod} {path : List UInt8} {e : Entry}
    (found : site.find cfg path = some e) :
    site.route cfg method path =
      if method = .get then .page e.content e.size e.type else .unsupported := by
  rw [Site.route, found]

/-- Once a path has a page, and the default page is settled, the same request is answered with the
same bytes for as long as the server runs. -/
theorem page_lasts {cfg : Config} (auth : cfg.auth = .none) {boot s : State}
    {before middle after : List Action} {conn conn' : Connection} (booted : Booted cfg boot)
    (proper : ∀ action ∈ before ++ .serve conn :: middle, action.Proper cfg)
    (run : Steps (Acts cfg) (boot.init cfg)
      ((before ++ .serve conn :: middle) ++ .serve conn' :: after) s)
    {e : Entry} {text text' : RequestText}
    (found : (before.foldl (Site.act cfg) Site.init).find cfg text.target = some e)
    (same : ∀ action ∈ middle, action ≠ .init)
    (settled : (before.foldl (Site.act cfg) Site.init).defaultPage.isSome ∨
      ∀ action ∈ middle, ¬ action.SetsDefault)
    (path : 63 ∉ text.target) (short : text.target.length < cfg.urlBufferSize)
    (again : text'.method = text.method ∧ text'.target = text.target) (body body' : List GetByte)
    (input : conn.input = sends text.render ++ body)
    (input' : conn'.input = sends text'.render ++ body') :
    ∃ m t m' t', (execute cfg conn m).Returns t ∧ Steps (Acts cfg) t middle m' ∧
      (execute cfg conn' m').Returns t' ∧ t'.written = t.written ∧
      t'.request.returnCode = t.request.returnCode := by
  obtain ⟨u, t', first, served', -⟩ := steps_serve run
  obtain ⟨m, t, start, served, between⟩ := steps_serve first
  have early := live_steps booted
    (fun action member => proper action (List.mem_append_left _ member)) start
  have late := live_steps booted proper first
  rw [List.foldl_append, List.foldl_cons] at late
  have found' := find_lasts_run found same settled
  have answers := live_request auth early text path short conn body input served
  have answers' := live_request auth late text' (again.2 ▸ path) (again.2 ▸ short) conn' body' input'
    served'
  have route : (middle.foldl (Site.act cfg) (before.foldl (Site.act cfg) Site.init)).route cfg
      text'.method text'.target =
      (before.foldl (Site.act cfg) Site.init).route cfg text.method text.target := by
    rw [again.1, again.2, route_found found', route_found found]
  obtain ⟨code, bytes, told⟩ : ∃ code bytes,
      ((before.foldl (Site.act cfg) Site.init).route cfg text.method text.target).response cfg =
        some (code, bytes) := by
    rw [route_found found]
    split <;> exact ⟨_, _, rfl⟩
  obtain ⟨returned, written⟩ := answers.response code bytes told
  obtain ⟨returned', written'⟩ := answers'.response code bytes (by rw [← told, ← route]; rfl)
  exact ⟨m, t, u, t', served, between, served', written'.trans written.symm,
    returned'.trans returned.symm⟩

theorem page_lasts_icon : ∃ m t m' t',
    (execute (.default .none) (.ofBytes iconRequest.render) m).Returns t ∧
      Steps (Acts (.default .none)) t [.register (.eventsURL (ascii "/events"))] m' ∧
      (execute (.default .none) (.ofBytes iconRequest.render) m').Returns t' ∧
      t'.written = t.written ∧ t'.request.returnCode = t.request.returnCode := by
  let call : Registration := .eventsURL (ascii "/events")
  obtain ⟨t, served⟩ := execute_total (.default .none) (.ofBytes iconRequest.render)
    (State.boot.init (.default .none)) rfl
  obtain ⟨t', served'⟩ := execute_total (.default .none) (.ofBytes iconRequest.render)
    { t with registry := (call.apply (.default .none) t.registry).2 } rfl
  have input : (Connection.ofBytes iconRequest.render).input = sends iconRequest.render ++ [] :=
    (List.append_nil _).symm
  refine @page_lasts (.default .none) rfl State.boot t' [] [.register call] []
    (.ofBytes iconRequest.render) (.ofBytes iconRequest.render) (fun _ _ => rfl) ?_
    (.cons (.serve served) (.cons (.register call) (.cons (.serve served') (.nil _))))
    ⟨faviconPath, .ofBytes faviconIco, UInt32.ofNat faviconIco.length, .imagePng⟩ iconRequest
    iconRequest rfl (by simp) (.inr (by simp [Action.SetsDefault])) (by decide) (by decide)
    ⟨rfl, rfl⟩ [] [] input input
  intro action member
  rcases List.mem_cons.mp member with rfl | member
  · trivial
  · exact events_proper .none action member

end AttoHTTP
