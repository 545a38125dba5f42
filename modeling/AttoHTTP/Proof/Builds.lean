import AttoHTTP.Proof.Authorized

namespace AttoHTTP
open Library Comp

/-- The builds keep the same tables and mark pages as compressed alike. -/
structure Config.SamePages (cfg cfg' : Config) : Prop where
  gzipPages : cfg.gzipPages = cfg'.gzipPages
  pageBuffers : cfg.pageBuffers = cfg'.pageBuffers
  pageUrlSize : cfg.pageUrlSize = cfg'.pageUrlSize

section Sites

variable {cfg cfg' : Config} (same : cfg.SamePages cfg')
include same

theorem agrees_same (e : Entry) (path : List UInt8) : e.agrees cfg path = e.agrees cfg' path := by
  rw [Entry.agrees, Entry.agrees, same.pageUrlSize]

theorem siteRoute_same (site : Site) (method : HttpMethod) (path : List UInt8) :
    site.route cfg method path = site.route cfg' method path := by
  have find : site.find cfg path = site.find cfg' path := by
    simp only [Site.find, agrees_same same]
  rw [Site.route, Site.route, find]

theorem response_same (route : Route) : route.response cfg = route.response cfg' := by
  cases route with
  | page content size type => simp only [Route.response, headerText, same.gzipPages]
  | unsupported => rfl
  | events => rfl
  | callback callback => rfl
  | noLevel => rfl
  | notFound => rfl

theorem act_same (site : Site) (action : Action) : site.act cfg action = site.act cfg' action := by
  cases action with
  | init => rfl
  | serve conn => rfl
  | register call =>
      cases call with
      | addPage url content size type => simp only [Site.act, Site.register, same.pageBuffers]
      | defaultPage url content size type => rfl
      | eventsURL url => rfl
      | defaultREST callback => rfl

end Sites

def Action.sets : Action → Bool
  | .serve _ => false
  | _ => true

theorem foldl_sets (cfg : Config) (site : Site) (actions : List Action) :
    (actions.filter Action.sets).foldl (Site.act cfg) site = actions.foldl (Site.act cfg) site := by
  induction actions generalizing site with
  | nil => rfl
  | cons action actions ih =>
      cases action with
      | init => exact ih _
      | register call => exact ih _
      | serve conn => exact ih site

/-- The build asks for no credentials, or accepts those that the request presents. -/
inductive Admits (cfg : Config) (conn : Connection) (text : RequestText) : Prop
  | unguarded (auth : cfg.auth = .none)
  | accepted (auth : cfg.auth ≠ .none) {judge : AuthType → List UInt8 → Int8}
      {presented : List (AuthType × List UInt8)} (reads : ReadsString conn.checkAuth judge)
      (each : Presented cfg text.headers presented) (some : presented ≠ [])
      (all : ∀ p ∈ presented, judge p.1 p.2 ≠ 0)

theorem live_admitted {cfg : Config} {s t : State} {site : Site} (live : Live cfg s site)
    {text : RequestText} (path : 63 ∉ text.target) (short : text.target.length < cfg.urlBufferSize)
    {conn : Connection} (admits : Admits cfg conn text) {body : List GetByte}
    (input : conn.input = sends text.render ++ body) (served : (execute cfg conn s).Returns t) :
    Routed cfg conn s site text t := by
  cases admits with
  | unguarded auth => exact live_request auth live text path short conn body input served
  | accepted auth reads each some all =>
      have answer := live_served auth live text path short conn reads each body input served
      rwa [Served, if_pos ⟨some, all⟩] at answer

theorem wide_ge : 2 ≤ 128 := by decide

theorem wide_lt : 128 < 2 ^ 16 := by decide

def wideBuild : Config :=
  { Config.default .basic with urlBufferSize := 128, url_ge := wide_ge, url_lt := wide_lt }

end AttoHTTP
