import AttoHTTP.Proof.Authorization
import AttoHTTP.Proof.Rendering

/-!
# What has been registered

A site is what the registration calls amount to: entries in the order they were accepted, without
tables, buffers or terminators. The registry holds a site, and looking a path up in one finds what
it finds in the other.
-/

namespace AttoHTTP
open Library Comp

structure Entry where
  url : List UInt8
  content : Mem
  size : UInt32
  type : MimeType

structure Site where
  defaultPage : Option Entry
  pages : List Entry
  eventsURL : List UInt8
  callback : Option Callback

def Site.init : Site where
  defaultPage := none
  pages := [⟨faviconPath, .ofBytes faviconIco, UInt32.ofNat faviconIco.length, .imagePng⟩]
  eventsURL := []
  callback := none

def Site.register (cfg : Config) (site : Site) : Registration → Bool × Site
  | .addPage url content size type =>
      if site.pages.length < cfg.pageBuffers then
        (true, { site with
          pages := site.pages ++ [⟨url, content.getD fun _ => 0, size, type⟩] })
      else (false, site)
  | .defaultPage url content size type =>
      match site.defaultPage with
      | none =>
          (true, { site with defaultPage := some ⟨url, content.getD fun _ => 0, size, type⟩ })
      | some _ => (false, site)
  | .eventsURL url =>
      match site.eventsURL with
      | [] => (true, { site with eventsURL := url })
      | _ :: _ => (false, site)
  | .defaultREST callback =>
      match site.callback with
      | none => (true, { site with callback := callback })
      | some _ => (false, site)

def Site.registerAll (cfg : Config) (site : Site) (calls : List Registration) : Site :=
  calls.foldl (fun site call => (site.register cfg call).2) site

/-- The arguments the functions are meant for: no NULL pointers, and an event URL that leaves room
for its terminator. -/
def Registration.Proper (cfg : Config) : Registration → Prop
  | .addPage url content _ _ => (∀ b ∈ url, b ≠ 0) ∧ content.isSome
  | .defaultPage url content _ _ => (∀ b ∈ url, b ≠ 0) ∧ content.isSome
  | .eventsURL url => (∀ b ∈ url, b ≠ 0) ∧ url.length < cfg.pageUrlSize
  | .defaultREST callback => callback.isSome

structure Page.Is (cfg : Config) (p : Page) (e : Entry) : Prop where
  content : p.content = some e.content
  size : p.size = e.size
  type : p.type = e.type
  url : p.url.cstr cfg.pageUrlSize = e.url.take cfg.pageUrlSize

structure Registry.Holds (cfg : Config) (g : Registry) (site : Site) : Prop where
  defaultPage : ∀ e, site.defaultPage = some e → g.defaultPage.Is cfg e
  noDefault : site.defaultPage = none → g.defaultPage.content = none
  pages : ∀ i, (h : i < site.pages.length) → (g.pages i).Is cfg site.pages[i]
  free : ∀ i, site.pages.length ≤ i → i < cfg.pageBuffers → (g.pages i).content = none
  room : site.pages.length ≤ cfg.pageBuffers
  events : ∀ n, g.eventsPage.cstr n = site.eventsURL.take n
  callback : g.callback = site.callback

theorem strncpy_cstr {text : List UInt8} (nonzero : ∀ b ∈ text, b ≠ 0) (m : Mem) (size : Nat) :
    (m.strncpy text size).cstr size = text.take size := by
  apply Mem.cstr_eq nonzero
  · intro i inside less
    simp [Mem.strncpy, less, inside]
  · intro less
    simp [Mem.strncpy, less]

theorem strncpy_string {text : List UInt8} (nonzero : ∀ b ∈ text, b ≠ 0) (m : Mem) {size : Nat}
    (short : text.length < size) (n : Nat) : (m.strncpy text size).cstr n = text.take n := by
  apply Mem.cstr_eq nonzero
  · intro i inside _
    have less : i < size := by omega
    simp [Mem.strncpy, less, inside]
  · intro _
    simp [Mem.strncpy, short]

theorem setPage_is {cfg : Config} {url : List UInt8} {content : Option Mem}
    (nonzero : ∀ b ∈ url, b ≠ 0) (some : content.isSome) (p : Page) (size : UInt32)
    (type : MimeType) :
    (setPage cfg p url content size type).Is cfg ⟨url, content.getD fun _ => 0, size, type⟩ := by
  obtain ⟨content, rfl⟩ := Option.isSome_iff_exists.mp some
  exact ⟨rfl, rfl, rfl, strncpy_cstr nonzero p.url cfg.pageUrlSize⟩

theorem find_free {cfg : Config} {g : Registry} {site : Site} (holds : g.Holds cfg site) :
    ((List.range cfg.pageBuffers).find? fun i => (g.pages i).empty) =
      if site.pages.length < cfg.pageBuffers then some site.pages.length else none := by
  have taken (i : Nat) (h : i < site.pages.length) : (g.pages i).empty = false := by
    simp [Page.empty, (holds.pages i h).content]
  split
  · rename_i room
    rw [List.find?_range_eq_some]
    refine ⟨?_, List.mem_range.mpr room, ?_⟩
    · simp [Page.empty, holds.free _ le_rfl room]
    · intro i less
      simp [taken i less]
  · rename_i full
    rw [List.find?_range_eq_none]
    intro i less
    simp [taken i (by omega)]

theorem addPage_holds {cfg : Config} {g : Registry} {site : Site} (holds : g.Holds cfg site)
    {url : List UInt8} {content : Option Mem} (nonzero : ∀ b ∈ url, b ≠ 0) (some : content.isSome)
    (size : UInt32) (type : MimeType) :
    ((addPage cfg url content size type g).1 = 1 ↔
        (site.register cfg (.addPage url content size type)).1 = true) ∧
      (addPage cfg url content size type g).2.Holds cfg
        (site.register cfg (.addPage url content size type)).2 := by
  simp only [addPage, find_free holds, Site.register]
  by_cases room : site.pages.length < cfg.pageBuffers
  · simp only [if_pos room, true_and]
    constructor
    · exact holds.defaultPage
    · exact holds.noDefault
    · intro i inside
      by_cases last : i = site.pages.length
      · simp only [last, if_true, List.getElem_concat_length]
        exact setPage_is nonzero some _ size type
      · have old : i < site.pages.length := by
          rw [List.length_append, List.length_singleton] at inside
          omega
        simp only [if_neg last, List.getElem_append_left old]
        exact holds.pages i old
    · intro i behind less
      rw [List.length_append, List.length_singleton] at behind
      have other : i ≠ site.pages.length := by omega
      simp only [if_neg other]
      exact holds.free i (by omega) less
    · rw [List.length_append, List.length_singleton]
      omega
    · exact holds.events
    · exact holds.callback
  · simp only [if_neg room]
    exact ⟨by simp, holds⟩

theorem register_holds {cfg : Config} {g : Registry} {site : Site} (holds : g.Holds cfg site)
    {call : Registration} (proper : call.Proper cfg) :
    ((call.apply cfg g).1 = 1 ↔ (site.register cfg call).1 = true) ∧
      (call.apply cfg g).2.Holds cfg (site.register cfg call).2 := by
  cases call with
  | addPage url content size type => exact addPage_holds holds proper.1 proper.2 size type
  | defaultPage url content size type =>
      simp only [Registration.apply, setDefaultPage, Site.register]
      cases set : site.defaultPage with
      | none =>
          have empty : g.defaultPage.empty = true := by simp [Page.empty, holds.noDefault set]
          simp only [empty, if_true, true_and]
          refine { holds with defaultPage := ?_, noDefault := ?_ }
          · intro e same
            obtain rfl := Option.some.inj same
            exact setPage_is proper.1 proper.2 _ size type
          · simp
      | some e =>
          have used : g.defaultPage.empty = false := by
            simp [Page.empty, (holds.defaultPage e set).content]
          simp only [used, Bool.false_eq_true, if_false]
          exact ⟨by simp, holds⟩
  | eventsURL url =>
      simp only [Registration.apply, setEventsURL, Site.register]
      have first := holds.events 1
      rw [Mem.cstr, Mem.cstr] at first
      cases set : site.eventsURL with
      | nil =>
          have empty : g.eventsPage 0 = 0 := by
            by_contra used
            simp [used, set] at first
          simp only [empty, if_true, true_and]
          exact { holds with events := strncpy_string proper.1 _ proper.2 }
      | cons b rest =>
          have used : ¬ g.eventsPage 0 = 0 := by
            intro empty
            simp [empty, set] at first
          simp only [if_neg used]
          exact ⟨by simp, holds⟩
  | defaultREST callback =>
      simp only [Registration.apply, defaultREST, Site.register, holds.callback]
      cases set : site.callback with
      | none => exact ⟨by simp, { holds with callback := rfl }⟩
      | some used => exact ⟨by simp, holds⟩

theorem init_holds (cfg : Config) (s : State) : (s.init cfg).registry.Holds cfg Site.init := by
  have cleared : ((s.registry.clear cfg)).Holds cfg ⟨none, [], [], none⟩ := by
    constructor
    · simp
    · exact fun _ => rfl
    · simp
    · intro i _ less
      simp [Registry.clear, less, Page.clear]
    · exact Nat.zero_le _
    · intro n
      cases n <;> simp [Registry.clear, Mem.cstr]
    · rfl
  have icon := (@addPage_holds _ _ _ cleared faviconPath (some (.ofBytes faviconIco))
    (by decide) rfl (UInt32.ofNat faviconIco.length) .imagePng).2
  simp only [Site.register, List.length_nil, cfg.pages_pos, if_true, List.nil_append] at icon
  exact icon

theorem registerAll_holds {cfg : Config} {calls : List Registration}
    (proper : ∀ call ∈ calls, call.Proper cfg) {g : Registry} {site : Site}
    (holds : g.Holds cfg site) :
    (g.registerAll cfg calls).Holds cfg (site.registerAll cfg calls) := by
  induction calls generalizing g site with
  | nil => exact holds
  | cons call calls ih =>
      exact ih (fun call h => proper call (by simp [h]))
        (register_holds holds (proper call (by simp))).2

theorem register_refused (cfg : Config) (g : Registry) (call : Registration)
    (refused : (call.apply cfg g).1 = 0) : (call.apply cfg g).2 = g := by
  have one : (1 : UInt8) ≠ 0 := by decide
  cases call with
  | addPage url content size type =>
      simp only [Registration.apply, addPage] at refused ⊢
      split at refused
      · exact absurd refused one
      · rfl
  | defaultPage url content size type =>
      simp only [Registration.apply, setDefaultPage] at refused ⊢
      split at refused
      · exact absurd refused one
      · rename_i used
        rw [if_neg used]
  | eventsURL url =>
      simp only [Registration.apply, setEventsURL] at refused ⊢
      split at refused
      · exact absurd refused one
      · rename_i used
        rw [if_neg used]
  | defaultREST callback =>
      simp only [Registration.apply, defaultREST] at refused ⊢
      split at refused
      · exact absurd refused one
      · rfl

/-! ## Looking a path up -/

/-- As far as the tables keep the URL. -/
def Entry.agrees (cfg : Config) (e : Entry) (path : List UInt8) : Bool :=
  path.take cfg.pageUrlSize == e.url.take cfg.pageUrlSize

def Site.find (cfg : Config) (site : Site) (path : List UInt8) : Option Entry :=
  (site.defaultPage.filter fun e => path == ascii "/" || e.agrees cfg path).or
    (site.pages.find? fun e => e.agrees cfg path)

def hasLevel : List UInt8 → Bool
  | [] => false
  | b :: path => (b == 47 && !path.isEmpty) || hasLevel path

inductive Route
  | page (content : Mem) (size : UInt32) (type : MimeType)
  | unsupported
  | events
  | callback (callback : Callback)
  | noLevel
  | notFound

def Site.route (cfg : Config) (site : Site) (method : HttpMethod) (path : List UInt8) : Route :=
  match site.find cfg path with
  | some e => if method = .get then .page e.content e.size e.type else .unsupported
  | none =>
      if path = site.eventsURL then .events
      else
        match site.callback with
        | some callback => if hasLevel path then .callback callback else .noLevel
        | none => .notFound

/-- Where `_attoHTTPFindPage` goes. -/
def State.route (cfg : Config) (s : State) : Route :=
  match findPageEntry cfg s.request s.registry with
  | some p =>
      if s.request.method = .get then .page (p.content.getD fun _ => 0) p.size p.type
      else .unsupported
  | none =>
      if isEventsPath cfg s.request s.registry then .events
      else
        match s.registry.callback with
        | some callback => if 0 < (s.path cfg).cmdlvl then .callback callback else .noLevel
        | none => .notFound

structure Request.Path (cfg : Config) (q : Request) (path : List UInt8) : Prop where
  url : ∃ m : Mem, q.url = m.put (path ++ [0])
  urlLen : q.urlLen = path.length
  nonzero : ∀ b ∈ path, b ≠ 0
  nonempty : path ≠ []
  short : path.length < cfg.urlBufferSize

theorem Request.Path.cstr {cfg : Config} {q : Request} {path : List UInt8} (h : q.Path cfg path)
    (n : Nat) : q.url.cstr n = path.take n := by
  obtain ⟨m, url⟩ := h.url
  rw [url, Mem.cstr_put m h.nonzero]

theorem checkPage_is {cfg : Config} {q : Request} {path : List UInt8}
    (url : ∀ n, q.url.cstr n = path.take n) {p : Page} {e : Entry} (same : p.Is cfg e) :
    checkPage cfg q p = e.agrees cfg path := by
  simp [checkPage, Page.empty, same.content, strncmpEq, url, same.url, Entry.agrees]

theorem checkPage_empty (cfg : Config) (q : Request) {p : Page} (none : p.content = none) :
    checkPage cfg q p = false := by
  simp [checkPage, Page.empty, none]

theorem isDefaultPath_is {cfg : Config} {q : Request} {path : List UInt8} (h : q.Path cfg path)
    {g : Registry} (used : g.defaultPage.empty = false) :
    isDefaultPath cfg q g = (path == ascii "/") := by
  have root : (Mem.ofBytes (ascii "/")).cstr cfg.urlBufferSize = ascii "/" := by
    rw [Mem.cstr_ofBytes (by decide), List.take_of_length_le]
    have := cfg.url_ge
    change 1 ≤ cfg.urlBufferSize
    omega
  have whole : path.take cfg.urlBufferSize = path := List.take_of_length_le h.short.le
  rw [isDefaultPath, used, strncmpEq, h.cstr, root, whole, h.urlLen, Bool.eq_iff_iff]
  simp only [Bool.not_false, Bool.true_and, Bool.and_eq_true, beq_iff_eq, and_iff_left_iff_imp]
  intro equal
  rw [equal]
  rfl

theorem isEventsPath_is {cfg : Config} {q : Request} {path : List UInt8} (h : q.Path cfg path)
    {g : Registry} {site : Site} (holds : g.Holds cfg site) :
    isEventsPath cfg q g = true ↔ path = site.eventsURL := by
  have whole : path.take cfg.urlBufferSize = path := List.take_of_length_le h.short.le
  have first := holds.events 1
  rw [Mem.cstr, Mem.cstr] at first
  simp only [isEventsPath, strncmpEq, h.cstr, holds.events, whole, Bool.and_eq_true, bne_iff_ne,
    beq_iff_eq]
  constructor
  · intro both
    have cut := congrArg List.length both.2
    have := h.short
    rw [List.length_take] at cut
    rw [both.2, List.take_of_length_le (by omega)]
  · intro equal
    refine ⟨?_, ?_⟩
    · intro empty
      rw [if_pos empty, ← equal] at first
      cases path with
      | nil => exact h.nonempty rfl
      | cons b path => simp at first
    · rw [← equal, whole]

theorem findTable_is {cfg : Config} {q : Request} {path : List UInt8}
    (url : ∀ n, q.url.cstr n = path.take n) {g : Registry} {site : Site}
    (holds : g.Holds cfg site) :
    match ((List.range cfg.pageBuffers).find? fun i => checkPage cfg q (g.pages i)).map g.pages with
    | some p => ∃ e, (site.pages.find? fun e => e.agrees cfg path) = some e ∧ p.Is cfg e
    | none => (site.pages.find? fun e => e.agrees cfg path) = none := by
  have cell (i : Nat) (inside : i < site.pages.length) :
      checkPage cfg q (g.pages i) = site.pages[i].agrees cfg path :=
    checkPage_is url (holds.pages i inside)
  cases found : (List.range cfg.pageBuffers).find? fun i => checkPage cfg q (g.pages i) with
  | some i =>
      obtain ⟨agrees, less, before⟩ := List.find?_range_eq_some.mp found
      have inside : i < site.pages.length := by
        by_contra behind
        rw [checkPage_empty cfg q (holds.free i (by omega) (List.mem_range.mp less))] at agrees
        exact absurd agrees (by simp)
      refine ⟨site.pages[i], ?_, holds.pages i inside⟩
      rw [List.find?_eq_some_iff_getElem]
      refine ⟨(cell i inside).symm.trans agrees, i, inside, rfl, fun j earlier => ?_⟩
      rw [← cell j (by omega)]
      exact before j earlier
  | none =>
      rw [List.find?_range_eq_none] at found
      apply List.find?_eq_none.mpr
      intro e member agrees
      obtain ⟨i, inside, rfl⟩ := List.getElem_of_mem member
      have miss := found i (inside.trans_le holds.room)
      rw [cell i inside, agrees] at miss
      exact absurd miss (by simp)

theorem findPageEntry_is {cfg : Config} {q : Request} {path : List UInt8} (h : q.Path cfg path)
    {g : Registry} {site : Site} (holds : g.Holds cfg site) :
    match findPageEntry cfg q g with
    | some p => ∃ e, site.find cfg path = some e ∧ p.Is cfg e
    | none => site.find cfg path = none := by
  have table := findTable_is h.cstr holds
  unfold findPageEntry Site.find
  cases set : site.defaultPage with
  | none =>
      have empty := holds.noDefault set
      have no : (isDefaultPath cfg q g || checkPage cfg q g.defaultPage) = false := by
        simp [isDefaultPath, Page.empty, empty, checkPage]
      rw [if_neg (by simp [no])]
      exact table
  | some e =>
      have same := holds.defaultPage e set
      have used : g.defaultPage.empty = false := by simp [Page.empty, same.content]
      rw [isDefaultPath_is h used, checkPage_is h.cstr same]
      cases found : path == ascii "/" || e.agrees cfg path with
      | true =>
          rw [if_pos rfl]
          exact ⟨e, by simp [Option.filter, found], same⟩
      | false =>
          rw [if_neg (by simp)]
          simpa [Option.filter, found] using table

/-! ## The levels of a path -/

theorem cutSlash_levels {levels ctr : Nat} (positive : 0 < levels) {t : PathLoop}
    (order : t.idlvl ≤ t.cmdlvl) :
    (cutSlash levels ctr t).idlvl ≤ (cutSlash levels ctr t).cmdlvl ∧
      (0 < (cutSlash levels ctr t).cmdlvl ↔ 0 < t.cmdlvl ∨ 1 < ctr) := by
  unfold cutSlash
  dsimp only
  by_cases command : t.cmdlvl = t.idlvl ∧ t.cmdlvl < levels
  · rw [if_pos command]
    by_cases more : 1 < ctr
    · rw [if_pos more]
      dsimp only
      omega
    · rw [if_neg more]
      omega
  · rw [if_neg command]
    by_cases id : t.idlvl < t.cmdlvl ∧ t.idlvl < levels
    · rw [if_pos id]
      by_cases more : 1 < ctr
      · rw [if_pos more]
        dsimp only
        omega
      · rw [if_neg more]
        omega
    · rw [if_neg id]
      omega

theorem cutPath_level {levels : Nat} (positive : 0 < levels) {path : List UInt8} {t : PathLoop}
    (nonzero : ∀ b ∈ path, b ≠ 0)
    (cells : ∀ i, (h : i < path.length) → t.url (t.pos + i) = path[i])
    (order : t.idlvl ≤ t.cmdlvl) :
    0 < (cutPath levels path.length t).cmdlvl ↔ 0 < t.cmdlvl ∨ hasLevel path = true := by
  induction path generalizing t with
  | nil => simp [cutPath, hasLevel]
  | cons b path ih =>
      have first : t.url t.pos = b := cells 0 (by simp)
      have rest (u : PathLoop) (same : ∀ i, i ≠ t.pos → u.url i = t.url i)
          (order : u.idlvl ≤ u.cmdlvl) (pos : u.pos = t.pos) :
          0 < (cutPath levels path.length { u with pos := u.pos + 1 }).cmdlvl ↔
            0 < u.cmdlvl ∨ hasLevel path = true := by
        refine ih (fun b hb => nonzero b (by simp [hb])) ?_ order
        intro i inside
        have cell := cells (i + 1) (by simpa using inside)
        rw [List.getElem_cons_succ] at cell
        dsimp only
        rw [same _ (by omega), ← cell, pos]
        congr 1
        omega
      rw [List.length_cons, cutPath, first, if_neg (nonzero b (by simp)), hasLevel]
      by_cases slash : b = 47
      · rw [if_pos slash]
        obtain ⟨order', level⟩ := @cutSlash_levels _ (path.length + 1) positive _ order
        have kept : (cutSlash levels (path.length + 1) t).url = t.url.set t.pos 0 ∧
            (cutSlash levels (path.length + 1) t).pos = t.pos := by
          simp only [cutSlash]
          repeat' split
          all_goals exact ⟨rfl, rfl⟩
        rw [rest _ (fun i other => by rw [kept.1]; exact Mem.set_of_ne _ _ other) order' kept.2,
          level]
        cases path with
        | nil => simp [hasLevel]
        | cons c path => simp [slash]
      · rw [if_neg slash, rest t (fun _ _ => rfl) order rfl]
        simp [slash]

theorem path_level {cfg : Config} {s : State} {path : List UInt8} (h : s.request.Path cfg path) :
    0 < (s.path cfg).cmdlvl ↔ hasLevel path = true := by
  obtain ⟨m, url⟩ := h.url
  have cells (i : Nat) (inside : i < path.length) : s.request.url (0 + i) = path[i] := by
    rw [url, Nat.zero_add, Mem.put_of_lt m (by simp; omega), List.getElem_append_left inside]
  have level := @cutPath_level _ cfg.levels_pos path
    ⟨s.request.url, 0, 0, 0, fun _ => none, fun _ => none⟩ h.nonzero cells le_rfl
  rw [State.path, h.urlLen, level]
  simp

theorem route_is {cfg : Config} {s : State} {path : List UInt8} {site : Site}
    (h : s.request.Path cfg path) (holds : s.registry.Holds cfg site) :
    s.route cfg = site.route cfg s.request.method path := by
  have lookup := findPageEntry_is h holds
  unfold State.route Site.route
  cases entry : findPageEntry cfg s.request s.registry with
  | some p =>
      simp only [entry] at lookup
      obtain ⟨e, found, same⟩ := lookup
      simp only [found, same.content, same.size, same.type, Option.getD_some]
  | none =>
      simp only [entry] at lookup
      simp only [lookup, isEventsPath_is h holds, path_level h, holds.callback]

end AttoHTTP
