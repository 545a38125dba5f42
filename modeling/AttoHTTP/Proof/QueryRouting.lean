import AttoHTTP.Proof.Levels

/-!
# Routing with a query

The length of the URL counts the query, while the string stops where it starts.
-/

namespace AttoHTTP
open Library Comp

/-! ## What is selected -/

inductive Outcome
  | page (p : Page)
  | unsupported
  | events
  | notFound
  | noCommand
  | callback (command id : List (Option (List UInt8))) (cmdlvl idlvl : Nat)

def texts (cfg : Config) (pointers : List (Option Mem)) : List (Option (List UInt8)) :=
  pointers.map (Option.map (Mem.cstr cfg.urlBufferSize))

def State.outcome (cfg : Config) (s : State) : Outcome :=
  match findPageEntry cfg s.request s.registry with
  | some p => if s.request.method = .get then .page p else .unsupported
  | none =>
      if isEventsPath cfg s.request s.registry then .events
      else
        match s.registry.callback with
        | none => .notFound
        | some _ =>
            if 0 < (s.path cfg).cmdlvl then
              .callback (texts cfg (s.callbackArgs cfg).command) (texts cfg (s.callbackArgs cfg).id)
                (s.callbackArgs cfg).cmdlvl (s.callbackArgs cfg).idlvl
            else .noCommand

/-- What `_attoHTTPFindPage` does in this state when this is the outcome. -/
def Outcome.Leads (cfg : Config) (visit : Nat) (s : State) (f : Found) : Outcome → Prop
  | .page p => f = ⟨1, sendPage cfg p s⟩
  | .unsupported => f = ⟨-1, s.setReturnCode statusUnsupported⟩
  | .events => f = ⟨1, (sendServerSentEventHeaders cfg s).state⟩
  | .notFound => f = ⟨0, s⟩
  | .noCommand => f = ⟨1, (s.withPath cfg).setReturnCode statusInternalError⟩
  | .callback .. => ∃ callback t, s.registry.callback = some callback ∧ f = ⟨1, t⟩ ∧
      (runCallback cfg callback visit (s.callbackArgs cfg) (s.withPath cfg)).Returns t

theorem findPage_outcome {cfg : Config} {visit : Nat} {s : State} {f : Found} :
    Finds cfg visit s f ↔ (s.outcome cfg).Leads cfg visit s f := by
  constructor
  · intro h
    unfold State.outcome
    cases h with
    | page entry get => simp [entry, get, Outcome.Leads]
    | unsupported entry other => simp [entry, other, Outcome.Leads]
    | events entry path => simp [entry, path, Outcome.Leads]
    | nothing entry path callback => simp [entry, path, callback, Outcome.Leads]
    | noCommand entry path registered level => simp [entry, path, registered, level, Outcome.Leads]
    | called entry path registered level run =>
        simp only [entry, path, registered, if_pos level, Bool.false_eq_true, if_false]
        exact ⟨_, _, registered, rfl, run⟩
  · unfold State.outcome
    cases entry : findPageEntry cfg s.request s.registry with
    | some p =>
        by_cases get : s.request.method = .get
        · simp only [if_pos get]
          rintro rfl
          exact .page entry get
        · simp only [if_neg get]
          rintro rfl
          exact .unsupported entry get
    | none =>
        cases path : isEventsPath cfg s.request s.registry with
        | true =>
            rintro rfl
            exact .events entry path
        | false =>
            cases registered : s.registry.callback with
            | none =>
                rintro rfl
                exact .nothing entry path registered
            | some callback =>
                by_cases level : 0 < (s.path cfg).cmdlvl
                · simp only [if_pos level, Bool.false_eq_true, if_false]
                  rintro ⟨_, t, same, rfl, run⟩
                  rw [registered] at same
                  exact .called entry path registered level (Option.some.inj same ▸ run)
                · simp only [if_neg level, Bool.false_eq_true, if_false]
                  rintro rfl
                  exact .noCommand entry path registered (Nat.eq_zero_of_not_pos level)

/-- Serving the connection, the server comes to look for the page and finds this. -/
inductive Selects (cfg : Config) (conn : Connection) (s : State) : Outcome → Prop
  | intro {p : Parsed}
      (parse : (parseRequest cfg conn.checkAuth (s.accept cfg conn).reader
        (s.accept cfg conn).request).Returns p)
      (authorized : p.request.authenticated ≠ 0) (unknown : p.request.returnCode = statusUnknown) :
      Selects cfg conn s ((s.asked cfg conn p).outcome cfg)

/-- The request ends in the states that the outcome leads to. -/
def Outcome.Decides (cfg : Config) (conn : Connection) (s : State) (o : Outcome) : Prop :=
  ∃ p, (parseRequest cfg conn.checkAuth (s.accept cfg conn).reader
      (s.accept cfg conn).request).Returns p ∧
    ∀ t, (execute cfg conn s).Returns t ↔
      ∃ f, o.Leads cfg conn.visit (s.asked cfg conn p) f ∧ t = finish cfg f.settled

theorem Selects.decides {cfg : Config} {conn : Connection} {s : State} {o : Outcome}
    (h : Selects cfg conn s o) : o.Decides cfg conn s := by
  cases h with
  | @intro p parse authorized unknown =>
      refine ⟨p, parse, fun t => ?_⟩
      have same : State.authorized
          { s.accept cfg conn with reader := p.reader, request := p.request } =
          { s.accept cfg conn with reader := p.reader, request := p.request } :=
        if_neg authorized
      rw [execute, parse.bind_iff, returns_bind]
      constructor
      · rintro ⟨u, answer, done⟩
        rw [respond_returns, same, if_pos unknown] at answer
        obtain ⟨f, finds, rfl⟩ := answer
        exact ⟨f, findPage_outcome.mp finds, returns_pure.mp done⟩
      · rintro ⟨f, leads, rfl⟩
        refine ⟨f.settled, ?_, returns_pure.mpr rfl⟩
        rw [respond_returns, same, if_pos unknown]
        exact ⟨f, findPage_outcome.mpr leads, rfl⟩

/-! ## Looking a path up -/

def Page.servesAt (cfg : Config) (p : Page) (path : List UInt8) : Bool :=
  !p.empty && path.take cfg.pageUrlSize == p.url.cstr cfg.pageUrlSize

def Registry.table (cfg : Config) (g : Registry) (path : List UInt8) : Option Page :=
  ((List.range cfg.pageBuffers).find? fun i => (g.pages i).servesAt cfg path).map g.pages

def Registry.eventsAt (cfg : Config) (g : Registry) (path : List UInt8) : Bool :=
  g.eventsPage 0 != 0 && path.take cfg.urlBufferSize == g.eventsPage.cstr cfg.urlBufferSize

def Registry.lookup (cfg : Config) (g : Registry) (path : List UInt8) (beyond : Nat) : Option Page :=
  if (!g.defaultPage.empty && path == ascii "/" && beyond == 0) || g.defaultPage.servesAt cfg path then
    some g.defaultPage
  else g.table cfg path

structure Request.Asks (cfg : Config) (q : Request) (path : List UInt8) (beyond : Nat) : Prop where
  url : ∃ m tail, q.url = Mem.put m (path ++ 0 :: tail)
  urlLen : q.urlLen = path.length + beyond
  nonzero : ∀ b ∈ path, b ≠ 0
  short : path.length < cfg.urlBufferSize

variable {cfg : Config} {q : Request} {path : List UInt8} {beyond : Nat}

theorem Request.Asks.cstr (h : q.Asks cfg path beyond) (n : Nat) : q.url.cstr n = path.take n := by
  obtain ⟨m, tail, url⟩ := h.url
  have string := isString_put m [] path tail
  rw [List.nil_append, List.length_nil, Mem.skip_zero, ← url] at string
  exact string.cstr h.nonzero n

theorem Request.Asks.checkPage (h : q.Asks cfg path beyond) (p : Page) :
    checkPage cfg q p = p.servesAt cfg path := by
  rw [AttoHTTP.checkPage, strncmpEq, h.cstr, Page.servesAt]

theorem Request.Asks.isDefaultPath (h : q.Asks cfg path beyond) (g : Registry) :
    isDefaultPath cfg q g = (!g.defaultPage.empty && path == ascii "/" && beyond == 0) := by
  have root : (Mem.ofBytes (ascii "/")).cstr cfg.urlBufferSize = ascii "/" := by
    rw [Mem.cstr_ofBytes (by decide), List.take_of_length_le]
    have := cfg.url_ge
    change 1 ≤ cfg.urlBufferSize
    omega
  rw [AttoHTTP.isDefaultPath, strncmpEq, h.cstr, root, List.take_of_length_le h.short.le, h.urlLen]
  cases same : path == ascii "/" with
  | false => simp
  | true =>
      rw [beq_iff_eq.mp same, show (ascii "/").length = 1 from rfl]
      congr 1
      rw [Bool.eq_iff_iff, beq_iff_eq, beq_iff_eq]
      omega

theorem Request.Asks.findPageEntry (h : q.Asks cfg path beyond) (g : Registry) :
    findPageEntry cfg q g = g.lookup cfg path beyond := by
  have pages : (fun i => AttoHTTP.checkPage cfg q (g.pages i)) =
      fun i => (g.pages i).servesAt cfg path := funext fun i => h.checkPage (g.pages i)
  rw [AttoHTTP.findPageEntry, h.isDefaultPath, h.checkPage, pages]
  rfl

theorem Request.Asks.isEventsPath (h : q.Asks cfg path beyond) (g : Registry) :
    isEventsPath cfg q g = g.eventsAt cfg path := by
  rw [AttoHTTP.isEventsPath, strncmpEq, h.cstr, Registry.eventsAt]

/-! ## The levels of any path -/

theorem slashed_split (path : List UInt8) : ∃ front segments, path = front ++ slashed segments ∧
    47 ∉ front ∧ ∀ s ∈ segments, 47 ∉ s := by
  induction path with
  | nil => exact ⟨[], [], rfl, by simp, by simp⟩
  | cons b path ih =>
      obtain ⟨front, segments, rfl, first, rest⟩ := ih
      by_cases slash : b = 47
      · refine ⟨[], front :: segments, by rw [slash]; rfl, by simp, ?_⟩
        intro s member
        rcases List.mem_cons.mp member with rfl | member
        · exact first
        · exact rest s member
      · exact ⟨b :: front, segments, rfl, by simp [first, Ne.symm slash], rest⟩

theorem count_slashed {front : List UInt8} {segments : List (List UInt8)} (first : 47 ∉ front)
    (rest : ∀ s ∈ segments, 47 ∉ s) : (front ++ slashed segments).count 47 = segments.length := by
  rw [List.count_append, List.count_eq_zero_of_not_mem first, Nat.zero_add]
  induction segments with
  | nil => rfl
  | cons s segments ih =>
      rw [show slashed (s :: segments) = 47 :: (s ++ slashed segments) from rfl, List.count_cons,
        List.count_append, List.count_eq_zero_of_not_mem (rest s (by simp)),
        ih fun s member => rest s (by simp [member])]
      simp

theorem getLast_slashed {front : List UInt8} {segments : List (List UInt8)} (first : 47 ∉ front)
    (rest : ∀ s ∈ segments, 47 ∉ s) :
    (front ++ slashed segments).getLast? = some 47 ↔ segments.getLast? = some [] := by
  cases segments.eq_nil_or_concat with
  | inl none =>
      rw [none]
      simp only [slashed, List.flatMap_nil, List.append_nil, List.getLast?_nil]
      constructor
      · intro last
        exact absurd (List.mem_of_getLast? last) first
      · intro last
        cases last
  | inr some =>
      obtain ⟨parts, last, rfl⟩ := some
      rw [List.concat_eq_append] at rest ⊢
      have source : slashed (parts ++ [last]) = slashed parts ++ (47 :: last) := by simp [slashed]
      rw [source, List.getLast?_append, List.getLast?_append, List.getLast?_append]
      cases last.eq_nil_or_concat with
      | inl none => simp [none]
      | inr some =>
          obtain ⟨bytes, b, rfl⟩ := some
          rw [List.concat_eq_append] at rest ⊢
          have other : b ≠ 47 := by
            rintro rfl
            exact rest (bytes ++ [47]) (by simp) (by simp)
          simp [List.getLast?_cons, other]

theorem levelled_beyond {beyond : Nat} (more : 0 < beyond) (segments : List (List UInt8)) :
    levelled beyond segments = segments := by
  induction segments with
  | nil => rfl
  | cons s segments ih => rw [levelled, if_neg (by omega), ih]

theorem levelled_zero (segments : List (List UInt8)) : levelled 0 segments =
    if segments.getLast? = some [] then segments.dropLast else segments := by
  induction segments with
  | nil => rfl
  | cons s segments ih =>
      rw [levelled, ih]
      cases segments with
      | nil => cases s <;> simp
      | cons s' segments =>
          rw [if_neg (by simp), List.getLast?_cons_cons, List.dropLast_cons_cons]
          split <;> rfl

theorem forall₂_texts {pointers : List (Option Mem)} {names : List (Option (List UInt8))}
    (h : List.Forall₂ PointsTo pointers names)
    (nonzero : ∀ t ∈ names, ∀ s ∈ t, ∀ b ∈ s, b ≠ 0) :
    texts cfg pointers = names.map (Option.map (List.take cfg.urlBufferSize)) := by
  induction h with
  | nil => rfl
  | cons first rest ih =>
      rw [texts, List.map_cons, List.map_cons, ← texts, ih fun t member => nonzero t (by simp [member])]
      cases first with
      | null => rfl
      | text string =>
          rw [Option.map_some, Option.map_some, string.cstr (nonzero _ (by simp) _ rfl)]

/-! ## What is found at a path -/

def everySecond (cfg : Config) (parts : List (List UInt8)) (first : Nat) :
    List (Option (List UInt8)) :=
  (List.range cfg.apiLevels).map fun k => (parts[2 * k + first]?).map (List.take cfg.urlBufferSize)

/-- What a path that starts these levels is routed to, with this much after it. -/
def Registry.outcome (cfg : Config) (g : Registry) (method : HttpMethod) (path : List UInt8)
    (beyond : Nat) (parts : List (List UInt8)) : Outcome :=
  match g.lookup cfg path beyond with
  | some p => if method = .get then .page p else .unsupported
  | none =>
      if g.eventsAt cfg path then .events
      else
        match g.callback with
        | none => .notFound
        | some _ =>
            if 0 < parts.length then
              .callback (everySecond cfg parts 0) (everySecond cfg parts 1)
                (min cfg.apiLevels ((parts.length + 1) / 2)) (min cfg.apiLevels (parts.length / 2))
            else .noCommand

theorem Names.texts {args : CallbackArgs} {parts : List (List UInt8)}
    (h : args.Names cfg.apiLevels parts) (nonzero : ∀ s ∈ parts, ∀ b ∈ s, b ≠ 0) :
    texts cfg args.command = everySecond cfg parts 0 ∧ texts cfg args.id = everySecond cfg parts 1 := by
  have each (first : Nat) : ∀ t ∈ (List.range cfg.apiLevels).map (fun k => parts[2 * k + first]?),
      ∀ s ∈ t, ∀ b ∈ s, b ≠ 0 := by
    intro t member s found
    obtain ⟨k, -, rfl⟩ := List.mem_map.mp member
    exact nonzero s (List.mem_of_getElem? found)
  constructor
  · rw [forall₂_texts h.command (each 0), List.map_map]
    rfl
  · rw [forall₂_texts h.id (each 1), List.map_map]
    rfl

theorem outcome_asks {s : State} {front : List UInt8} {segments : List (List UInt8)}
    (h : s.request.Asks cfg path beyond) (split : path = front ++ slashed segments)
    (first : 47 ∉ front) (rest : ∀ s ∈ segments, 47 ∉ s) : s.outcome cfg =
      s.registry.outcome cfg s.request.method path beyond (levelled beyond segments) := by
  obtain ⟨m, tail, url⟩ := h.url
  have inFront (b : UInt8) (member : b ∈ front) : b ∈ path := by
    rw [split]
    exact List.mem_append_left _ member
  have inParts (part : List UInt8) (member : part ∈ segments) (b : UInt8) (inside : b ∈ part) :
      b ∈ path := by
    rw [split]
    exact List.mem_append_right _ (List.mem_flatMap.mpr ⟨part, member, by simp [inside]⟩)
  have names : (s.callbackArgs cfg).Names cfg.apiLevels (levelled beyond segments) := by
    rw [split, List.append_assoc] at url
    refine path_names (fun b member => ⟨h.nonzero b (inFront b member), ?_⟩)
      (fun part member b inside => ⟨h.nonzero b (inParts part member b inside), ?_⟩) url
      (split ▸ h.urlLen)
    · rintro rfl
      exact first member
    · rintro rfl
      exact rest part member inside
  have texts := Names.texts names fun part member b inside =>
    h.nonzero b (inParts part ((levelled_mono beyond segments).subset member) b inside)
  have level : 0 < (s.path cfg).cmdlvl ↔ 0 < (levelled beyond segments).length := by
    have count : (s.path cfg).cmdlvl = _ := names.cmdlvl
    have positive := cfg.levels_pos
    omega
  rw [State.outcome, Registry.outcome, h.findPageEntry, h.isEventsPath, texts.1, texts.2,
    names.cmdlvl, names.idlvl]
  simp only [level]

/-! ## When the query does not matter -/

/-- A default page that only the path "/" leads to is found for no query, and a slash at the end
of a path starts a level for a query. -/
structure Registry.IgnoresQuery (cfg : Config) (g : Registry) (method : HttpMethod)
    (path : List UInt8) : Prop where
  root : path = ascii "/" → g.defaultPage.empty = false → g.defaultPage.servesAt cfg path = false →
    method ≠ .get ∧ (g.table cfg path).isSome
  slash : path.getLast? = some 47 → path.count 47 ≤ 2 * cfg.apiLevels →
    g.lookup cfg path 0 = none → g.eventsAt cfg path = false → g.callback = none

theorem everySecond_full {parts : List (List UInt8)} (full : 2 * cfg.apiLevels ≤ parts.length)
    (more : List (List UInt8)) {first : Nat} (two : first < 2) :
    everySecond cfg (parts ++ more) first = everySecond cfg parts first := by
  apply List.map_congr_left
  intro k inside
  have less := List.mem_range.mp inside
  rw [List.getElem?_append_left (by omega)]

theorem table_servesAt {g : Registry} {p : Page} (found : g.table cfg path = some p) :
    p.servesAt cfg path = true := by
  obtain ⟨i, here, rfl⟩ := Option.map_eq_some_iff.mp found
  exact @List.find?_some _ (fun i => (g.pages i).servesAt cfg path) _ _ here

def Outcome.ofPage : Outcome → Bool
  | .page _ => true
  | .unsupported => true
  | .events => false
  | .notFound => false
  | .noCommand => false
  | .callback .. => false

theorem outcome_ofPage (g : Registry) (method : HttpMethod) (parts : List (List UInt8)) :
    (g.outcome cfg method path beyond parts).ofPage = (g.lookup cfg path beyond).isSome := by
  unfold Registry.outcome
  cases g.lookup cfg path beyond with
  | some p => by_cases get : method = .get <;> simp [get, Outcome.ofPage]
  | none =>
      cases g.eventsAt cfg path with
      | true => rfl
      | false =>
          cases g.callback with
          | none => rfl
          | some callback => by_cases level : 0 < parts.length <;> simp [level, Outcome.ofPage]

theorem outcome_root {g : Registry} {method : HttpMethod} {parts parts' : List (List UInt8)}
    (more : 0 < beyond) (root : path = ascii "/") (used : g.defaultPage.empty = false)
    (elsewhere : g.defaultPage.servesAt cfg path = false) :
    g.outcome cfg method path 0 parts = g.outcome cfg method path beyond parts' ↔
      method ≠ .get ∧ (g.table cfg path).isSome := by
  have without : g.lookup cfg path 0 = some g.defaultPage := by
    simp [Registry.lookup, root, used]
  have within : g.lookup cfg path beyond = g.table cfg path := by
    simp [Registry.lookup, elsewhere, more.ne']
  cases entry : g.table cfg path with
  | some p =>
      rw [Registry.outcome, Registry.outcome, without, within, entry]
      by_cases get : method = .get
      · have other : g.defaultPage ≠ p := by
          rintro rfl
          rw [table_servesAt entry] at elsewhere
          cases elsewhere
        simp [get, other]
      · simp [get]
  | none =>
      constructor
      · intro same
        have found := congrArg Outcome.ofPage same
        rw [outcome_ofPage, outcome_ofPage, without, within, entry] at found
        cases found
      · rintro ⟨-, none⟩
        cases none

theorem outcome_callback {g : Registry} {method : HttpMethod} {callback : Callback}
    {parts : List (List UInt8)} {last : List UInt8}
    (same : g.lookup cfg path beyond = none) (none : g.lookup cfg path 0 = none)
    (other : g.eventsAt cfg path = false) (registered : g.callback = some callback) :
    g.outcome cfg method path 0 parts = g.outcome cfg method path beyond (parts ++ [last]) ↔
      2 * cfg.apiLevels ≤ parts.length := by
  have positive := cfg.levels_pos
  have length : (parts ++ [last]).length = parts.length + 1 := by simp
  simp only [Registry.outcome, same, none, other, registered, length, Nat.succ_pos, if_true,
    Bool.false_eq_true, if_false]
  by_cases level : 0 < parts.length
  · rw [if_pos level, Outcome.callback.injEq]
    constructor
    · rintro ⟨-, -, commands, ids⟩
      omega
    · intro full
      rw [everySecond_full full _ (by decide), everySecond_full full _ (by decide)]
      refine ⟨rfl, rfl, ?_, ?_⟩ <;> omega
  · rw [if_neg level]
    constructor
    · intro same
      cases same
    · intro full
      omega

theorem lookup_same {g : Registry} (other : ¬ (path = ascii "/" ∧
    g.defaultPage.empty = false ∧ g.defaultPage.servesAt cfg path = false)) :
    g.lookup cfg path beyond = g.lookup cfg path 0 := by
  rw [Registry.lookup, Registry.lookup]
  cases at_ : g.defaultPage.servesAt cfg path with
  | true => simp
  | false =>
      have root : (!g.defaultPage.empty && path == ascii "/") = false := by
        cases empty : g.defaultPage.empty with
        | true => rfl
        | false =>
            have root : path ≠ ascii "/" := fun root => other ⟨root, empty, at_⟩
            simp [root]
      rw [root, Bool.false_and, Bool.false_and]

theorem outcome_iff {g : Registry} {method : HttpMethod} {front : List UInt8}
    {segments : List (List UInt8)} (more : 0 < beyond) (split : path = front ++ slashed segments)
    (first : 47 ∉ front) (rest : ∀ s ∈ segments, 47 ∉ s) :
    g.outcome cfg method path 0 (levelled 0 segments) =
        g.outcome cfg method path beyond (levelled beyond segments) ↔
      g.IgnoresQuery cfg method path := by
  rw [levelled_beyond more, levelled_zero]
  by_cases root : path = ascii "/" ∧ g.defaultPage.empty = false ∧
      g.defaultPage.servesAt cfg path = false
  · obtain ⟨here, used, elsewhere⟩ := root
    rw [outcome_root more here used elsewhere]
    have found : g.lookup cfg path 0 ≠ none := by simp [Registry.lookup, here, used]
    exact ⟨fun h => ⟨fun _ _ _ => h, fun _ _ none => absurd none found⟩,
      fun h => h.root here used elsewhere⟩
  · have same : g.lookup cfg path beyond = g.lookup cfg path 0 := lookup_same root
    have rooted (h : path.getLast? = some 47 → path.count 47 ≤ 2 * cfg.apiLevels →
        g.lookup cfg path 0 = none → g.eventsAt cfg path = false → g.callback = none) :
        g.IgnoresQuery cfg method path :=
      ⟨fun here used elsewhere => absurd ⟨here, used, elsewhere⟩ root, h⟩
    have ends := split ▸ getLast_slashed first rest
    have count := split ▸ count_slashed first rest
    cases found : g.lookup cfg path 0 with
    | some p =>
        simp only [Registry.outcome, same, found, true_iff]
        exact rooted fun _ _ none => by simp [found] at none
    | none =>
        cases event : g.eventsAt cfg path with
        | true =>
            simp only [Registry.outcome, same, found, event, if_true, true_iff]
            exact rooted fun _ _ _ other => by simp [event] at other
        | false =>
            cases registered : g.callback with
            | none =>
                simp only [Registry.outcome, same, found, event, registered, true_iff]
                exact rooted fun _ _ _ _ => registered
            | some callback =>
                by_cases last : segments.getLast? = some []
                · have parts := List.dropLast_append_getLast? [] last
                  have length := congrArg List.length parts
                  rw [List.length_append, List.length_singleton] at length
                  rw [if_pos last]
                  conv_lhs => rw [← parts]
                  rw [List.dropLast_concat]
                  rw [outcome_callback (same.trans found) found event registered]
                  constructor
                  · exact fun full => rooted fun _ few => by omega
                  · intro h
                    by_contra room
                    have none := h.slash (ends.mpr last) (by omega) found event
                    rw [registered] at none
                    cases none
                · rw [if_neg last]
                  simp only [Registry.outcome, same, found, event, registered, true_iff]
                  exact rooted fun slash => absurd (ends.mp slash) last

/-! ## Requests with a query -/

variable {conn : Connection} {s : State} {o : Outcome}

theorem selects_path (text : RequestText) {body : List GetByte} {front tail : List UInt8}
    {segments : List (List UInt8)} (reachable : Reachable cfg s)
    (input : conn.input = sends text.render ++ body)
    (fits : text.target.length < cfg.urlBufferSize)
    (cells : urlCells text.target ++ [0] = path ++ 0 :: tail) (split : path = front ++ slashed segments)
    (first : 47 ∉ front) (rest : ∀ s ∈ segments, 47 ∉ s)
    (nonzero : ∀ b ∈ path, b ≠ 0) (h : Selects cfg conn s o) :
    o = s.registry.outcome cfg text.method path tail.length (levelled tail.length segments) := by
  cases h with
  | intro parse authorized unknown =>
      obtain ⟨url, urlLen, method⟩ := parsed_url reachable text input fits parse
      rw [cells] at url
      have length := congrArg List.length cells
      simp only [List.length_append, length_urlCells, List.length_cons, List.length_nil] at length
      have asks : (s.asked cfg conn _).request.Asks cfg path tail.length :=
        ⟨⟨_, tail, url⟩, urlLen.trans (by omega), nonzero, by omega⟩
      rw [outcome_asks asks split first rest, ← method]
      rfl

theorem selects_of_text (auth : cfg.auth = .none) (reachable : Reachable cfg s) (text : RequestText)
    {body : List GetByte} (input : conn.input = sends text.render ++ body) :
    ∃ o, Selects cfg conn s o := by
  have pending : (s.accept cfg conn).reader.pending = sends text.render ++ body := input
  have last := accept_last reachable conn
  obtain ⟨r', run, -⟩ := parseRequest_text auth conn.checkAuth text pending rfl rfl last
  have one : (s.accept cfg conn).request.authenticated = 1 := if_pos auth
  refine ⟨_, .intro run ?_ rfl⟩
  change (s.accept cfg conn).request.authenticated ≠ 0
  rw [one]
  decide

theorem urlCells_query {path query : List UInt8} (noMark : 63 ∉ path) (noMark' : 63 ∉ query) :
    urlCells (path ++ 63 :: query) ++ [0] = path ++ 0 :: (query ++ [0]) := by
  have cells : urlCells (path ++ 63 :: query) = urlCells path ++ 0 :: urlCells query := by
    simp [urlCells]
  rw [cells, urlCells_plain noMark, urlCells_plain noMark', List.append_assoc, List.cons_append]

/-- A request with a query has the outcome of the request without it, unless the path is "/" and
the default page is not found there by its own URL, or a slash at the end is counted. The outcomes
decide what the requests lead to. -/
theorem query_selects_iff {conn' : Connection} {s' : State} {o' : Outcome} {query : List UInt8}
    {text text' : RequestText} {body body' : List GetByte} (target : text.target = path)
    (target' : text'.target = path ++ 63 :: query) (noMark : 63 ∉ path) (noMark' : 63 ∉ query)
    (method : text'.method = text.method) (fits : text'.target.length < cfg.urlBufferSize)
    (reachable : Reachable cfg s) (reachable' : Reachable cfg s') (registry : s'.registry = s.registry)
    (input : conn.input = sends text.render ++ body)
    (input' : conn'.input = sends text'.render ++ body')
    (h : Selects cfg conn s o) (h' : Selects cfg conn' s' o') :
    (o = o' ↔ s.registry.IgnoresQuery cfg text.method path) ∧
      o.Decides cfg conn s ∧ o'.Decides cfg conn' s' := by
  refine ⟨?_, h.decides, h'.decides⟩
  obtain ⟨front, segments, split, first, rest⟩ := slashed_split path
  have nonzero : ∀ b ∈ path, b ≠ 0 := fun b member => (text.target_plain.2 b (target ▸ member)).2
  have fits' : text.target.length < cfg.urlBufferSize := by
    rw [target', List.length_append] at fits
    rw [target]
    omega
  have cells : urlCells text.target ++ [0] = path ++ 0 :: [] := by
    rw [target, urlCells_plain noMark]
  have cells' : urlCells text'.target ++ [0] = path ++ 0 :: (query ++ [0]) := by
    rw [target', urlCells_query noMark noMark']
  rw [selects_path text reachable input fits' cells split first rest nonzero h,
    selects_path text' reachable' input' fits cells' split first rest nonzero h', registry, method]
  exact outcome_iff (by simp) split first rest

def pathRequest : RequestText :=
  { queryRequest with target := ascii "/lamp", target_plain := lamp_plain }

theorem query_selects_lamp : ∃ o,
    Selects (.default .none) (.ofBytes (pathRequest.render ++ [])) restServer o ∧
    Selects (.default .none) (.ofBytes (queryRequest.render ++ [])) restServer o := by
  have input : (Connection.ofBytes (pathRequest.render ++ [])).input =
      sends pathRequest.render ++ sends [] := List.map_append ..
  have input' : (Connection.ofBytes (queryRequest.render ++ [])).input =
      sends queryRequest.render ++ sends [] := List.map_append ..
  have reachable : Reachable (.default .none) restServer := reachable_setUp _ _
  obtain ⟨o, h⟩ := selects_of_text rfl reachable pathRequest input
  obtain ⟨o', h'⟩ := selects_of_text rfl reachable queryRequest input'
  have target : pathRequest.target = ascii "/lamp" := rfl
  have target' : queryRequest.target = ascii "/lamp" ++ 63 :: ascii "on=%31" := rfl
  have fits : queryRequest.target.length < (Config.default .none).urlBufferSize := by decide
  have ignores : restServer.registry.IgnoresQuery (.default .none) pathRequest.method
      (ascii "/lamp") :=
    ⟨fun root => absurd root (by decide), fun slash => absurd slash (by decide)⟩
  have same := (query_selects_iff target target' (by decide) (by decide) rfl fits reachable reachable rfl
    input input' h h').1.mpr ignores
  exact ⟨o, h, same ▸ h'⟩

def slashRequest : RequestText :=
  { queryRequest with target := ascii "/lamp/", target_plain := by decide }

def slashQuery : RequestText :=
  { queryRequest with target := ascii "/lamp/?on=1", target_plain := by decide }

theorem query_adds_level : ∃ o o',
    Selects (.default .none) (.ofBytes (slashRequest.render ++ [])) restServer o ∧
    Selects (.default .none) (.ofBytes (slashQuery.render ++ [])) restServer o' ∧ o ≠ o' := by
  have input : (Connection.ofBytes (slashRequest.render ++ [])).input =
      sends slashRequest.render ++ sends [] := List.map_append ..
  have input' : (Connection.ofBytes (slashQuery.render ++ [])).input =
      sends slashQuery.render ++ sends [] := List.map_append ..
  have reachable : Reachable (.default .none) restServer := reachable_setUp _ _
  obtain ⟨o, h⟩ := selects_of_text rfl reachable slashRequest input
  obtain ⟨o', h'⟩ := selects_of_text rfl reachable slashQuery input'
  have split : ascii "/lamp/" = [] ++ slashed [ascii "lamp", []] := rfl
  have rest : ∀ s ∈ [ascii "lamp", []], 47 ∉ s := by decide
  have fits : slashRequest.target.length < (Config.default .none).urlBufferSize := by decide
  have fits' : slashQuery.target.length < (Config.default .none).urlBufferSize := by decide
  have cells : urlCells slashRequest.target ++ [0] = ascii "/lamp/" ++ 0 :: [] := by decide
  have cells' : urlCells slashQuery.target ++ [0] = ascii "/lamp/" ++ 0 :: (ascii "on=1" ++ [0]) := by
    decide
  refine ⟨o, o', h, h', fun same => ?_⟩
  rw [selects_path slashRequest reachable input fits cells split (by simp) rest (by decide) h,
    selects_path slashQuery reachable input' fits' cells' split (by simp) rest (by decide) h'] at same
  have ignores := (outcome_iff (by decide) split (by simp) rest).mp same
  have found : restServer.registry.lookup (.default .none) (ascii "/lamp/") 0 = none :=
    Option.isNone_iff_eq_none.mp (by decide +kernel)
  have registered := ignores.slash (by decide) (by decide) found (by decide +kernel)
  cases registered

end AttoHTTP
