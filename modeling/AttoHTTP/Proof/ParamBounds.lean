import AttoHTTP.Model.Server
import AttoHTTP.Proof.Delivery
import AttoHTTP.Proof.Leftovers

/-!
# Where a parameter is stored

The characters of a parameter fit their buffers; the terminators after them do when the buffers are
not full.
-/

namespace AttoHTTP
open Library Comp

variable {cfg : Config} {nameLen valueLen : UInt8}

inductive ReadsKind (cfg : Config) (r : Reader) (q : Request) : ParamKind → Reader → Request → Prop
  | intro {b b' : ParamReader} {token : ParamToken} (reader : r.Same b.reader)
      (request : b.request = q) (read : Tokens cfg b token b') :
      ReadsKind cfg r q token.kind b'.reader b'.request

/-- The rest of a parameter, after `n` characters of its name and `k` of its value; `divided` when
its equals sign has been read. The sizes are those of the whole parameter. -/
inductive Parameter (cfg : Config) : Bool → Nat → Nat → Reader → Request → Nat → Nat → Prop
  | stop {divided : Bool} {n k : Nat} {r r' : Reader} {q q' : Request}
      (read : ReadsKind cfg r q .stop r' q') : Parameter cfg divided n k r q n k
  | separate {divided : Bool} {n k : Nat} {r r' : Reader} {q q' : Request}
      (read : ReadsKind cfg r q .separate r' q') (named : n ≠ 0) : Parameter cfg divided n k r q n k
  | skip {divided : Bool} {k : Nat} {r r' : Reader} {q q' : Request} {n' k' : Nat}
      (read : ReadsKind cfg r q .separate r' q') (rest : Parameter cfg divided 0 k r' q' n' k') :
      Parameter cfg divided 0 k r q n' k'
  | divide {divided : Bool} {n k : Nat} {r r' : Reader} {q q' : Request} {n' k' : Nat}
      (read : ReadsKind cfg r q .divide r' q') (rest : Parameter cfg true n k r' q' n' k') :
      Parameter cfg divided n k r q n' k'
  | name {n k : Nat} {r r' : Reader} {q q' : Request} {n' k' : Nat}
      (read : ReadsKind cfg r q .char r' q') (rest : Parameter cfg false (n + 1) k r' q' n' k') :
      Parameter cfg false n k r q n' k'
  | value {n k : Nat} {r r' : Reader} {q q' : Request} {n' k' : Nat}
      (read : ReadsKind cfg r q .char r' q') (rest : Parameter cfg true n (k + 1) r' q' n' k') :
      Parameter cfg true n k r q n' k'

theorem Parameter.le {divided : Bool} {n k n' k' : Nat} {r : Reader} {q : Request}
    (h : Parameter cfg divided n k r q n' k') : n ≤ n' ∧ k ≤ k' := by
  induction h with
  | stop read => exact ⟨le_rfl, le_rfl⟩
  | separate read named => exact ⟨le_rfl, le_rfl⟩
  | skip read rest ih => exact ih
  | divide read rest ih => exact ih
  | name read rest ih => exact ⟨(Nat.le_succ _).trans ih.1, ih.2⟩
  | value read rest ih => exact ⟨ih.1, (Nat.le_succ _).trans ih.2⟩

structure ParamView.Counts (nameLen valueLen : UInt8) (divided : Bool) (n k : Nat) (v : ParamView) :
    Prop where
  name : v.name.length = n
  value : v.value.length = k
  nameLen : if divided then v.nameLen = 0 else v.nameLen.toNat + n = nameLen.toNat
  valueLen : v.valueLen.toNat + k = valueLen.toNat

theorem ParamView.Counts.divide {divided : Bool} {n k : Nat} {v : ParamView}
    (h : v.Counts nameLen valueLen divided n k) :
    ParamView.Counts nameLen valueLen true n k { v with nameLen := 0 } :=
  ⟨h.name, h.value, rfl, h.valueLen⟩

theorem ParamView.Counts.storeName {n k : Nat} {v : ParamView}
    (h : v.Counts nameLen valueLen false n k) (room : n < nameLen.toNat) (c : UInt8) :
    (v.store c).Counts nameLen valueLen false (n + 1) k := by
  have count : v.nameLen.toNat + n = nameLen.toNat := h.nameLen
  have positive : 0 < v.nameLen := UInt8.lt_iff_toNat_lt.mpr (by simp; omega)
  have one := sub_one_toNat (UInt8.pos_iff_ne_zero.mp positive)
  rw [ParamView.store, if_pos positive]
  refine ⟨by simp [h.name], h.value, ?_, h.valueLen⟩
  change (v.nameLen - 1).toNat + (n + 1) = nameLen.toNat
  omega

theorem ParamView.Counts.storeValue {divided : Bool} {n k : Nat} {v : ParamView}
    (h : v.Counts nameLen valueLen divided n k) (named : v.nameLen = 0) (room : k < valueLen.toNat)
    (c : UInt8) : (v.store c).Counts nameLen valueLen divided n (k + 1) := by
  have count := h.valueLen
  have nonzero : v.valueLen ≠ 0 := by
    intro zero
    rw [zero, UInt8.toNat_zero] at count
    omega
  have one := sub_one_toNat nonzero
  rw [ParamView.store, if_neg (by simp [named])]
  refine ⟨h.name, by simp [h.value], h.nameLen, ?_⟩
  change (v.valueLen - 1).toNat + (k + 1) = valueLen.toNat
  omega

theorem ParamView.Counts.positive {divided : Bool} {n k : Nat} {v : ParamView}
    (h : v.Counts nameLen valueLen divided n k) : 0 < v.valueLen ↔ k < valueLen.toNat := by
  have count := h.valueLen
  rw [UInt8.lt_iff_toNat_lt, UInt8.toNat_zero]
  omega

theorem ReadsKind.tokens {r r' : Reader} {q q' : Request} {kind : ParamKind}
    (h : ReadsKind cfg r q kind r' q') {b : ParamReader} (reader : r.Same b.reader)
    (request : b.request = q) (final : b.reader.atEnd.ret ≤ 0) :
    ∃ token b', Tokens cfg b token b' ∧ token.kind = kind ∧ r'.Same b'.reader ∧ b'.request = q' ∧
      b'.reader.atEnd.ret ≤ 0 := by
  cases h with
  | @intro b₀ b₀' token reader₀ request₀ read =>
      have same : b₀.Same b := ⟨reader₀.symm.trans reader, request.trans request₀.symm⟩
      obtain ⟨token', b', read', kind, same', -⟩ := read.same same
      obtain ⟨token₁, b₁, read₁, final₁⟩ := tokens_total cfg b final
      obtain ⟨rfl, rfl⟩ := read'.unique read₁
      exact ⟨_, _, read', kind, same'.reader, same'.request, final₁⟩

def LoopEnds (cfg : Config) (v : ParamView) (b : ParamReader) (w : ParamView) : Prop :=
  ∃ b', ∀ name value, (doWhileM (urlParamBody cfg) (v.loop name value b)).Returns
    (w.loop name value b')

theorem Tokens.ends {b b' : ParamReader} {token : ParamToken} (read : Tokens cfg b token b')
    {v : ParamView} (stop : (v.take token).2 = false) : LoopEnds cfg v b (v.take token).1 :=
  ⟨b', fun name value => doWhileM_returns.mpr ⟨_, read.body v name value, by simp [stop]⟩⟩

theorem Tokens.goes {b b' : ParamReader} {token : ParamToken} (read : Tokens cfg b token b')
    {v w : ParamView} (more : (v.take token).2 = true) (rest : LoopEnds cfg (v.take token).1 b' w) :
    LoopEnds cfg v b w := by
  obtain ⟨u, run⟩ := rest
  exact ⟨u, fun name value => doWhileM_returns.mpr ⟨_, read.body v name value, by
    rw [if_pos more]; exact run name value⟩⟩

theorem ParamToken.kind_char {token : ParamToken} (h : token.kind = .char) :
    ∃ c, token = .char c := by
  cases token with
  | char c => exact ⟨c, rfl⟩
  | _ => cases h

theorem Parameter.loop {divided : Bool} {n k n' k' : Nat} {r : Reader} {q : Request}
    (h : Parameter cfg divided n k r q n' k') (room : n' < nameLen.toNat)
    (room' : k' < valueLen.toNat) {v : ParamView} (counts : v.Counts nameLen valueLen divided n k)
    {b : ParamReader} (reader : r.Same b.reader) (request : b.request = q)
    (final : b.reader.atEnd.ret ≤ 0) :
    ∃ w, LoopEnds cfg v b w ∧ w.name.length = n' ∧ w.value.length = k' := by
  induction h generalizing v b with
  | stop read =>
      obtain ⟨token, b', tokens, kind, -⟩ := read.tokens reader request final
      cases token with
      | stop => exact ⟨v, tokens.ends rfl, counts.name, counts.value⟩
      | _ => cases kind
  | separate read named =>
      obtain ⟨token, b', tokens, kind, -⟩ := read.tokens reader request final
      cases token with
      | separate =>
          have some : v.name ≠ [] := by
            intro none
            rw [← counts.name, none] at named
            exact named rfl
          exact ⟨v, tokens.ends (by simp [ParamView.take, some]), counts.name, counts.value⟩
      | _ => cases kind
  | skip read rest ih =>
      obtain ⟨token, b', tokens, kind, reader', request', final'⟩ := read.tokens reader request final
      have positive := counts.positive.mpr (rest.le.2.trans_lt room')
      cases token with
      | separate =>
          have none : v.name = [] := List.length_eq_zero_iff.mp counts.name
          obtain ⟨w, ends, done⟩ := ih room room' counts reader' request' final'
          exact ⟨w, tokens.goes (by simp [ParamView.take, none, positive]) ends, done⟩
      | _ => cases kind
  | divide read rest ih =>
      obtain ⟨token, b', tokens, kind, reader', request', final'⟩ := read.tokens reader request final
      have positive := counts.positive.mpr (rest.le.2.trans_lt room')
      cases token with
      | divide =>
          obtain ⟨w, ends, done⟩ := ih room room' counts.divide reader' request' final'
          exact ⟨w, tokens.goes (by simp [ParamView.take, positive]) ends, done⟩
      | _ => cases kind
  | name read rest ih =>
      obtain ⟨token, b', tokens, kind, reader', request', final'⟩ := read.tokens reader request final
      obtain ⟨c, rfl⟩ := ParamToken.kind_char kind
      have next := counts.storeName (by have := rest.le.1; omega) c
      have positive := next.positive.mpr (rest.le.2.trans_lt room')
      obtain ⟨w, ends, done⟩ := ih room room' next reader' request' final'
      exact ⟨w, tokens.goes (decide_eq_true positive) ends, done⟩
  | value read rest ih =>
      obtain ⟨token, b', tokens, kind, reader', request', final'⟩ := read.tokens reader request final
      obtain ⟨c, rfl⟩ := ParamToken.kind_char kind
      have next := counts.storeValue counts.nameLen (by have := rest.le.2; omega) c
      have positive := next.positive.mpr (rest.le.2.trans_lt room')
      obtain ⟨w, ends, done⟩ := ih room room' next reader' request' final'
      exact ⟨w, tokens.goes (decide_eq_true positive) ends, done⟩

def Stored (cfg : Config) (nameLen valueLen : UInt8) (divided : Bool) (n k : Nat) (r : Reader)
    (q : Request) (w : ParamView) : Prop :=
  n ≤ w.name.length ∧ k ≤ w.value.length ∧ (w.name.length < nameLen.toNat →
    w.value.length < valueLen.toNat → Parameter cfg divided n k r q w.name.length w.value.length)

theorem stored_token {divided : Bool} {n k : Nat} {v : ParamView}
    (counts : v.Counts nameLen valueLen divided n k) (room : k < valueLen.toNat)
    {b b' : ParamReader} {token : ParamToken} (read : Tokens cfg b token b') {r : Reader}
    (reader : r.Same b.reader) (more : (v.take token).2 = true) :
    ∃ divided' n' k', (v.take token).1.Counts nameLen valueLen divided' n' k' ∧
      k' < valueLen.toNat ∧ ∀ w, Stored cfg nameLen valueLen divided' n' k' b'.reader b'.request w →
        Stored cfg nameLen valueLen divided n k r b.request w := by
  have kind := ReadsKind.intro reader rfl read
  cases token with
  | stop => cases more
  | divide =>
      refine ⟨true, n, k, counts.divide, room, fun w stored => ⟨stored.1, stored.2.1, ?_⟩⟩
      exact fun less less' => .divide kind (stored.2.2 less less')
  | separate =>
      have none : n = 0 := by
        have empty : v.name = [] := by
          simp only [ParamView.take, Bool.and_eq_true, decide_eq_true_eq] at more
          exact more.1
        rw [← counts.name, empty]
        rfl
      subst none
      refine ⟨divided, 0, k, counts, room, fun w stored => ⟨stored.1, stored.2.1, ?_⟩⟩
      exact fun less less' => .skip kind (stored.2.2 less less')
  | char c =>
      have again : 0 < (v.store c).valueLen := of_decide_eq_true more
      by_cases named : v.nameLen = 0
      · have next := counts.storeValue named room c
        refine ⟨divided, n, k + 1, next, next.positive.mp again, fun w stored => ?_⟩
        refine ⟨stored.1, (Nat.le_succ k).trans stored.2.1, fun less less' => ?_⟩
        cases divided with
        | true => exact .value kind (stored.2.2 less less')
        | false =>
            -- The name is full, and its terminator has no room.
            have full : v.nameLen.toNat + n = nameLen.toNat := counts.nameLen
            rw [named, UInt8.toNat_zero] at full
            have := stored.1
            omega
      · cases divided with
        | true => exact absurd counts.nameLen named
        | false =>
            have count : v.nameLen.toNat + n = nameLen.toNat := counts.nameLen
            have positive := UInt8.lt_iff_toNat_lt.mp (UInt8.pos_iff_ne_zero.mpr named)
            rw [UInt8.toNat_zero] at positive
            have next := counts.storeName (by omega) c
            refine ⟨false, n + 1, k, next, room, fun w stored => ?_⟩
            refine ⟨(Nat.le_succ n).trans stored.1, stored.2.1, fun less less' => ?_⟩
            exact .name kind (stored.2.2 less less')

theorem stored_last {divided : Bool} {n k : Nat} {v : ParamView}
    (counts : v.Counts nameLen valueLen divided n k) (room : k < valueLen.toNat)
    {b b' : ParamReader} {token : ParamToken} (read : Tokens cfg b token b') {r : Reader}
    (reader : r.Same b.reader) (stop : (v.take token).2 = false) :
    Stored cfg nameLen valueLen divided n k r b.request (v.take token).1 := by
  have kind := ReadsKind.intro reader rfl read
  have positive := counts.positive.mpr room
  cases token with
  | stop =>
      rw [ParamView.take]
      refine ⟨counts.name.ge, counts.value.ge, fun _ _ => ?_⟩
      rw [counts.name, counts.value]
      exact .stop kind
  | divide => exact absurd stop (by simp [ParamView.take, positive])
  | separate =>
      have some : v.name ≠ [] := by
        intro none
        simp [ParamView.take, none, positive] at stop
      rw [ParamView.take]
      refine ⟨counts.name.ge, counts.value.ge, fun _ _ => ?_⟩
      rw [counts.name, counts.value]
      refine .separate kind ?_
      rw [← counts.name]
      exact List.length_pos_iff.mpr some |>.ne'
  | char c =>
      have past : ¬ 0 < (v.store c).valueLen := of_decide_eq_false stop
      by_cases named : v.nameLen = 0
      · have next := counts.storeValue named room c
        have full := mt next.positive.mpr past
        change Stored cfg nameLen valueLen divided n k r b.request (v.store c)
        refine ⟨next.name.ge, (Nat.le_succ k).trans next.value.ge, fun _ less' => ?_⟩
        rw [next.value] at less'
        exact absurd less' full
      · have same : (v.store c).valueLen = v.valueLen := by
          rw [ParamView.store, if_pos (UInt8.pos_iff_ne_zero.mpr named)]
        rw [same] at past
        exact absurd positive past

theorem loop_stored {s t : UrlParamLoop} (h : (doWhileM (urlParamBody cfg) s).Returns t)
    {v : ParamView} {name value : Mem} {b : ParamReader} (start : s = v.loop name value b)
    {divided : Bool} {n k : Nat} (counts : v.Counts nameLen valueLen divided n k)
    (room : k < valueLen.toNat) {r : Reader} (reader : r.Same b.reader)
    (final : b.reader.atEnd.ret ≤ 0) :
    ∃ w b', t = w.loop name value b' ∧
      Stored cfg nameLen valueLen divided n k r b.request w := by
  refine doWhileM_induction (motive := fun s t => ∀ v b divided n k r, s = ParamView.loop v name value b →
    v.Counts nameLen valueLen divided n k → k < valueLen.toNat → r.Same b.reader →
    b.reader.atEnd.ret ≤ 0 → ∃ w b', t = ParamView.loop w name value b' ∧
      Stored cfg nameLen valueLen divided n k r b.request w) ?_ ?_ h v b divided n k r start counts room
    reader final
  · rintro s p body stop v b divided n k r rfl counts room reader final
    obtain ⟨token, b', read, -⟩ := tokens_total cfg b final
    obtain rfl := body.unique (read.body v name value)
    exact ⟨_, b', rfl, stored_last counts room read reader stop⟩
  · rintro s p t body more ih v b divided n k r rfl counts room reader final
    obtain ⟨token, b', read, final'⟩ := tokens_total cfg b final
    obtain rfl := body.unique (read.body v name value)
    obtain ⟨divided', n', k', counts', room', add⟩ := stored_token counts room read reader more
    obtain ⟨w, b'', last, stored⟩ := ih _ b' divided' n' k' b'.reader rfl counts' room' (.refl _) final'
    exact ⟨w, b'', last, add w stored⟩

/-- A call stays inside its buffers exactly when the name and the value that start here leave room
for their terminators. -/
theorem parseURLParam_inside_iff (cfg : Config) {nameLen valueLen : UInt8} (valued : 0 < valueLen)
    {r : Reader} (q : Request) (final : r.atEnd.ret ≤ 0) :
    (∀ name value p, (parseURLParam cfg name nameLen value valueLen r q).Returns p →
      (∀ i, nameLen.toNat ≤ i → p.name i = name i) ∧
      ∀ i, valueLen.toNat ≤ i → p.value i = value i) ↔
    ∃ n k, Parameter cfg false 0 0 r q n k ∧ n < nameLen.toNat ∧ k < valueLen.toNat := by
  have counts : ParamView.Counts nameLen valueLen false 0 0 ⟨[], nameLen, [], valueLen⟩ :=
    ⟨rfl, rfl, rfl, rfl⟩
  have room : 0 < valueLen.toNat := UInt8.lt_iff_toNat_lt.mp valued
  have same : r.Same r.enter := ⟨rfl, rfl, rfl⟩
  constructor
  · intro inside
    obtain ⟨p, call⟩ := parseURLParam_total cfg (fun _ => 1) nameLen (fun _ => 1) valueLen q final
    obtain ⟨cells, cells'⟩ := inside _ _ p call
    obtain ⟨t, loop, call⟩ := returns_bind.mp call
    obtain ⟨w, b', rfl, stored⟩ := loop_stored (b := ⟨0, r.frame 0, r.frame.skip 1, r.enter, q⟩) loop
      rfl counts room same final
    rw [returns_pure.mp call] at cells cells'
    have less : w.name.length < nameLen.toNat := by
      by_contra full
      have zero : (0 : UInt8) = 1 := by simpa [ParamView.loop] using cells w.name.length (by omega)
      exact absurd zero (by decide)
    have less' : w.value.length < valueLen.toNat := by
      by_contra full
      have zero : (0 : UInt8) = 1 := by simpa [ParamView.loop] using cells' w.value.length (by omega)
      exact absurd zero (by decide)
    exact ⟨w.name.length, w.value.length, stored.2.2 less less', less, less'⟩
  · rintro ⟨n, k, parameter, less, less'⟩ name value p call
    obtain ⟨w, ⟨b', loop⟩, length, length'⟩ := parameter.loop less less' counts
      (b := ⟨0, r.frame 0, r.frame.skip 1, r.enter, q⟩) same rfl final
    obtain ⟨t, run, call⟩ := returns_bind.mp call
    rw [returns_pure.mp call, run.unique (loop name value)]
    constructor
    · intro i beyond
      change ((name.put w.name).set w.name.length 0) i = name i
      rw [Mem.put_set, Mem.put_of_le _ (by simp; omega)]
    · intro i beyond
      change ((value.put w.value).set w.value.length 0) i = value i
      rw [Mem.put_set, Mem.put_of_le _ (by simp; omega)]

def formReader : Reader := ⟨sends (ascii "ab=1"), .zero, some 10, fun _ _ => 0⟩

def formState : Request := { State.boot.request with method := .post }

theorem parseURLParam_inside_form :
    (∀ name value p, (parseURLParam (.default .none) name 2 value 8 formReader formState).Returns p →
      (∀ i, (2 : UInt8).toNat ≤ i → p.name i = name i) ∧
      ∀ i, (8 : UInt8).toNat ≤ i → p.value i = value i) ↔
    ∃ n k, Parameter (.default .none) false 0 0 formReader formState n k ∧ n < (2 : UInt8).toNat ∧
      k < (8 : UInt8).toNat :=
  parseURLParam_inside_iff (.default .none) (by decide) formState (by decide)

theorem parseURLParam_overrun : ∃ p : UrlParam,
    (parseURLParam (.default .none) (fun _ => 1) 2 (fun _ => 1) 8 formReader formState).Returns p ∧
      p.name 2 ≠ 1 := by
  obtain ⟨p, run, cell⟩ := returns_of_run (n := 10)
    (x := parseURLParam (.default .none) (fun _ => 1) 2 (fun _ => 1) 8 formReader formState)
    (f := fun p => p.name 2) (b := 0) (by decide +kernel)
  refine ⟨p, run, ?_⟩
  rw [cell]
  decide

end AttoHTTP
