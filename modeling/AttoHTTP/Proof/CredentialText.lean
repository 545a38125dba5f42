import AttoHTTP.Proof.AuthCalls
import AttoHTTP.Proof.Levels

namespace AttoHTTP
open Library Comp

variable {cfg : Config} {check : CheckAuth}

/-! ## The calls for a rendered request -/

def Header.IsAuthorization (h : Header) : Prop := equalFold h.name (ascii "authorization") = true

instance (h : Header) : Decidable h.IsAuthorization := inferInstanceAs (Decidable (_ = true))

def authorizations (headers : List Header) : List Header :=
  headers.filter fun h => decide h.IsAuthorization

def CallOf (cfg : Config) (h : Header) (call : Option AuthCall) : Prop :=
  ∃ m : Mem, call = schemeCall cfg (m.put (h.value.take (cfg.headerValueSize - 1) ++ [0]))

theorem namesAuthorization_text (h : Header) (name : Mem) :
    namesAuthorization cfg (name.put (h.name.take (cfg.headerNameSize - 1) ++ [0])) =
      decide h.IsAuthorization := by
  have told : namesAuthorization cfg (name.put (h.name.take (cfg.headerNameSize - 1) ++ [0])) =
      equalFold h.name (ascii "authorization") := headerName_text h name (by decide) (by decide)
  rw [told, Bool.eq_iff_iff, decide_eq_true_eq]
  rfl

theorem headerCalls_text (auth : cfg.auth ≠ .none) {headers : List Header} {l : HeaderLoop}
    {body : List GetByte} (ahead : l.Ahead headers body) :
    ∃ calls, HeaderCalls cfg check l calls ∧
      List.Forall₂ (CallOf cfg) (authorizations headers) calls := by
  induction headers generalizing l with
  | nil => exact ⟨[], .done ahead.stop, .nil⟩
  | cons h headers ih =>
      obtain ⟨l', header, name, value, -, next⟩ := parseHeader_text cfg ahead
      obtain ⟨calls, made, each⟩ := ih (next.record check)
      refine ⟨_, .next ahead.again header made, ?_⟩
      have told : namesAuthorization cfg l'.name = decide h.IsAuthorization := by
        rw [name]
        exact namesAuthorization_text h l.name
      rw [authCalls, told]
      by_cases authorization : h.IsAuthorization
      · rw [if_pos ⟨auth, decide_eq_true authorization⟩, authorizations,
          List.filter_cons_of_pos (by exact decide_eq_true authorization), value,
          kept_own authorization (by decide)]
        exact .cons ⟨l.value, rfl⟩ each
      · rw [if_neg (by simp [authorization]), authorizations,
          List.filter_cons_of_neg (by simpa using authorization)]
        exact each

theorem checks_text {conn : Connection} {s : State} (auth : cfg.auth ≠ .none)
    (reachable : Reachable cfg s) (text : RequestText) {body : List GetByte}
    (input : conn.input = sends text.render ++ body) :
    ∃ calls, Checks cfg conn s calls ∧
      List.Forall₂ (CallOf cfg) (authorizations text.headers) calls := by
  have pending : (s.accept cfg conn).reader.pending = sends text.render ++ body := input
  have last := accept_last reachable conn
  obtain ⟨r, line, empty, more⟩ := parseRequestLine_text text pending rfl last
  have done := text.firstLine_done cfg (q := (s.accept cfg conn).request) rfl
  obtain ⟨calls, headers, each⟩ := headerCalls_text auth
    (l := ⟨1, r.frame, r.enter.frame, r.enter.enter, _⟩) ⟨rfl, done, empty, more⟩
  exact ⟨calls, .headers line (text.firstLine_returnCode cfg _) headers, each⟩

/-! ## Whole credentials -/

/-- In the value, the first name of a scheme is this one, with a space behind it. -/
structure SchemeAt (t : AuthType) (before rest value : List UInt8) : Prop where
  text : value = before ++ (t.name ++ 32 :: rest)
  first : ∀ t' ∈ authTypes, ∀ i, strstr value t'.name = some i → before.length ≤ i

/-- The checker is given all that comes after the name of the scheme and one space, in the buffer. -/
def AuthCall.Whole (cfg : Config) (c : AuthCall) (value : List UInt8) : Prop :=
  ∃ before rest, SchemeAt c.type before rest value ∧ c.start < cfg.headerValueSize ∧
    IsString c.cred rest

/-- The value fits its buffer, unless it has no scheme there, and the scheme has a space behind it. -/
def CredentialsFit (cfg : Config) (value : List UInt8) : Prop :=
  ∀ t, scheme (value.take (cfg.headerValueSize - 1)) = some t →
    value.length < cfg.headerValueSize ∧ ∃ before rest, SchemeAt t before rest value

theorem SchemeAt.found {t : AuthType} {before rest value : List UInt8}
    (h : SchemeAt t before rest value) : strstr value t.name = some before.length := by
  obtain ⟨i, le, found⟩ := @strstr_le before (32 :: rest) t.name
  rw [← h.text] at found
  have ge := h.first t (by cases t <;> decide) i found
  rw [found, Nat.le_antisymm le ge]

theorem schemeCall_kept {m : Mem} {kept : List UInt8} {t : AuthType} {i : Nat}
    (nonzero : ∀ b ∈ kept, b ≠ 0) (short : kept.length < cfg.headerValueSize)
    (found : scheme kept = some t) (place : strstr kept t.name = some i) :
    schemeCall cfg (m.put (kept ++ [0])) =
      some ⟨t, m.put (kept ++ [0]), i + t.name.length + 1⟩ := by
  rw [schemeCall, Mem.cstr_put m nonzero, List.take_of_length_le short.le, found, Option.map_some,
    place]
  rfl

theorem scheme_place {text : List UInt8} {t : AuthType} (found : scheme text = some t) :
    ∃ i, strstr text t.name = some i :=
  Option.isSome_iff_exists.mp
    (@List.find?_some _ (fun t : AuthType => (strstr text t.name).isSome) _ _ found)

theorem isString_short {m : Mem} {text : List UInt8} {k : Nat} (h : IsString m text)
    (zero : m k = 0) (nonzero : ∀ b ∈ text, b ≠ 0) : text.length ≤ k := by
  by_contra inside
  have less : k < text.length := Nat.lt_of_not_le inside
  have size : k < (m.bytes (text.length + 1)).length := by
    rw [Mem.length_bytes]
    omega
  have cell := List.getElem_of_eq h size
  rw [List.getElem_append_left less] at cell
  simp only [Mem.bytes, List.getElem_map, List.getElem_range] at cell
  exact nonzero _ (List.getElem_mem less) (cell.symm.trans zero)

theorem schemeCall_whole {m : Mem} {value : List UInt8} (nonzero : ∀ b ∈ value, b ≠ 0) :
    (∀ c, schemeCall cfg (m.put (value.take (cfg.headerValueSize - 1) ++ [0])) = some c →
      c.Whole cfg value) ↔ CredentialsFit cfg value := by
  have room := cfg.value_ge
  have kept : ∀ b ∈ value.take (cfg.headerValueSize - 1), b ≠ 0 :=
    fun b member => nonzero b (List.mem_of_mem_take member)
  have short : (value.take (cfg.headerValueSize - 1)).length < cfg.headerValueSize := by
    rw [List.length_take]
    omega
  constructor
  · intro whole t found
    obtain ⟨i, place⟩ := scheme_place found
    obtain ⟨before, rest, at_, inside, string⟩ := whole _ (schemeCall_kept kept short found place)
    refine ⟨?_, before, rest, at_⟩
    have first := strstr_append place (value.drop (cfg.headerValueSize - 1))
    rw [List.take_append_drop, at_.found] at first
    cases first
    by_contra long
    -- The value is cut, so a terminator stands in the middle of the credentials.
    have size : (value.take (cfg.headerValueSize - 1)).length = cfg.headerValueSize - 1 := by
      rw [List.length_take]
      omega
    have length := congrArg List.length at_.text
    simp only [List.length_append, List.length_cons] at length
    dsimp only at inside
    have cell : AuthCall.cred ⟨t, m.put (value.take (cfg.headerValueSize - 1) ++ [0]),
        before.length + t.name.length + 1⟩
          (cfg.headerValueSize - 1 - (before.length + t.name.length + 1)) = 0 := by
      rw [AuthCall.cred, Mem.skip_apply]
      dsimp only
      rw [Nat.add_sub_of_le (by omega), Mem.put_of_lt _ (by simp [size]),
        List.getElem_append_right (by omega)]
      simp [size]
    have ends := isString_short string cell fun b member => nonzero b (by
      rw [at_.text]
      simp [member])
    omega
  · intro fit c call
    rw [schemeCall, Mem.cstr_put m kept, List.take_of_length_le short.le] at call
    obtain ⟨t, found, rfl⟩ := Option.map_eq_some_iff.mp call
    obtain ⟨fits, before, rest, at_⟩ := fit t found
    have all : value.take (cfg.headerValueSize - 1) = value := List.take_of_length_le (by omega)
    have length := congrArg List.length at_.text
    simp only [List.length_append, List.length_cons] at length
    refine ⟨before, rest, at_, ?_, ?_⟩
    · rw [all, at_.found, Option.getD_some]
      dsimp only
      omega
    · rw [all, at_.found, Option.getD_some, AuthCall.cred]
      have string := isString_put m (before ++ (t.name ++ [32])) rest []
      have text : before ++ (t.name ++ [32]) ++ (rest ++ [0]) = value ++ [0] := by
        rw [at_.text]
        simp
      rw [text] at string
      simpa [Nat.add_assoc] using string

theorem callsOf_whole {headers : List Header} {calls : List (Option AuthCall)}
    (each : List.Forall₂ (CallOf cfg) headers calls) :
    (∀ (k : Nat) h c, headers[k]? = some h → calls[k]? = some (some c) → c.Whole cfg h.value) ↔
      ∀ h ∈ headers, CredentialsFit cfg h.value := by
  have nonzero (h : Header) : ∀ b ∈ h.value, b ≠ 0 := fun b member => (h.value_plain b member).2.2
  constructor
  · intro whole h member
    obtain ⟨k, inside, rfl⟩ := List.getElem_of_mem member
    have same := each.length_eq
    obtain ⟨m, call⟩ := each.get inside (same ▸ inside)
    apply (schemeCall_whole (m := m) (nonzero _)).mp
    intro c made
    refine whole k _ c (List.getElem?_eq_getElem inside) ?_
    rw [List.getElem?_eq_getElem (same ▸ inside)]
    exact congrArg some (call.trans made)
  · intro fit k h c found made
    obtain ⟨inside, rfl⟩ := List.getElem?_eq_some_iff.mp found
    obtain ⟨inside', same⟩ := List.getElem?_eq_some_iff.mp made
    obtain ⟨m, call⟩ := each.get inside inside'
    exact (schemeCall_whole (nonzero _)).mpr (fit _ (List.getElem_mem inside)) c
      (call.symm.trans same)

def oldHeader : Header where
  name := ascii "X-Old"
  blanks := [32]
  value := ascii "123456bWU6bWU="
  name_plain := by decide
  name_start := fun _ h => by cases h; decide
  blanks_blank := space_blanks
  value_plain := by decide
  value_start := fun _ h => by cases h; decide

def authHeader : Header where
  name := ascii "Authorization"
  blanks := [32]
  value := ascii "Basic bWU6bWU="
  name_plain := by decide
  name_start := fun _ h => by cases h; decide
  blanks_blank := space_blanks
  value_plain := by decide
  value_start := fun _ h => by cases h; decide

def bareHeader : Header :=
  { authHeader with
    value := ascii "Basic"
    value_plain := by decide
    value_start := fun _ h => by cases h; decide }

theorem authHeader_fits : CredentialsFit (.default .basic) authHeader.value := by
  intro t found
  obtain rfl : AuthType.basic = t := by
    have first : scheme (authHeader.value.take 63) = some .basic := by decide +kernel
    exact Option.some.inj (first.symm.trans found)
  refine ⟨by decide, [], ascii "bWU6bWU=", rfl, fun t member i _ => Nat.zero_le i⟩

theorem bareHeader_short : ¬ CredentialsFit (.default .basic) bareHeader.value := by
  intro fit
  have first : scheme (bareHeader.value.take 63) = some .basic := by decide +kernel
  obtain ⟨-, before, rest, at_⟩ := fit .basic first
  have length := congrArg List.length at_.text
  rw [List.length_append, List.length_append, List.length_cons] at length
  change 5 = before.length + (5 + (rest.length + 1)) at length
  omega

def authServer : State := State.boot.setUp (.default .basic) []

def authRequest : RequestText := { queryRequest with headers := [oldHeader, authHeader] }

def bareRequest : RequestText := { queryRequest with headers := [oldHeader, bareHeader] }

end AttoHTTP
