import Mathlib.Data.List.GetD
import AttoHTTP.Proof.AuthCalls
import AttoHTTP.Proof.Rendering
import AttoHTTP.Proof.SentLines

/-!
# The credentials in a text that may break off

The checker is called with what the text offers. Credentials that start in a cell no value has been
stored in are whatever the memory of the value buffer held.
-/

namespace AttoHTTP
open Library Comp

/-- The scheme and the credentials, if they start where a value has been stored. -/
structure Offer where
  type : AuthType
  text : Option (List UInt8)
deriving DecidableEq

def StoredLine.isAuthorization (line : StoredLine) : Bool :=
  equalFold (line.name.takeWhile (· ≠ 0)) (ascii "authorization")

/-- What is offered by a value buffer in which these cells have been stored so far. -/
def offerOf (cfg : Config) (stored : List UInt8) : Option Offer :=
  let value := (stored.takeWhile (· ≠ 0)).take cfg.headerValueSize
  (scheme value).map fun t =>
    let start := (strstr value t.name).getD 0 + t.name.length + 1
    ⟨t, if start < stored.length then some ((stored.drop start).takeWhile (· ≠ 0)) else none⟩

def storeOver (stored value : List UInt8) : List UInt8 :=
  value ++ [0] ++ stored.drop (value.length + 1)

def offers (cfg : Config) : List UInt8 → List StoredLine → List (Option Offer)
  | _, [] => []
  | stored, line :: lines =>
      (if line.isAuthorization then [offerOf cfg (storeOver stored line.value)] else []) ++
        offers cfg (storeOver stored line.value) lines

def storedLines (cfg : Config) : Nat → List UInt8 → List StoredLine
  | 0, _ => []
  | n + 1, text =>
      storedLine cfg text ::
        ((afterLine (valueRest cfg text)).map (storedLines cfg n)).getD []

/-- What a request offers, by whether a newline is pushed back behind its version. -/
def requestOffers (cfg : Config) (pushed : Bool) (text : List UInt8) : List (Option Offer) :=
  match requestMethod text with
  | none => []
  | some (_, rest) =>
      match headText pushed (targetRest rest) with
      | none => []
      | some head => offers cfg [] (storedLines cfg (head.length + 1) head)

/-- The call is made for this offer, in a value buffer that held `base` at first. -/
def Offer.Is (base : Mem) (o : Offer) (c : AuthCall) : Prop :=
  c.type = o.type ∧ match o.text with
    | some text => (∀ b ∈ text, b ≠ 0) ∧ ∀ n, c.cred.cstr n = text.take n
    | none => ∃ start, c.cred = base.skip start

/-! ## The value buffer -/

theorem put_storeOver (base : Mem) (stored value : List UInt8) :
    (base.put stored).put (value ++ [0]) = base.put (storeOver stored value) := by
  have size : (value ++ [0]).length = value.length + 1 := by simp
  funext i
  rcases Nat.lt_or_ge i (value.length + 1) with inside | beyond
  · have here : i < (value ++ [0]).length := by omega
    unfold Mem.put storeOver
    rw [List.getD_append _ _ _ _ here, List.getD_eq_getElem _ _ here, List.getD_eq_getElem _ _ here]
  · rw [Mem.put_of_le _ (by omega)]
    unfold Mem.put storeOver
    rw [List.getD_eq_getElem?_getD, List.getD_eq_getElem?_getD, List.getElem?_append_right (by omega),
      List.getElem?_drop, size, show value.length + 1 + (i - (value.length + 1)) = i by omega]

theorem storeOver_ends {stored : List UInt8} (ends : ∀ b ∈ stored.getLast?, b = 0)
    (value : List UInt8) : (storeOver stored value).getLast? = some 0 := by
  unfold storeOver
  cases rest : stored.drop (value.length + 1) with
  | nil => simp
  | cons b tail =>
      have inside : value.length + 1 < stored.length := by
        have := congrArg List.length rest
        rw [List.length_drop, List.length_cons] at this
        omega
      have last : (b :: tail).getLast? = stored.getLast? := by
        rw [← rest, List.getLast?_drop, if_neg (by omega)]
      rw [List.getLast?_append, last]
      cases found : stored.getLast? with
      | none => rw [List.getLast?_eq_none_iff.mp found] at inside; cases inside
      | some c => rw [ends c found]; rfl

theorem cstr_stored (base : Mem) {stored : List UInt8} (ends : stored.getLast? = some 0) (n : Nat) :
    (base.put stored).cstr n = (stored.takeWhile (· ≠ 0)).take n := by
  obtain ⟨front, rfl⟩ := List.getLast?_eq_some_iff.mp ends
  rw [Mem.cstr_put_prefix, takeWhile_terminated]

theorem skip_stored (base : Mem) {stored : List UInt8} {start : Nat} (inside : start ≤ stored.length) :
    (base.put stored).skip start = (base.skip start).put (stored.drop start) := by
  have size : (stored.take start).length = start := List.length_take_of_le inside
  have split := Mem.skip_put base (stored.take start) (stored.drop start)
  rwa [List.take_append_drop, size] at split

theorem schemeCall_offer (cfg : Config) (base : Mem) {stored : List UInt8}
    (ends : stored.getLast? = some 0) :
    Option.Rel (Offer.Is base) (offerOf cfg stored) (schemeCall cfg (base.put stored)) := by
  unfold offerOf schemeCall
  rw [cstr_stored base ends]
  dsimp only
  cases scheme ((stored.takeWhile (· ≠ 0)).take cfg.headerValueSize) with
  | none => exact .none
  | some t =>
      refine .some ⟨rfl, ?_⟩
      dsimp only
      generalize (strstr ((stored.takeWhile (· ≠ 0)).take cfg.headerValueSize) t.name).getD 0 +
        t.name.length + 1 = start
      by_cases inside : start < stored.length
      · rw [if_pos inside]
        have last : (stored.drop start).getLast? = some 0 := by
          rw [List.getLast?_drop, if_neg (by omega), ends]
        refine ⟨fun b member => by simpa using List.all_eq_true.mp List.all_takeWhile b member, fun n => ?_⟩
        rw [AuthCall.cred, skip_stored base inside.le, cstr_stored _ last]
      · rw [if_neg inside]
        refine ⟨start, funext fun i => ?_⟩
        have beyond : stored.length ≤ start + i := by omega
        exact Mem.put_of_le base beyond

theorem isAuthorization_told (cfg : Config) (base : Mem) {name : List UInt8}
    (short : name.length < cfg.headerNameSize) (value : List UInt8) :
    namesAuthorization cfg (base.put (name ++ [0])) = (StoredLine.mk name value).isAuthorization := by
  have size := (List.takeWhile_prefix (fun b => decide (b ≠ 0)) (l := name)).length_le
  have room := cfg.name_ge
  rw [namesAuthorization, strncasecmpEq, Mem.cstr_put_prefix, List.take_of_length_le (by omega),
    Mem.cstr_ofBytes (by decide),
    List.take_of_length_le (by rw [show (ascii "authorization").length = 13 from rfl]; omega)]
  rfl

theorem length_leftOver (stop : UInt8 → Bool) (room : Nat) (text : List UInt8) :
    (leftOver stop room text).length ≤ text.length := by
  unfold leftOver
  split
  · exact (List.drop_suffix room text).length_le
  · exact ((List.tail_suffix _).trans (List.dropWhile_suffix _)).length_le

/-! ## The headers -/

section
variable {cfg : Config} {check : CheckAuth} {base : Mem}

theorem headerCalls_stop {l : HeaderLoop} {calls : List (Option AuthCall)}
    (stop : moreHeaders l = false) (h : HeaderCalls cfg check l calls) : calls = [] := by
  cases h with
  | done _ => rfl
  | next more _ _ => rw [stop] at more; cases more

theorem authCalls_offers (auth : cfg.auth ≠ .none) {stored : List UInt8}
    (ends : stored.getLast? = some 0) (buffer : Mem) (text : List UInt8) :
    List.Forall₂ (Option.Rel (Offer.Is base))
      (if (storedLine cfg text).isAuthorization then [offerOf cfg stored] else [])
      (authCalls cfg (buffer.put ((storedLine cfg text).name ++ [0])) (base.put stored)) := by
  have room := cfg.name_ge
  have told := isAuthorization_told cfg buffer
    (Nat.lt_of_le_of_lt (length_filled (fun c => c == 58) (cfg.headerNameSize - 1) text) (by omega))
    (storedLine cfg text).value
  rw [authCalls]
  change namesAuthorization cfg (buffer.put ((storedLine cfg text).name ++ [0])) =
    (storedLine cfg text).isAuthorization at told
  rw [told]
  by_cases named : (storedLine cfg text).isAuthorization = true
  · rw [if_pos named, if_pos ⟨auth, named⟩]
    exact .cons (schemeCall_offer cfg base ends) .nil
  · rw [if_neg named, if_neg fun both => named both.2]
    exact .nil

theorem afterValue_shorter {text next : List UInt8} (found : afterLine (valueRest cfg text) = some next) :
    next.length < text.length := by
  have less := afterLine_shorter found
  have rest := (length_skipSpace _).trans
    (length_leftOver (fun c => c == 58) (cfg.headerNameSize - 1) text)
  exact Nat.lt_of_lt_of_le less rest

theorem headerCalls_sent (auth : cfg.auth ≠ .none) {n : Nat} {text : List UInt8} {l : HeaderLoop}
    {stored : List UInt8} {calls : List (Option AuthCall)} (sent : l.reader.Sent text)
    (fuel : text.length < n) (more : moreHeaders l = true) (value : l.value = base.put stored)
    (ends : ∀ b ∈ stored.getLast?, b = 0) (h : HeaderCalls cfg check l calls) :
    List.Forall₂ (Option.Rel (Offer.Is base)) (offers cfg stored (storedLines cfg n text)) calls := by
  induction n generalizing text l stored calls with
  | zero => cases fuel
  | succ n ih =>
      cases h with
      | done stop => rw [stop] at more; cases more
      | @next _ l' others _ parse rest =>
          obtain ⟨name, stores, ended⟩ := parseHeader_sent sent parse
          rw [value, put_storeOver] at stores
          have last := storeOver_ends ends (storedLine cfg text).value
          have call := @authCalls_offers cfg base auth _ last l.name text
          rw [← name, ← stores] at call
          rw [storedLines, offers]
          refine List.rel_append call ?_
          have shorter {next : List UInt8} (found : afterLine (valueRest cfg text) = some next) :
              next.length < n :=
            Nat.lt_of_lt_of_le (afterValue_shorter found) (Nat.le_of_lt_succ fuel)
          generalize afterLine (valueRest cfg text) = next at ended shorter ⊢
          have kept := @recordHeader_done cfg check l'.name l'.value l'.request
          cases ended with
          | more ret request left =>
              have running : l.request.headersDone = false := by
                unfold moreHeaders at more
                rw [Bool.and_eq_true, Bool.not_eq_true'] at more
                exact more.1
              have again : moreHeaders { l' with
                  request := recordHeader cfg check l'.name l'.value l'.request } = true := by
                rw [moreHeaders, kept, show l'.request = _ from request, running,
                  show l'.ret = 1 from ret]
                rfl
              refine ih (by exact left) (shorter rfl) again stores (fun b member => ?_) rest
              rw [last] at member
              exact (Option.some.inj member).symm
          | finished request =>
              rw [headerCalls_stop _ rest]
              · exact .nil
              · rw [moreHeaders, kept, show l'.request = _ from request]
                rfl
          | ended ret request left =>
              rw [headerCalls_stop _ rest]
              · exact .nil
              · rw [moreHeaders, show l'.ret = 0 from ret]
                simp

theorem offers_empty (cfg : Config) : offers cfg [] (storedLines cfg 1 []) = [] := by
  have room := cfg.name_ge
  have name : (storedLine cfg []).isAuthorization = false := by
    simp only [StoredLine.isAuthorization, storedLine, filled, List.takeWhile_nil, List.length_nil,
      List.dropWhile_nil, show 0 < cfg.headerNameSize - 1 by omega, true_and, if_true]
    decide
  simp [storedLines, offers, name, valueRest, leftOver, skipSpace, dropNul, afterLine]

end

/-- A connection that delivers this text, and then zeros. -/
structure Connection.Offers (conn : Connection) (text : List UInt8) : Prop where
  input : conn.input = sends text
  atEnd : conn.atEnd = .zero

theorem Connection.Offers.sent {conn : Connection} {text : List UInt8} (h : conn.Offers text)
    (cfg : Config) (s : State) : (s.accept cfg conn).reader.Sent text :=
  ⟨h.input, h.atEnd⟩

theorem methodRefusal_known (text : List UInt8) : methodRefusal text ≠ statusUnknown := by
  unfold methodRefusal
  split <;> decide

theorem parseRequestLine_refused {cfg : Config} {r : Reader} {q : Request} {text : List UInt8}
    (sent : r.Sent text) (token : requestMethod text = none) {p : Parsed}
    (h : (parseRequestLine cfg r q).Returns p) :
    p.request = { q with returnCode := methodRefusal text } := by
  obtain ⟨k, method, h⟩ := returns_bind.mp h
  have refused := (parseMethod_sent sent method).1 token
  rw [refused, if_neg (by exact methodRefusal_known text)] at h
  rw [returns_pure.mp h, refused]

theorem endsLine_code {next : Option (List UInt8)} {q : Request} {p : Parsed} (h : EndsLine next q p) :
    p.request.returnCode = q.returnCode := by
  cases h with
  | more _ request _ => rw [request]
  | finished request => rw [request]
  | ended _ request _ => rw [request]

theorem checks_offers {cfg : Config} {conn : Connection} {s : State} {text : List UInt8}
    {calls : List (Option AuthCall)} (auth : cfg.auth ≠ .none) (delivers : conn.Offers text)
    (last : isBlank (s.request.url (cfg.urlBufferSize - 1)) = false) (h : Checks cfg conn s calls) :
    ∃ k j, List.Forall₂ (Option.Rel (Offer.Is (conn.readStack k)))
      (requestOffers cfg (decide (conn.readStack j (tokenSize - 1) = 10)) text) calls := by
  have sent := delivers.sent cfg s
  unfold requestOffers
  cases token : requestMethod text with
  | none =>
      refine ⟨0, 0, ?_⟩
      cases h with
      | refused line known => exact .nil
      | headers line unknown headers =>
          rw [parseRequestLine_refused sent token line] at unknown
          exact absurd unknown (methodRefusal_known text)
  | some pair =>
      obtain ⟨m, rest⟩ := pair
      have first {p : Parsed} (line : (parseRequestLine cfg (s.accept cfg conn).reader
          (s.accept cfg conn).request).Returns p) := @parseRequestLine_sent cfg
        (s.accept cfg conn).reader (s.accept cfg conn).request text sent rfl last m rest token p line
      cases h with
      | refused line known =>
          obtain ⟨q, j, ends, lined⟩ := first line
          exact absurd ((endsLine_code ends).trans lined.returnCode) known
      | @headers p _ line unknown headers =>
          obtain ⟨q, j, ends, lined⟩ := first line
          obtain ⟨k, shifted⟩ := (parseRequestLine_follows line).stack
          refine ⟨1 + k, j, ?_⟩
          rw [← show p.reader.enter.frame = conn.readStack (1 + k) from shifted 1]
          change EndsLine (headText (decide (conn.readStack j (tokenSize - 1) = 10)) (targetRest rest))
            q p at ends
          dsimp only
          generalize headText (decide (conn.readStack j (tokenSize - 1) = 10)) (targetRest rest) =
            head at ends
          have running {q' : Request} (same : q' = q) {reader : Reader} {name value : Mem} :
              moreHeaders ⟨1, name, value, reader, q'⟩ = true := by
            rw [same, moreHeaders, lined.headersDone]
            rfl
          have fresh : p.reader.enter.frame = p.reader.enter.frame.put [] := rfl
          cases ends with
          | more ret request left =>
              exact headerCalls_sent
                (l := ⟨1, p.reader.frame, p.reader.enter.frame, p.reader.enter.enter, p.request⟩)
                auth ⟨left.pending, left.atEnd⟩ (Nat.lt_succ_self _) (running request) fresh (by simp)
                headers
          | finished request =>
              rw [headerCalls_stop (by rw [moreHeaders, request]; rfl) headers]
              exact .nil
          | ended ret request left =>
              have calls := headerCalls_sent
                (l := ⟨1, p.reader.frame, p.reader.enter.frame, p.reader.enter.enter, p.request⟩)
                auth ⟨left.pending, left.atEnd⟩ Nat.one_pos (running request) fresh (by simp) headers
              rwa [offers_empty] at calls

end AttoHTTP
