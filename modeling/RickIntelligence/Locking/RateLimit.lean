import RickIntelligence.Lib.Keyspace
import RickIntelligence.Lib.Trace
import RickIntelligence.Locking.Executor
import RickIntelligence.Locking.Namespace

/-!
# The rate limiter

`RedisRateLimiter.allow` counts the requests of a window in a bucket, and keeps the decision on each
request in a marker, so that a request that comes again is not counted again. `RATE_LIMIT_SCRIPT` is
one atomic step of the server (`rateLimitScript`). The bucket expires a window after its first
request, and a marker a window after its own.

The calls of any number of clients interleave, for any keys and windows (`RateServer.exec`). A
lifetime of a bucket ends when a request finds it expired and begins another.
-/

namespace RickIntelligence.Locking

open Lib

/-! ## The script -/

/-- The keys of the server, each with a number. -/
abbrev RateKeys := Keyspace String ℕ

/-- `RATE_LIMIT_SCRIPT`, at an instant of the server's clock in milliseconds. -/
def rateLimitScript (db : RateKeys) (now : ℕ) (bucket_key request_key : String)
    (window_ms limit : ℕ) : ℕ × RateKeys :=
  match db.get now request_key with
  | some previous => (previous.value, db)
  | none =>
    let (count, db) := db.incr now bucket_key
    let db := if count = 1 then db.pexpire now bucket_key window_ms else db
    let allowed := if count ≤ limit then 1 else 0
    (allowed, db.setPx now request_key allowed window_ms)

/-- The count of a bucket: zero if it is not alive. -/
def bucketCount (db : RateKeys) (now : ℕ) (bucket_key : String) : ℕ :=
  (db.get now bucket_key).elim 0 Expiring.value

/-! ## `allow` -/

/-- What the limiter is given from outside: `str.isalnum` for one character, `_validated_window` on the
values that a caller may pass for a number of seconds, and SHA-256. -/
structure RateEnv (W : Type) where
  isalnum : Char → Bool
  validatedWindow : W → Option ℕ
  sha : Sha256

/-- The arguments of `allow`, and what `new_correlation_id` returns if there is no `request_id`. -/
structure RateCall (W : Type) where
  key : String
  limit : ℤ
  window_seconds : W
  request_id : Option String
  correlation_id : Option String
  generated : String

/-- What the script is called with. -/
structure RateRequest where
  key : String
  window_ms : ℕ
  limit : ℕ
  request_id : String
  bucket_key : String
  request_key : String
  deriving DecidableEq, Repr

section Allow

variable {W : Type} (env : RateEnv W) (ns : RedisNamespace)

/-- `_valid_scalar_text`. -/
def validScalarText (value : String) (maximum : ℕ) : Bool :=
  decide (1 ≤ value.toList.length) && decide (value.toList.length ≤ maximum) &&
    value.toList.all fun c => decide (0x20 ≤ c.toNat) && c != '\x7f'

/-- `correlation_id_for` accepts the argument. -/
def validCorrelation (correlation_id : Option String) : Bool :=
  correlation_id.all fun text => decide (1 ≤ text.toList.length) &&
    decide (text.toList.length ≤ 128) &&
    text.toList.all fun c => env.isalnum c || ['.', '_', ':', '-'].contains c

/-- The text of a bucket. -/
def bucketText (key : String) (window_ms : ℕ) : String := key ++ "\x1f" ++ toString window_ms

/-- `bucket_material`. -/
def bucketMaterial (key : String) (window_ms : ℕ) : String :=
  env.sha.hexdigest (bucketText key window_ms)

/-- `request_material`. -/
def requestMaterial (key : String) (window_ms : ℕ) (request_id : String) : String :=
  bucketMaterial env key window_ms ++ ":" ++ request_id

/-- The checks of `allow` and the keys that it makes: what the script is called with, or nothing if
`allow` returns `False` before. -/
def prepare (c : RateCall W) : Option RateRequest := do
  guard (validCorrelation env c.correlation_id)
  guard (validScalarText c.key 512)
  guard (1 ≤ c.limit ∧ c.limit ≤ 1000000)
  let window_ms ← env.validatedWindow c.window_seconds
  let request_id := c.request_id.getD c.generated
  guard (c.request_id.all identifierPattern)
  let bucket_key ← ns.key env.sha "rate-bucket" (bucketMaterial env c.key window_ms)
  let request_key ← ns.key env.sha "rate-request" (requestMaterial env c.key window_ms request_id)
  return ⟨c.key, window_ms, c.limit.toNat, request_id, bucket_key, request_key⟩

/-- What becomes of the one message of a call: it is not sent or is lost, the server runs the script
and its answer is lost, or the answer arrives. -/
inductive Fate where
  | lost (code : LeaseErrorCode)
  | unanswered (code : LeaseErrorCode)
  | answered
  | cancelled (executed : Bool)
  deriving DecidableEq, Repr

/-- The server runs the script. -/
def Fate.executes : Fate → Bool
  | lost _ => false
  | unanswered _ | answered => true
  | cancelled executed => executed

/-- `_script_result`, where `LeaseError` is read as `False`. -/
def scriptResult (result : ℕ) : Bool := result = 1

/-- What `allow` makes of the reply to its one attempt; nothing stands for a cancelled task. -/
def allowResult (reply : Reply ℕ) : Option Bool :=
  match CallPhase.afterAttempt .singleAttempt false 0 reply with
  | .returned result => some (scriptResult result)
  | .raised .cancelled => none
  | _ => some false

/-- The decision of the script on a request. -/
def RateRequest.decide (r : RateRequest) (db : RateKeys) (now : ℕ) : ℕ × RateKeys :=
  rateLimitScript db now r.bucket_key r.request_key r.window_ms r.limit

/-- The reply to the message. -/
def Fate.reply (decision : ℕ) : Fate → Reply ℕ
  | lost code | unanswered code => .error code
  | answered => .result decision
  | cancelled _ => .cancelled

/-- `RedisRateLimiter.allow`: what it returns, and the keys that it leaves. -/
def allow (c : RateCall W) (fate : Fate) (db : RateKeys) (now : ℕ) : Option Bool × RateKeys :=
  match prepare env ns c with
  | none => (some false, db)
  | some r =>
    (allowResult (fate.reply (r.decide db now).1),
      if fate.executes then (r.decide db now).2 else db)

end Allow

/-! ## Interleaved calls -/

/-- The server: its keys and its clock. -/
structure RateServer where
  db : RateKeys
  now : ℕ

/-- Time passes, or a call reaches the server or not. -/
inductive RateEvent (W : Type) where
  | tick (now : ℕ)
  | call (c : RateCall W) (fate : Fate)

/-- The call of an event. -/
def RateEvent.call? {W : Type} : RateEvent W → Option (RateCall W)
  | tick _ => none
  | call c _ => some c

/-- The requests are for one bucket: one key and one window. -/
def RateRequest.sameBucket (r r' : RateRequest) : Bool :=
  r.key == r'.key && r.window_ms == r'.window_ms

section System

variable {W : Type} (env : RateEnv W) (ns : RedisNamespace)

/-- The server after an event. -/
def RateServer.exec (s : RateServer) : RateEvent W → Option RateServer
  | .tick now => if s.now ≤ now then some { s with now } else none
  | .call c fate => some { s with db := (allow env ns c fate s.db s.now).2 }

/-- The request of the bucket of `r₀` that the server decides on for the first time, since no marker of
it is alive. -/
def firstDecision? (r₀ : RateRequest) (s : RateServer) : RateEvent W → Option RateRequest
  | .tick _ => none
  | .call c fate =>
    (prepare env ns c).filter fun r =>
      fate.executes && r.sameBucket r₀ && (s.db.get s.now r.request_key).isNone

/-- The identifier of a request whose first decision is that it is allowed. -/
def granted? (r₀ : RateRequest) (x : RateServer × RateEvent W) : Option String :=
  (firstDecision? env ns r₀ x.1 x.2).bind fun r =>
    if (r.decide x.1.db x.1.now).1 = 1 then some r.request_id else none

/-- A request finds the bucket expired and begins a lifetime of it. -/
def Renews (r₀ : RateRequest) (s : RateServer) (e : RateEvent W) : Prop :=
  (firstDecision? env ns r₀ s e).isSome = true ∧ s.db.get s.now r₀.bucket_key = none

/-- The event is not a call for another bucket. -/
def concerns (r₀ : RateRequest) : RateEvent W → Bool
  | .tick _ => true
  | .call c _ => (prepare env ns c).any fun r => r.sameBucket r₀

/-- The texts that are hashed for a request. -/
def RateRequest.texts (r : RateRequest) : Set String :=
  {bucketText r.key r.window_ms, bucketMaterial env r.key r.window_ms,
    requestMaterial env r.key r.window_ms r.request_id}

/-- The requests of calls. -/
def requests (calls : Set (RateCall W)) : Set RateRequest :=
  {r | ∃ c ∈ calls, prepare env ns c = some r}

end System

/-! ## Keys of different requests -/

section Keys

variable {W : Type} {env : RateEnv W} {ns : RedisNamespace} {c : RateCall W} {r r' : RateRequest}

/-- The request of a call that passes the checks. -/
theorem prepare_eq_some (h : prepare env ns c = some r) :
    r.bucket_key = ns.keyText env.sha "rate-bucket" (bucketMaterial env r.key r.window_ms) ∧
    r.request_key = ns.keyText env.sha "rate-request"
      (requestMaterial env r.key r.window_ms r.request_id) ∧
    1 ≤ r.limit ∧ '\x1f' ∉ r.key.toList := by
  simp only [prepare, Option.bind_eq_bind, Option.bind_eq_some_iff, Option.guard_eq_some'] at h
  obtain ⟨-, -, -, hkey, -, hlimit, window_ms, -, -, -, bucket_key, hbucket, request_key, hrequest,
    hr⟩ := h
  cases hr
  refine ⟨RedisNamespace.key_eq_some hbucket, RedisNamespace.key_eq_some hrequest, ?_, ?_⟩
  · show 1 ≤ c.limit.toNat
    omega
  · intro hmem
    simp only [validScalarText, Bool.and_eq_true, List.all_eq_true] at hkey
    have hchar := (hkey.2 _ hmem).1
    simp at hchar

/-- The text of a bucket tells its key and its window. -/
theorem bucketText_inj {key key' : String} {window window' : ℕ} (hkey : '\x1f' ∉ key.toList)
    (h : bucketText key window = bucketText key' window') : key = key' ∧ window = window' := by
  have hdigits : ∀ n : ℕ, '\x1f' ∉ (toString n).toList := by
    intro n hmem
    rw [Nat.toString_eq_repr, Nat.toList_repr] at hmem
    have hdigit := Nat.isDigit_of_mem_toDigits (by decide) (by decide) hmem
    exact absurd hdigit (by decide)
  have hlists := congrArg String.toList h
  simp only [bucketText, String.toList_append, List.append_assoc] at hlists
  have hsep : ("\x1f" : String).toList = ['\x1f'] := rfl
  rw [hsep] at hlists
  obtain ⟨hk, -, hw⟩ :=
    (List.append_cons_inj_of_notMem hkey (hdigits window)).mp hlists
  exact ⟨String.toList_inj.mp hk, Nat.repr_injective (String.toList_inj.mp hw)⟩

/-- Requests are told apart by their keys. -/
structure Distinct (requests : Set RateRequest) : Prop where
  bucket : ∀ r ∈ requests, ∀ r' ∈ requests, r.bucket_key = r'.bucket_key ↔ r.sameBucket r' = true
  request : ∀ r ∈ requests, ∀ r' ∈ requests, r.request_key = r'.request_key ↔
    r.sameBucket r' = true ∧ r.request_id = r'.request_id
  kinds : ∀ r ∈ requests, ∀ r' ∈ requests, r.bucket_key ≠ r'.request_key

/-- Requests are for one bucket if their keys and their windows are the same. -/
theorem sameBucket_iff : r.sameBucket r' = true ↔ r.key = r'.key ∧ r.window_ms = r'.window_ms := by
  simp [RateRequest.sameBucket]

/-- Where no texts collide, requests are told apart by their keys. -/
theorem requests_distinct {calls : Set (RateCall W)}
    (hsha : env.sha.CollisionFree (⋃ r ∈ requests env ns calls, r.texts env)) :
    Distinct (requests env ns calls) := by
  have hmem : ∀ r ∈ requests env ns calls, ∀ t ∈ r.texts env,
      t ∈ ⋃ r ∈ requests env ns calls, r.texts env := by
    intro r hr t ht
    exact Set.mem_biUnion hr ht
  have hbucket : ∀ r ∈ requests env ns calls, ∀ r' ∈ requests env ns calls,
      bucketMaterial env r.key r.window_ms = bucketMaterial env r'.key r'.window_ms →
        r.sameBucket r' = true := by
    intro r hr r' hr' h
    have htext := hsha.hexdigest (hmem r hr _ (by simp [RateRequest.texts]))
      (hmem r' hr' _ (by simp [RateRequest.texts])) h
    obtain ⟨c, -, hc⟩ := hr
    exact sameBucket_iff.mpr (bucketText_inj (prepare_eq_some hc).2.2.2 htext)
  refine ⟨?_, ?_, ?_⟩
  · intro r hr r' hr'
    obtain ⟨c, hcalls, hc⟩ := id hr
    obtain ⟨c', hcalls', hc'⟩ := id hr'
    rw [(prepare_eq_some hc).1, (prepare_eq_some hc').1, RedisNamespace.keyText_inj]
    constructor
    · intro h
      exact hbucket r hr r' hr' (hsha (hmem r hr _ (by simp [RateRequest.texts]))
        (hmem r' hr' _ (by simp [RateRequest.texts])) h)
    · intro h
      obtain ⟨hkey, hwindow⟩ := sameBucket_iff.mp h
      rw [hkey, hwindow]
  · intro r hr r' hr'
    obtain ⟨c, hcalls, hc⟩ := id hr
    obtain ⟨c', hcalls', hc'⟩ := id hr'
    rw [(prepare_eq_some hc).2.1, (prepare_eq_some hc').2.1, RedisNamespace.keyText_inj]
    constructor
    · intro h
      have hmaterial := hsha (hmem r hr _ (by simp [RateRequest.texts]))
        (hmem r' hr' _ (by simp [RateRequest.texts])) h
      -- The hash of the bucket has a fixed length, so the request identifier begins at one place.
      have hlists := congrArg String.toList hmaterial
      simp only [requestMaterial, String.toList_append, List.append_assoc] at hlists
      obtain ⟨hb, hid⟩ := List.append_inj hlists (by
        rw [bucketMaterial, bucketMaterial, env.sha.length, env.sha.length])
      exact ⟨hbucket r hr r' hr' (String.toList_inj.mp hb),
        String.toList_inj.mp (List.append_cancel_left hid)⟩
    · rintro ⟨h, hid⟩
      obtain ⟨hkey, hwindow⟩ := sameBucket_iff.mp h
      rw [hkey, hwindow, hid]
  · intro r hr r' hr' h
    obtain ⟨c, hcalls, hc⟩ := hr
    obtain ⟨c', hcalls', hc'⟩ := hr'
    rw [(prepare_eq_some hc).1, (prepare_eq_some hc').2.1] at h
    have hlists := congrArg String.toList h
    simp only [RedisNamespace.keyText, String.toList_append, List.append_assoc,
      List.append_cancel_left_eq] at hlists
    have hb : ("rate-bucket" : String).toList = "rate-".toList ++ 'b' :: "ucket".toList := rfl
    have hr : ("rate-request" : String).toList = "rate-".toList ++ 'r' :: "equest".toList := rfl
    rw [hb, hr] at hlists
    simp at hlists

end Keys

/-! ## What the script does -/

section Script

variable {r r' : RateRequest} {db : RateKeys} {now : ℕ}

/-- A request whose marker is alive is answered from it, and nothing changes. -/
theorem decide_again {marker : Expiring ℕ} (h : db.get now r.request_key = some marker) :
    r.decide db now = (marker.value, db) := by
  unfold RateRequest.decide rateLimitScript
  rw [h]

/-- The bucket after a request is counted in it. -/
def nextBucket (bucket : Option (Expiring ℕ)) (now window_ms : ℕ) : Expiring ℕ :=
  match bucket with
  | none => ⟨1, some (now + window_ms)⟩
  | some bucket =>
    if bucket.value + 1 = 1 then ⟨bucket.value + 1, some (now + window_ms)⟩
    else { bucket with value := bucket.value + 1 }

/-- The count of the next bucket. -/
theorem nextBucket_value (db : RateKeys) (now window_ms : ℕ) (k : String) :
    (nextBucket (db.get now k) now window_ms).value = bucketCount db now k + 1 := by
  unfold nextBucket bucketCount
  cases db.get now k with
  | none => rfl
  | some bucket =>
    simp only [Option.elim_some]
    split
    · rfl
    · rfl

/-- The first decision on a request: it counts in the bucket, which lives for a window from its first
request, and leaves the marker. -/
theorem decide_first (hkeys : r.bucket_key ≠ r.request_key)
    (h : db.get now r.request_key = none) :
    (r.decide db now).1 = (if bucketCount db now r.bucket_key + 1 ≤ r.limit then 1 else 0) ∧
    (r.decide db now).2 r.bucket_key =
      some (nextBucket (db.get now r.bucket_key) now r.window_ms) ∧
    (r.decide db now).2 r.request_key =
      some ⟨(r.decide db now).1, some (now + r.window_ms)⟩ ∧
    ∀ k, k ≠ r.bucket_key → k ≠ r.request_key → (r.decide db now).2 k = db k := by
  -- What `INCR` and `PEXPIRE` together leave.
  have hincr : (db.incr now r.bucket_key).1 = bucketCount db now r.bucket_key + 1 ∧
      (if (db.incr now r.bucket_key).1 = 1 then
        (db.incr now r.bucket_key).2.pexpire now r.bucket_key r.window_ms
      else (db.incr now r.bucket_key).2) =
        db.put r.bucket_key (nextBucket (db.get now r.bucket_key) now r.window_ms) := by
    unfold bucketCount nextBucket
    cases hbucket : db.get now r.bucket_key with
    | none =>
      have hnew : (db.put r.bucket_key ⟨1, none⟩).pexpire now r.bucket_key r.window_ms =
          db.put r.bucket_key ⟨1, some (now + r.window_ms)⟩ := Keyspace.pexpire_put db (by simp) _
      simp only [Keyspace.incr, hbucket, Option.elim_none, zero_add, if_true, hnew, and_self]
    | some bucket =>
      have hlive : ∀ t, ({ bucket with value := bucket.value + 1 } : Expiring ℕ).expires_at = some t →
          now ≤ t := by
        obtain ⟨-, hlive⟩ := Option.filter_eq_some_iff.mp hbucket
        simpa [Option.all_eq_true] using hlive
      simp only [Keyspace.incr, hbucket, Option.elim_some, true_and]
      split
      · exact Keyspace.pexpire_put db hlive _
      · rfl
  have hdecide : r.decide db now =
      ((if bucketCount db now r.bucket_key + 1 ≤ r.limit then 1 else 0),
        (db.put r.bucket_key (nextBucket (db.get now r.bucket_key) now r.window_ms)).setPx now
          r.request_key (if bucketCount db now r.bucket_key + 1 ≤ r.limit then 1 else 0)
          r.window_ms) := by
    unfold RateRequest.decide rateLimitScript
    rw [h]
    simp only [hincr.2]
    rw [hincr.1]
  rw [hdecide]
  refine ⟨rfl, ?_, ?_, ?_⟩
  · simp [Keyspace.setPx, Keyspace.put, hkeys]
  · simp [Keyspace.setPx, Keyspace.put]
  · intro k hk hk'
    simp [Keyspace.setPx, Keyspace.put, hk, hk']

/-- A decision leaves the other keys. -/
theorem decide_other (hkeys : r.bucket_key ≠ r.request_key) {k : String} (hbucket : k ≠ r.bucket_key)
    (hrequest : k ≠ r.request_key) : (r.decide db now).2 k = db k := by
  cases h : db.get now r.request_key with
  | some marker => rw [decide_again h]
  | none => exact (decide_first hkeys h).2.2.2 k hbucket hrequest

/-- Equal entries are alive at the same time. -/
theorem get_congr {db db' : RateKeys} {k : String} (h : db' k = db k) :
    db'.get now k = db.get now k := by
  unfold Keyspace.get
  rw [h]

/-- A decision depends on the bucket and the marker of the request only. -/
theorem decide_congr (hkeys : r.bucket_key ≠ r.request_key) {db db' : RateKeys}
    (hbucket : db r.bucket_key = db' r.bucket_key) (hrequest : db r.request_key = db' r.request_key) :
    (r.decide db now).1 = (r.decide db' now).1 ∧
    ∀ k, db k = db' k → (r.decide db now).2 k = (r.decide db' now).2 k := by
  have hcount : bucketCount db now r.bucket_key = bucketCount db' now r.bucket_key := by
    unfold bucketCount
    rw [get_congr hbucket]
  cases h : db.get now r.request_key with
  | some marker =>
    rw [decide_again h, decide_again ((get_congr hrequest).symm.trans h)]
    exact ⟨rfl, fun k hk => hk⟩
  | none =>
    obtain ⟨hd, hb, hm, ho⟩ := decide_first hkeys h
    obtain ⟨hd', hb', hm', ho'⟩ := decide_first hkeys ((get_congr hrequest).symm.trans h)
    have hdecision : (r.decide db now).1 = (r.decide db' now).1 := by rw [hd, hd', hcount]
    refine ⟨hdecision, fun k hk => ?_⟩
    by_cases hkb : k = r.bucket_key
    · rw [hkb, hb, hb', get_congr hbucket]
    · by_cases hkr : k = r.request_key
      · rw [hkr, hm, hm', hdecision]
      · rw [ho k hkb hkr, ho' k hkb hkr, hk]

end Script

/-! ## Runs -/

section Runs

variable {W : Type} {env : RateEnv W} {ns : RedisNamespace} {calls : Set (RateCall W)}
  {s t : RateServer} {e : RateEvent W} {es : List (RateEvent W)} {r₀ : RateRequest}

/-- What an event does for a bucket: time passes, no request of the bucket is decided on, a request
is decided on from its marker, or for the first time. -/
inductive Effect (env : RateEnv W) (ns : RedisNamespace) (requests : Set RateRequest)
    (r₀ : RateRequest) (s : RateServer) : RateEvent W → RateServer → Prop
  | ticks {now : ℕ} (hnow : s.now ≤ now) : Effect env ns requests r₀ s (.tick now) { s with now }
  | nothing {c : RateCall W} {fate : Fate}
      (hfirst : firstDecision? env ns r₀ s (.call c fate) = none) :
      Effect env ns requests r₀ s (.call c fate) s
  | other {c : RateCall W} {fate : Fate} {r : RateRequest} (hr : r ∈ requests)
      (hrequest : prepare env ns c = some r) (hother : r.sameBucket r₀ = false) :
      Effect env ns requests r₀ s (.call c fate) { s with db := (r.decide s.db s.now).2 }
  | first {c : RateCall W} {fate : Fate} {r : RateRequest} (hr : r ∈ requests)
      (hrequest : prepare env ns c = some r) (hsame : r.sameBucket r₀ = true)
      (hfirst : firstDecision? env ns r₀ s (.call c fate) = some r)
      (hmarker : s.db.get s.now r.request_key = none) :
      Effect env ns requests r₀ s (.call c fate) { s with db := (r.decide s.db s.now).2 }

/-- Every event has one of the effects. -/
theorem exec_effect (h : s.exec env ns e = some t) (hcall : ∀ c, e.call? = some c → c ∈ calls)
    (r₀ : RateRequest) : Effect env ns (requests env ns calls) r₀ s e t := by
  cases e with
  | tick now =>
    simp only [RateServer.exec, Option.ite_none_right_eq_some, Option.some.injEq] at h
    obtain ⟨hnow, rfl⟩ := h
    exact .ticks hnow
  | call c fate =>
    simp only [RateServer.exec, Option.some.injEq] at h
    subst h
    have hc : c ∈ calls := hcall c rfl
    cases hprepare : prepare env ns c with
    | none =>
      have hallow : (allow env ns c fate s.db s.now).2 = s.db := by simp [allow, hprepare]
      rw [hallow]
      exact .nothing (by simp [firstDecision?, hprepare])
    | some r =>
      have hr : r ∈ requests env ns calls := ⟨c, hc, hprepare⟩
      cases hexecutes : fate.executes with
      | false =>
        have hallow : (allow env ns c fate s.db s.now).2 = s.db := by
          simp [allow, hprepare, hexecutes]
        rw [hallow]
        exact .nothing (by simp [firstDecision?, hprepare, hexecutes])
      | true =>
        have hallow : (allow env ns c fate s.db s.now).2 = (r.decide s.db s.now).2 := by
          simp [allow, hprepare, hexecutes]
        rw [hallow]
        cases hsame : r.sameBucket r₀ with
        | false => exact .other hr hprepare hsame
        | true =>
          cases hmarker : s.db.get s.now r.request_key with
          | none =>
            exact .first hr hprepare hsame
              (by simp [firstDecision?, hprepare, hexecutes, hsame, hmarker]) hmarker
          | some marker =>
            rw [decide_again hmarker]
            exact .nothing (by simp [firstDecision?, hprepare, hmarker])

/-- What is granted in a lifetime of the bucket so far: at most the limit, and at most the count while
the bucket is alive. -/
def Within (limit : ℕ) (r₀ : RateRequest) (granted : ℕ) (s : RateServer) : Prop :=
  granted ≤ limit ∧ ∀ bucket, s.db.get s.now r₀.bucket_key = some bucket → granted ≤ bucket.value

/-- An event keeps what is granted within the limit, if it does not begin another lifetime. -/
theorem Effect.within (hdistinct : Distinct (requests env ns calls))
    (hr₀ : r₀ ∈ requests env ns calls)
    (hlimit : ∀ r ∈ requests env ns calls, r.sameBucket r₀ = true → r.limit = r₀.limit)
    (h : Effect env ns (requests env ns calls) r₀ s e t) {granted : ℕ}
    (hwithin : Within r₀.limit r₀ granted s) (hrenews : Renews env ns r₀ s e → granted = 0) :
    Within r₀.limit r₀ (granted + (granted? env ns r₀ (s, e)).toList.length) t := by
  obtain ⟨hle, hcount⟩ := hwithin
  cases h with
  | @ticks now hnow =>
    refine ⟨by simpa [granted?, firstDecision?] using hle, fun bucket hbucket => ?_⟩
    simpa [granted?, firstDecision?] using hcount bucket (Keyspace.get_later hnow hbucket)
  | nothing hfirst =>
    simp only [granted?, hfirst, Option.bind_none, Option.toList_none, List.length_nil, add_zero]
    exact ⟨hle, hcount⟩
  | @other c fate r hr hrequest hother =>
    have hnone : firstDecision? env ns r₀ s (.call c fate) = none := by
      simp [firstDecision?, hrequest, hother]
    simp only [granted?, hnone, Option.bind_none, Option.toList_none, List.length_nil, add_zero]
    refine ⟨hle, fun bucket hbucket => hcount bucket ?_⟩
    have hbuckets : r₀.bucket_key ≠ r.bucket_key := by
      intro heq
      rw [(hdistinct.bucket r hr r₀ hr₀).mp heq.symm] at hother
      cases hother
    rw [← hbucket]
    exact (get_congr (decide_other (hdistinct.kinds r hr r hr) hbuckets
      (hdistinct.kinds r₀ hr₀ r hr))).symm
  | @first c fate r hr hrequest hsame hfirst hmarker =>
    have hbucket : r.bucket_key = r₀.bucket_key := (hdistinct.bucket r hr r₀ hr₀).mpr hsame
    obtain ⟨hdecision, hnew, -⟩ := decide_first (hdistinct.kinds r hr r hr) hmarker
    rw [hbucket] at hdecision hnew
    rw [hlimit r hr hsame] at hdecision
    -- Before the decision no more was granted than the bucket counts.
    have hbefore : granted ≤ bucketCount s.db s.now r₀.bucket_key := by
      unfold bucketCount
      cases hold : s.db.get s.now r₀.bucket_key with
      | none => exact le_of_eq (hrenews ⟨by rw [hfirst]; rfl, hold⟩)
      | some old => exact hcount old hold
    have hgranted : (granted? env ns r₀ (s, .call c fate)).toList.length =
        if bucketCount s.db s.now r₀.bucket_key + 1 ≤ r₀.limit then 1 else 0 := by
      simp only [granted?, hfirst, Option.bind_some, hdecision]
      split
      · rfl
      · rfl
    rw [hgranted]
    refine ⟨?_, fun bucket' hbucket' => ?_⟩
    · split
      · omega
      · omega
    · obtain ⟨hbucket', -⟩ := Option.filter_eq_some_iff.mp hbucket'
      cases hnew.symm.trans hbucket'
      rw [nextBucket_value]
      split
      · omega
      · omega

/-- The events are calls of the set, or time that passes. -/
def Among (calls : Set (RateCall W)) (es : List (RateEvent W)) : Prop :=
  ∀ e ∈ es, ∀ c, e.call? = some c → c ∈ calls

/-- The last of some calls, and those before it. -/
theorem Among.snoc (h : Among calls (es ++ [e])) :
    Among calls es ∧ ∀ c, e.call? = some c → c ∈ calls :=
  ⟨fun e' he' => h e' (List.mem_append_left _ he'), h e (by simp)⟩

/-- What is granted in a lifetime of the bucket is within the limit. -/
theorem lifetime_within (hdistinct : Distinct (requests env ns calls))
    (hr₀ : r₀ ∈ requests env ns calls)
    (hlimit : ∀ r ∈ requests env ns calls, r.sameBucket r₀ = true → r.limit = r₀.limit)
    {u : RateServer} (hcalls : Among calls (e :: es)) (he : s.exec env ns e = some u)
    (hrun : execAll (RateServer.exec env ns) u es = some t)
    (hrenews : ¬ Happens (RateServer.exec env ns) u es (Renews env ns r₀)) :
    Within r₀.limit r₀
      ((visits (RateServer.exec env ns) s (e :: es)).filterMap (granted? env ns r₀)).length t := by
  have hfirst : Within r₀.limit r₀ (0 + (granted? env ns r₀ (s, e)).toList.length) u :=
    (exec_effect he (hcalls e (by simp)) r₀).within hdistinct hr₀ hlimit
      ⟨Nat.zero_le _, fun _ _ => Nat.zero_le _⟩ fun _ => rfl
  -- The events after the first are counted one by one.
  have hall : Among calls es → ¬ Happens (RateServer.exec env ns) u es (Renews env ns r₀) →
      Within r₀.limit r₀ ((granted? env ns r₀ (s, e)).toList.length +
        ((visits (RateServer.exec env ns) u es).filterMap (granted? env ns r₀)).length) t := by
    refine trace_invariant (I := fun es t => Among calls es →
      ¬ Happens (RateServer.exec env ns) u es (Renews env ns r₀) →
      Within r₀.limit r₀ ((granted? env ns r₀ (s, e)).toList.length +
        ((visits (RateServer.exec env ns) u es).filterMap (granted? env ns r₀)).length) t) ?_ ?_ hrun
    · intro _ _
      simpa [visits] using hfirst
    · intro past v e' t hv ih he' hamong hnever
      rw [happens_snoc hv, not_or] at hnever
      have hstep := (exec_effect he' hamong.snoc.2 r₀).within hdistinct hr₀ hlimit
        (ih hamong.snoc.1 hnever.1) fun hrenews => absurd hrenews hnever.2
      rw [visits_snoc hv, List.filterMap_append, List.length_append, ← add_assoc]
      convert hstep using 2
      cases hgranted : granted? env ns r₀ (v, e') with
      | none => simp [hgranted]
      | some id => simp [hgranted]
  have hvisits : visits (RateServer.exec env ns) s (e :: es) =
      (s, e) :: visits (RateServer.exec env ns) u es := by
    simp only [visits, he]
  have hrest := hall (fun e' he' => hcalls e' (List.mem_cons_of_mem _ he')) hrenews
  rw [hvisits]
  convert hrest using 1
  cases hgranted : granted? env ns r₀ (s, e) with
  | none => simp [hgranted]
  | some id =>
    simp [hgranted]
    omega

/-! ### Markers -/

/-- The marker of a request stays while it is alive. -/
theorem Effect.marked (hdistinct : Distinct (requests env ns calls))
    (hr₀ : r₀ ∈ requests env ns calls) (h : Effect env ns (requests env ns calls) r₀ s e t)
    {decision expires : ℕ} (hlive : s.now ≤ expires)
    (hmarked : s.db r₀.request_key = some ⟨decision, some expires⟩) :
    t.db r₀.request_key = some ⟨decision, some expires⟩ := by
  cases h with
  | ticks => exact hmarked
  | nothing => exact hmarked
  | @other c fate r hr hrequest hother =>
    have hkeys : r₀.request_key ≠ r.request_key := by
      intro heq
      rw [((hdistinct.request r hr r₀ hr₀).mp heq.symm).1] at hother
      cases hother
    rw [← hmarked]
    exact decide_other (hdistinct.kinds r hr r hr) (hdistinct.kinds r hr r₀ hr₀).symm hkeys
  | @first c fate r hr hrequest hsame hfirst hmarker =>
    have hkeys : r₀.request_key ≠ r.request_key := by
      intro heq
      rw [← heq, Keyspace.get, hmarked, Option.filter_some, if_pos (by simpa using hlive)] at hmarker
      cases hmarker
    rw [← hmarked]
    exact decide_other (hdistinct.kinds r hr r hr) (hdistinct.kinds r hr r₀ hr₀).symm hkeys

/-- The clock does not go back. -/
theorem Effect.now_le (h : Effect env ns (requests env ns calls) r₀ s e t) : s.now ≤ t.now := by
  cases h with
  | ticks hnow => exact hnow
  | nothing => exact le_rfl
  | other => exact le_rfl
  | first => exact le_rfl

/-- The marker of a request stays through a run, while it is alive. -/
theorem marked_run (hdistinct : Distinct (requests env ns calls)) (hr₀ : r₀ ∈ requests env ns calls)
    {decision expires : ℕ} (hmarked : s.db r₀.request_key = some ⟨decision, some expires⟩)
    (hcalls : Among calls es) (hrun : execAll (RateServer.exec env ns) s es = some t)
    (hlive : t.now ≤ expires) : t.db r₀.request_key = some ⟨decision, some expires⟩ := by
  refine trace_invariant (I := fun es t => Among calls es → t.now ≤ expires →
    t.db r₀.request_key = some ⟨decision, some expires⟩) (fun _ _ => hmarked) ?_ hrun hcalls hlive
  intro past u e t hu ih he hamong hlive
  have heffect := exec_effect he hamong.snoc.2 r₀
  have hbefore : u.now ≤ expires := le_trans heffect.now_le hlive
  exact heffect.marked hdistinct hr₀ hbefore (ih hamong.snoc.1 hbefore)

/-! ### Calls for other buckets -/

/-- Two servers agree on the keys of a bucket and its requests. -/
structure Agree (requests : Set RateRequest) (r₀ : RateRequest) (s t : RateServer) : Prop where
  now : s.now = t.now
  bucket : s.db r₀.bucket_key = t.db r₀.bucket_key
  request : ∀ r ∈ requests, r.sameBucket r₀ = true → s.db r.request_key = t.db r.request_key

/-- Servers that agree decide in the same way on the requests of the bucket. -/
theorem Agree.decide (hdistinct : Distinct (requests env ns calls)) (hr₀ : r₀ ∈ requests env ns calls)
    (h : Agree (requests env ns calls) r₀ s t) {r : RateRequest} (hr : r ∈ requests env ns calls)
    (hsame : r.sameBucket r₀ = true) :
    (r.decide s.db s.now).1 = (r.decide t.db t.now).1 ∧
    ∀ k, s.db k = t.db k → (r.decide s.db s.now).2 k = (r.decide t.db t.now).2 k := by
  have hbucket : r.bucket_key = r₀.bucket_key := (hdistinct.bucket r hr r₀ hr₀).mpr hsame
  rw [h.now]
  exact decide_congr (hdistinct.kinds r hr r hr) (by rw [hbucket]; exact h.bucket)
    (h.request r hr hsame)

/-- A call for another bucket changes no key of this one. -/
theorem agree_other (hdistinct : Distinct (requests env ns calls)) (hr₀ : r₀ ∈ requests env ns calls)
    (h : Agree (requests env ns calls) r₀ s t) {u : RateServer} {c : RateCall W} {fate : Fate}
    (hc : c ∈ calls) (hother : concerns env ns r₀ (.call c fate) = false)
    (he : s.exec env ns (.call c fate) = some u) : Agree (requests env ns calls) r₀ u t := by
  have heffect := exec_effect he (fun c' hc' => by cases hc'; exact hc) r₀
  cases heffect with
  | nothing => exact h
  | @other _ _ r hr hrequest hne =>
    have hkept : ∀ k, k ≠ r.bucket_key → k ≠ r.request_key →
        (r.decide s.db s.now).2 k = s.db k :=
      fun k hb hm => decide_other (hdistinct.kinds r hr r hr) hb hm
    refine ⟨h.now, ?_, fun r' hr' hsame => ?_⟩
    · have hb : r₀.bucket_key ≠ r.bucket_key := by
        intro heq
        rw [(hdistinct.bucket r hr r₀ hr₀).mp heq.symm] at hne
        cases hne
      exact (hkept _ hb (hdistinct.kinds r₀ hr₀ r hr)).trans h.bucket
    · have hm : r'.request_key ≠ r.request_key := by
        intro heq
        obtain ⟨hkey, hwindow⟩ := sameBucket_iff.mp ((hdistinct.request r hr r' hr').mp heq.symm).1
        obtain ⟨hkey', hwindow'⟩ := sameBucket_iff.mp hsame
        rw [sameBucket_iff.mpr ⟨hkey.trans hkey', hwindow.trans hwindow'⟩] at hne
        cases hne
      exact (hkept _ (hdistinct.kinds r hr r' hr').symm hm).trans (h.request r' hr' hsame)
  | @first _ _ r _ hrequest hsame =>
    rw [concerns, hrequest, Option.any_some, hsame] at hother
    cases hother

/-- An event that concerns the bucket keeps the agreement. -/
theorem agree_concerns (hdistinct : Distinct (requests env ns calls))
    (hr₀ : r₀ ∈ requests env ns calls) (h : Agree (requests env ns calls) r₀ s t) {u : RateServer}
    (hcall : ∀ c, e.call? = some c → c ∈ calls) (hconcerns : concerns env ns r₀ e = true)
    (he : s.exec env ns e = some u) :
    ∃ u', t.exec env ns e = some u' ∧ Agree (requests env ns calls) r₀ u u' := by
  cases e with
  | tick now =>
    simp only [RateServer.exec, Option.ite_none_right_eq_some, Option.some.injEq] at he
    obtain ⟨hnow, rfl⟩ := he
    refine ⟨{ t with now }, ?_, ⟨rfl, h.bucket, h.request⟩⟩
    simp only [RateServer.exec, if_pos (h.now ▸ hnow)]
  | call c fate =>
    simp only [RateServer.exec, Option.some.injEq] at he
    subst he
    refine ⟨_, rfl, ?_⟩
    cases hrequest : prepare env ns c with
    | none =>
      rw [concerns, hrequest] at hconcerns
      cases hconcerns
    | some r =>
      have hsame : r.sameBucket r₀ = true := by
        rwa [concerns, hrequest, Option.any_some] at hconcerns
      have hr : r ∈ requests env ns calls := ⟨c, hcall c rfl, hrequest⟩
      obtain ⟨-, hkept⟩ := h.decide hdistinct hr₀ hr hsame
      simp only [allow, hrequest]
      split
      · exact ⟨h.now, hkept _ h.bucket, fun r' hr' hsame' => hkept _ (h.request r' hr' hsame')⟩
      · exact ⟨h.now, h.bucket, h.request⟩

/-- A run without the calls for other buckets ends in agreement. -/
theorem agree_run (hdistinct : Distinct (requests env ns calls)) (hr₀ : r₀ ∈ requests env ns calls)
    (hcalls : Among calls es) (hrun : execAll (RateServer.exec env ns) s es = some t) :
    ∃ t', execAll (RateServer.exec env ns) s (es.filter (concerns env ns r₀)) = some t' ∧
      Agree (requests env ns calls) r₀ t t' := by
  refine trace_invariant (I := fun es t => Among calls es →
    ∃ t', execAll (RateServer.exec env ns) s (es.filter (concerns env ns r₀)) = some t' ∧
      Agree (requests env ns calls) r₀ t t') (fun _ => ⟨s, rfl, rfl, rfl, fun _ _ _ => rfl⟩) ?_
    hrun hcalls
  intro past u e t hu ih he hamong
  obtain ⟨u', hu', hagree⟩ := ih hamong.snoc.1
  rw [List.filter_append]
  cases hconcerns : concerns env ns r₀ e with
  | true =>
    obtain ⟨t', ht', hagree'⟩ :=
      agree_concerns hdistinct hr₀ hagree hamong.snoc.2 hconcerns he
    rw [List.filter_cons_of_pos hconcerns, List.filter_nil]
    exact ⟨t', execAll_snoc.mpr ⟨u', hu', ht'⟩, hagree'⟩
  | false =>
    rw [List.filter_cons_of_neg (by simp [hconcerns]), List.filter_nil, List.append_nil]
    cases e with
    | tick now => cases hconcerns
    | call c fate =>
      exact ⟨u', hu', agree_other hdistinct hr₀ hagree (hamong.snoc.2 c rfl) hconcerns he⟩

/-- **Rate limiting with safe replay.** Take any calls whose hashed texts do not collide, and one of
them; let all of them for its key and its window have its limit. Then from any state of the server:
during a lifetime of the bucket, that is up to the next request that finds it expired, at most the
limit of requests are allowed by their first decision; once a request is decided on, it is
decided on in the same way while its marker is alive, and nothing changes; and the calls for other
keys or windows do not change the answers to any request of the bucket. -/
theorem rate_limit_replay (env : RateEnv W) (ns : RedisNamespace) (calls : Set (RateCall W))
    (hsha : env.sha.CollisionFree (⋃ r ∈ requests env ns calls, r.texts env))
    (c₀ : RateCall W) (r₀ : RateRequest) (hc₀ : c₀ ∈ calls) (hr₀ : prepare env ns c₀ = some r₀)
    (hlimit : ∀ r ∈ requests env ns calls, r.sameBucket r₀ = true → r.limit = r₀.limit)
    (s : RateServer) :
    (∀ e es u t, Among calls (e :: es) → s.exec env ns e = some u →
      execAll (RateServer.exec env ns) u es = some t →
      ¬ Happens (RateServer.exec env ns) u es (Renews env ns r₀) →
      ((visits (RateServer.exec env ns) s (e :: es)).filterMap (granted? env ns r₀)).length ≤
        r₀.limit) ∧
    (∀ fate es t c r, firstDecision? env ns r₀ s (.call c₀ fate) = some r₀ → Among calls es →
      execAll (RateServer.exec env ns) s (.call c₀ fate :: es) = some t →
      t.now ≤ s.now + r₀.window_ms → c ∈ calls → prepare env ns c = some r →
      r.sameBucket r₀ = true → r.request_id = r₀.request_id →
      r.decide t.db t.now = ((r₀.decide s.db s.now).1, t.db) ∧
      allow env ns c .answered t.db t.now =
        (some (scriptResult (r₀.decide s.db s.now).1), t.db)) ∧
    (∀ es t, Among calls es → execAll (RateServer.exec env ns) s es = some t →
      ∃ t', execAll (RateServer.exec env ns) s (es.filter (concerns env ns r₀)) = some t' ∧
        ∀ c ∈ calls, ∀ fate, concerns env ns r₀ (.call c fate) = true →
          (allow env ns c fate t'.db t'.now).1 = (allow env ns c fate t.db t.now).1) := by
  have hdistinct : Distinct (requests env ns calls) := requests_distinct hsha
  have hmem : r₀ ∈ requests env ns calls := ⟨c₀, hc₀, hr₀⟩
  refine ⟨?_, ?_, ?_⟩
  · intro e es u t hcalls he hrun hrenews
    exact (lifetime_within hdistinct hmem hlimit hcalls he hrun hrenews).1
  · intro fate es t c r hfirst hcalls hrun hlive hc hr hsame hid
    have hmarker : s.db.get s.now r₀.request_key = none ∧ fate.executes = true := by
      obtain ⟨-, hchecks⟩ := Option.filter_eq_some_iff.mp hfirst
      simp only [Bool.and_eq_true, Option.isNone_iff_eq_none] at hchecks
      exact ⟨hchecks.2, hchecks.1.1⟩
    obtain ⟨u, hu, hrest⟩ := Option.bind_eq_some_iff.mp hrun
    -- The first decision leaves the marker, which stays while it is alive.
    have hmarked : u.db r₀.request_key =
        some ⟨(r₀.decide s.db s.now).1, some (s.now + r₀.window_ms)⟩ := by
      simp only [RateServer.exec, allow, hr₀, hmarker.2, if_true, Option.some.injEq] at hu
      subst hu
      exact (decide_first (hdistinct.kinds r₀ hmem r₀ hmem) hmarker.1).2.2.1
    have hstays := marked_run hdistinct hmem hmarked hcalls hrest hlive
    have hkey : r.request_key = r₀.request_key :=
      (hdistinct.request r ⟨c, hc, hr⟩ r₀ hmem).mpr ⟨hsame, hid⟩
    have hget : t.db.get t.now r.request_key =
        some ⟨(r₀.decide s.db s.now).1, some (s.now + r₀.window_ms)⟩ := by
      rw [hkey, Keyspace.get, hstays, Option.filter_some, if_pos (by simpa using hlive)]
    have hagain := decide_again hget
    refine ⟨hagain, ?_⟩
    simp only [allow, hr, hagain, Fate.executes, if_true]
    rfl
  · intro es t hcalls hrun
    obtain ⟨t', ht', hagree⟩ := agree_run hdistinct hmem hcalls hrun
    refine ⟨t', ht', fun c hc fate hconcerns => ?_⟩
    cases hr : prepare env ns c with
    | none =>
      rw [concerns, hr] at hconcerns
      cases hconcerns
    | some r =>
      have hsame : r.sameBucket r₀ = true := by rwa [concerns, hr, Option.any_some] at hconcerns
      have hdecision := (hagree.decide hdistinct hmem ⟨c, hc, hr⟩ hsame).1
      simp only [allow, hr, hdecision]

end Runs

/-! ## A request that comes again -/

/-- The hashes of the texts below; other texts are not hashed. -/
def plainDigests : List (String × String) :=
  [("production\x1ftenant\x1ftenant-a\x1f\x1f",
      "dfeeb4b926a5180fcbda59f987aee2594c1d59c7e60557fad056ace73539cd7b"),
    ("chat\x1f60000", "b365bc0e6dba6f553fff95a1b1f19e449e43b7a5eb2476a8a9b6424be2a45cc6"),
    ("b365bc0e6dba6f553fff95a1b1f19e449e43b7a5eb2476a8a9b6424be2a45cc6",
      "3da7358ce7c165b5161586a6cb4be1d24de9cb59d69aec0b731554d96c7c9841"),
    ("b365bc0e6dba6f553fff95a1b1f19e449e43b7a5eb2476a8a9b6424be2a45cc6:request-1",
      "53b55975e4309e93d4dea2b553cf8c32543c25e391a6adf02bc2b6116283a4e0"),
    ("b365bc0e6dba6f553fff95a1b1f19e449e43b7a5eb2476a8a9b6424be2a45cc6:request-2",
      "55323db2480aa1bd2a0f7e27a8f691bc6aea7d63b90985376b33a1559b899f74")]

/-- The digest of a text. -/
def plainDigest (text : String) : String :=
  (plainDigests.lookup text).getD (String.ofList (List.replicate 64 '0'))

/-- A digest is one of the list, or zeros. -/
theorem plainDigest_mem (text : String) :
    plainDigest text ∈ String.ofList (List.replicate 64 '0') :: plainDigests.map Prod.snd := by
  unfold plainDigest
  cases h : plainDigests.lookup text with
  | none => exact List.mem_cons_self
  | some digest =>
    obtain ⟨before, after, hsplit, -⟩ := List.lookup_eq_some_iff.mp h
    refine List.mem_cons_of_mem _ (List.mem_map.mpr ⟨(text, digest), ?_, rfl⟩)
    rw [hsplit]
    simp

/-- SHA-256 on the texts below. -/
def plainSha : Sha256 where
  hexdigest := plainDigest
  length text := by
    have hall : ∀ digest ∈ String.ofList (List.replicate 64 '0') :: plainDigests.map Prod.snd,
        digest.toList.length = 64 := by decide +kernel
    exact hall _ (plainDigest_mem text)
  digits text := by
    have hall : ∀ digest ∈ String.ofList (List.replicate 64 '0') :: plainDigests.map Prod.snd,
        digest.toList.all (fun c => isDigitAscii c || ('a' ≤ c && c ≤ 'f')) = true := by
      decide +kernel
    exact hall _ (plainDigest_mem text)

/-- Windows of whole seconds. -/
def plainEnv : RateEnv ℕ where
  isalnum := Char.isAlphanum
  validatedWindow n := if 1 ≤ n ∧ n ≤ 86400 then some (n * 1000) else none
  sha := plainSha

/-- The namespace of a tenant. -/
def plainNamespace : RedisNamespace :=
  ⟨some "tenant-a", none, none, "rick", "production", .tenant, by decide +kernel⟩

/-- A request for one token a minute. -/
def plainRequest (request_id : String) : RateCall ℕ :=
  ⟨"chat", 1, 60, some request_id, none, ""⟩

/-- The calls of two requests. -/
def plainCalls : Set (RateCall ℕ) := {c | c ∈ [plainRequest "request-1", plainRequest "request-2"]}

/-- What the script is called with for a request, with the fingerprint of its marker. -/
def preparedRequest (request_id fingerprint : String) : RateRequest :=
  ⟨"chat", 60000, 1, request_id,
    "\x7brick:v1:production:s:dfeeb4b926a5180fcbda59f987aee259\x7d:rate-bucket:k:" ++
      "3da7358ce7c165b5161586a6cb4be1d2",
    "\x7brick:v1:production:s:dfeeb4b926a5180fcbda59f987aee259\x7d:rate-request:k:" ++
      fingerprint⟩

/-- What the script is called with for the first request. -/
def firstRequest : RateRequest := preparedRequest "request-1" "53b55975e4309e93d4dea2b553cf8c32"

/-- The first request passes the checks. -/
theorem prepare_first :
    prepare plainEnv plainNamespace (plainRequest "request-1") = some firstRequest := by
  decide +kernel

/-- The second request passes the checks. -/
theorem prepare_second :
    prepare plainEnv plainNamespace (plainRequest "request-2") =
      some (preparedRequest "request-2" "55323db2480aa1bd2a0f7e27a8f691bc") := by
  decide +kernel

/-- The requests are for one bucket, with one limit. -/
theorem plainCalls_requests {r : RateRequest} (h : r ∈ requests plainEnv plainNamespace plainCalls) :
    ∃ id ∈ ["request-1", "request-2"], r.key = "chat" ∧ r.window_ms = 60000 ∧ r.limit = 1 ∧
      r.request_id = id := by
  obtain ⟨c, hc, hr⟩ := h
  rcases List.mem_pair.mp hc with rfl | rfl
  · cases prepare_first.symm.trans hr
    exact ⟨"request-1", by simp, rfl, rfl, rfl, rfl⟩
  · cases prepare_second.symm.trans hr
    exact ⟨"request-2", by simp, rfl, rfl, rfl, rfl⟩

/-- The texts of the two requests do not collide. -/
theorem plainCalls_collisionFree :
    plainEnv.sha.CollisionFree
      (⋃ r ∈ requests plainEnv plainNamespace plainCalls, r.texts plainEnv) := by
  have htexts : ∀ id ∈ ["request-1", "request-2"],
      [bucketText "chat" 60000, bucketMaterial plainEnv "chat" 60000,
        requestMaterial plainEnv "chat" 60000 id] ⊆ plainDigests.map Prod.fst := by
    decide +kernel
  have hinj := List.inj_on_of_nodup_map
    (show ((plainDigests.map Prod.fst).map plainSha.fingerprint).Nodup by decide +kernel)
  have hmem : ∀ t ∈ ⋃ r ∈ requests plainEnv plainNamespace plainCalls, r.texts plainEnv,
      t ∈ plainDigests.map Prod.fst := by
    intro t ht
    obtain ⟨r, hr, htext⟩ := Set.mem_iUnion₂.mp ht
    obtain ⟨id, hid, hkey, hwindow, -, hrequest⟩ := plainCalls_requests hr
    apply htexts id hid
    rw [RateRequest.texts, hkey, hwindow, hrequest] at htext
    simpa using htext
  intro a ha b hb hab
  exact hinj (hmem a ha) (hmem b hb) hab

/-- The first request is allowed, the second refused, and the window passes. -/
def replayEvents : List (RateEvent ℕ) :=
  [.call (plainRequest "request-1") (.unanswered .timeout),
    .call (plainRequest "request-2") .answered, .tick 60000]

/-- The server after these events. -/
def replayServer : RateServer :=
  (execAll (RateServer.exec plainEnv plainNamespace) ⟨fun _ => none, 0⟩ replayEvents).getD
    ⟨fun _ => none, 0⟩

/-- The first request comes again, and is allowed as before. -/
theorem replayServer_allows :
    (allow plainEnv plainNamespace (plainRequest "request-1") .answered replayServer.db
      replayServer.now).1 = some true := by
  have hlimit : ∀ r ∈ requests plainEnv plainNamespace plainCalls,
      r.sameBucket firstRequest = true → r.limit = firstRequest.limit := by
    intro r hr _
    obtain ⟨-, -, -, -, hone, -⟩ := plainCalls_requests hr
    exact hone
  have hfirst : firstDecision? plainEnv plainNamespace firstRequest ⟨fun _ => none, 0⟩
      (.call (plainRequest "request-1") (.unanswered .timeout)) = some firstRequest := by
    rw [firstDecision?, prepare_first]
    rfl
  have hreplay := (rate_limit_replay plainEnv plainNamespace plainCalls plainCalls_collisionFree
    (plainRequest "request-1") firstRequest (by simp [plainCalls]) prepare_first hlimit
    ⟨fun _ => none, 0⟩).2.1 (.unanswered .timeout)
    [.call (plainRequest "request-2") .answered, .tick 60000] replayServer
    (plainRequest "request-1") firstRequest hfirst
    (by simp [Among, RateEvent.call?, plainCalls]) rfl le_rfl (by simp [plainCalls])
    prepare_first rfl rfl
  rw [hreplay.2]
  rfl

end RickIntelligence.Locking
