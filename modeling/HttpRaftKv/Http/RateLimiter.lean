import HttpRaftKv.Http.Middleware
import HttpRaftKv.Lib.Runs
import HttpRaftKv.Lib.SlidingLog
import Mathlib.Data.Int.Notation
import Mathlib.Data.List.Pairwise
import Mathlib.Algebra.Group.Int.Defs
import Mathlib.Algebra.Order.Group.Int
import Mathlib.Logic.Function.Basic

/-!
# The rate limiter

A request is limited by the configuration of its route, and the limiter that counts it
is looked up by a key that the dimension of this configuration makes from the request.
A limiter is created at the first request with its key, with the limits of the
configuration of this request.

Times are those of the steady clock, in nanoseconds.
-/

namespace HttpRaftKv.Http

inductive RateLimiterConfig.Algorithm
  | tokenBucket
  | slidingWindow
deriving DecidableEq, Repr

inductive RateLimiterConfig.Dimension
  | global
  | perIP
  | perRoute
  | perUser
deriving DecidableEq, Repr

/-- The window is in milliseconds.  The configurations of routes are in the order in
which the unordered map is walked. -/
structure RateLimiterConfig where
  algorithm : RateLimiterConfig.Algorithm := .tokenBucket
  dimension : RateLimiterConfig.Dimension := .perIP
  bucketCapacity : Float := 5
  refillRate : Float := 2
  maxRequests : ℕ := 10
  windowSize : ℤ := 30000
  routeConfigs : List (Bytes × RateLimiterConfig) := []

def RateLimiterConfig.defaultConfig : RateLimiterConfig where
  algorithm := .tokenBucket
  dimension := .perIP
  bucketCapacity := 5
  refillRate := 2

structure TokenBucket where
  capacity : Float
  tokens : Float
  refillRate : Float
  lastRefill : ℤ

namespace TokenBucket

/-- At first the bucket is full. -/
def create (capacity refillRate : Float) (now : ℤ) : TokenBucket where
  capacity := capacity
  tokens := capacity
  refillRate := refillRate
  lastRefill := now

def refill (b : TokenBucket) (now : ℤ) : TokenBucket :=
  let elapsed := Float.ofInt (now - b.lastRefill) / 1000000000
  let newTokens := elapsed * b.refillRate
  { b with
    tokens := if b.tokens + newTokens < b.capacity then b.tokens + newTokens else b.capacity
    lastRefill := now }

def tryConsume (b : TokenBucket) (now : ℤ) : Bool × TokenBucket :=
  let b := b.refill now
  if 1 ≤ b.tokens then (true, { b with tokens := b.tokens - 1 }) else (false, b)

end TokenBucket

/-- The times of the requests are in a deque, the earliest at its front. -/
structure SlidingWindow where
  maxRequests : ℕ
  windowSize : ℤ
  requests : List ℤ
deriving DecidableEq, Repr

namespace SlidingWindow

def create (maxRequests : ℕ) (windowSize : ℤ) : SlidingWindow where
  maxRequests := maxRequests
  windowSize := windowSize
  requests := []

/-- The start of a window of so many milliseconds that ends at the time. -/
def windowStart (windowSize now : ℤ) : ℤ := now - windowSize * 1000000

def cleanup (w : SlidingWindow) (now : ℤ) : SlidingWindow :=
  { w with requests := w.requests.dropWhile fun t ↦ t < windowStart w.windowSize now }

/-- The clock is read in `cleanup` and once more for the record of the request. -/
def tryAccept (w : SlidingWindow) (now later : ℤ) : Bool × SlidingWindow :=
  let w := w.cleanup now
  if w.requests.length < w.maxRequests then
    (true, { w with requests := w.requests ++ [later] })
  else (false, w)

end SlidingWindow

/-- A request with the address of its client and the two readings of the clock while
the limiter is asked. -/
structure Arrival where
  request : HttpRequest
  clientIP : Bytes
  now : ℤ
  later : ℤ
  le : now ≤ later

namespace RateLimiterMiddleware

/-- The limiters, by their keys. -/
structure Limiters where
  tokenBuckets : Bytes → Option TokenBucket
  slidingWindows : Bytes → Option SlidingWindow

def Limiters.empty : Limiters where
  tokenBuckets := fun _ ↦ none
  slidingWindows := fun _ ↦ none

def getLimiterKey (x : Arrival) : RateLimiterConfig.Dimension → Bytes
  | .global => ascii "__global__"
  | .perIP => ascii "ip:" ++ x.clientIP
  | .perRoute => ascii "route:" ++ x.request.path
  | .perUser => ascii "user:anonymous"

def getOrCreateLimiter (s : Limiters) (key : Bytes) (config : RateLimiterConfig) (now : ℤ) :
    TokenBucket ⊕ SlidingWindow :=
  match config.algorithm with
  | .tokenBucket =>
      .inl ((s.tokenBuckets key).getD (.create config.bucketCapacity config.refillRate now))
  | .slidingWindow =>
      .inr ((s.slidingWindows key).getD (.create config.maxRequests config.windowSize))

def isAllowed (s : Limiters) (key : Bytes) (config : RateLimiterConfig) (now later : ℤ) :
    Bool × Limiters :=
  match getOrCreateLimiter s key config now with
  | .inl bucket =>
      let (allowed, bucket) := bucket.tryConsume later
      (allowed, { s with tokenBuckets := Function.update s.tokenBuckets key (some bucket) })
  | .inr window =>
      let (allowed, window) := window.tryAccept now later
      (allowed, { s with slidingWindows := Function.update s.slidingWindows key (some window) })

/-- The entry of the route, if the path begins with that of one. -/
def routeEntry (config : RateLimiterConfig) (path : Bytes) : Option (Bytes × RateLimiterConfig) :=
  config.routeConfigs.find? fun p ↦ p.1.isPrefixOf path

def getConfigForRoute (config : RateLimiterConfig) (path : Bytes) : RateLimiterConfig :=
  ((routeEntry config path).map Prod.snd).getD config

/-- No path of a route is the start of another one. -/
def NonPrefix (p q : Bytes × RateLimiterConfig) : Prop :=
  ¬ p.1 <+: q.1 ∧ ¬ q.1 <+: p.1

instance : Std.Symm NonPrefix := ⟨fun _ _ h ↦ h.symm⟩

theorem isPrefix_of_routeEntry {config : RateLimiterConfig} {path : Bytes}
    {e : Bytes × RateLimiterConfig} (h : routeEntry config path = some e) : e.1 <+: path := by
  unfold routeEntry at h
  have hfound := List.find?_some h
  exact List.isPrefixOf_iff_prefix.mp hfound

/-- Then the order in which the map is walked makes no difference. -/
theorem routeEntry_eq_some_iff {config : RateLimiterConfig}
    (hpaths : config.routeConfigs.Pairwise NonPrefix) {path : Bytes}
    {e : Bytes × RateLimiterConfig} :
    routeEntry config path = some e ↔ e ∈ config.routeConfigs ∧ e.1 <+: path := by
  constructor
  · intro h
    exact ⟨List.mem_of_find?_eq_some h, isPrefix_of_routeEntry h⟩
  · rintro ⟨hmem, hprefix⟩
    cases he : routeEntry config path with
    | none =>
        have hnot := List.find?_eq_none.mp he e hmem
        exact absurd (List.isPrefixOf_iff_prefix.mpr hprefix) hnot
    | some e' =>
        by_contra hne
        have hapart : NonPrefix e e' := hpaths.forall hmem (List.mem_of_find?_eq_some he)
          fun heq ↦ hne (congrArg some heq.symm)
        rcases List.prefix_or_prefix_of_prefix hprefix (isPrefix_of_routeEntry he) with h | h
        · exact hapart.1 h
        · exact hapart.2 h

/-- What `before` throws, if anything, and the limiters behind it. -/
def beforeRequest (config : RateLimiterConfig) (s : Limiters) (x : Arrival) :
    Option HttpResponse × Limiters :=
  let requestConfig := getConfigForRoute config x.request.path
  let key := getLimiterKey x requestConfig.dimension
  let (allowed, s) := isAllowed s key requestConfig x.now x.later
  (before allowed x.request, s)

end RateLimiterMiddleware

end HttpRaftKv.Http
