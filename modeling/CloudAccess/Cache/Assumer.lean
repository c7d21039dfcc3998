import CloudAccess.Cache.Basic
import CloudAccess.Credential.Builder

/-!
# Planned assumptions

A cache together with a plan of how the next assumptions of its role end, and
when.  Each assumption takes the first entry of the plan; once the plan is
used up, assumptions are refused.

* `PlannedAssumption.answer` is the answer that an entry gives.
* `PlannedCache.ready` says whether a retrieval can go on at a unit of time,
  and `PlannedCache.step` lets it go on.
-/

namespace CloudAccess

/-- When planned credentials expire: never, at an instant, or some time after
the role was assumed. -/
inductive PlannedExpiry
  | never
  | fixed (i : Instant)
  | after (ttl : Span)
  deriving DecidableEq, Repr

/-- How an assumption will go: it takes `delay` units, moves the first clock,
and then crashes, is refused, or brings what was given of a credential set. -/
structure PlannedAssumption where
  delay : Nat := 0
  advance : Option Span := none
  crashes : Bool := false
  error : Option String := none
  accessKeyId : Option String := none
  secretAccessKey : Option String := none
  sessionToken : Option String := none
  expiry : PlannedExpiry := .never
  deriving DecidableEq, Repr

namespace PlannedAssumption

/-- The expiry of the planned credentials when the role is assumed at `now`;
there is none when it lies outside the calendar. -/
def expiresAt? (p : PlannedAssumption) (now : Instant) :
    Option (Option Instant) :=
  match p.expiry with
  | .never => some none
  | .fixed i => some (some i)
  | .after ttl => (now.add? ttl).map some

/-- The answer of a planned assumption of the role at `now`.  It crashes when
credentials were to be brought that expire outside the calendar. -/
def answer (p : PlannedAssumption) (now : Instant) : Outcome CredentialSet :=
  if p.crashes then .crashed
  else
    match p.error, p.expiresAt? now with
    | some e, _ => .failed ⟨e, []⟩
    | none, none => .crashed
    | none, some expiresAt =>
      let parts : CredentialBuilder :=
        ⟨p.accessKeyId, p.secretAccessKey.map Secret.mk,
          p.sessionToken.map Secret.mk, expiresAt⟩
      match parts.build with
      | .ok c => .value c
      | .error e => .failed ⟨e.message, []⟩

end PlannedAssumption

/-- An assumption under way for a retrieval. -/
structure Flight where
  retrieval : Nat
  due : Nat
  advance : Option Span
  answer : Outcome CredentialSet

/-- A cache, the plan of its next assumptions, the requests that were sent,
and the assumptions under way. -/
structure PlannedCache where
  cache : Cache
  plan : List PlannedAssumption
  sent : List Request := []
  flights : List Flight := []

namespace PlannedCache

/-- The message when the plan is used up. -/
def exhausted : RemoteError := ⟨"no more outcomes", []⟩

/-- Carries out an action on the cache. -/
def act (p : PlannedCache) (a : Cache.Action) : PlannedCache :=
  { p with cache := p.cache.act a }

/-- The reading of the first clock. -/
def firstReading (p : PlannedCache) : Instant := p.cache.now {}

/-- The number of the next retrieval. -/
def nextRetrieval (p : PlannedCache) : Nat := p.cache.retrievals.length

/-- The assumption under way for a retrieval. -/
def flight? (p : PlannedCache) (i : Nat) : Option Flight :=
  p.flights.find? (·.retrieval = i)

/-- The retrieval with the lowest number of those that wait for the guard.  When
a batch is run its retrievals begin to wait in the order of their numbers, so
that this is the one that has waited longest; in another order of their steps
it need not be. -/
def firstWaiting? (p : PlannedCache) : Option Nat :=
  p.cache.retrievals.findIdx? fun r => r.phase = .waiting && r.fate.isNone

/-- Whether a retrieval can go on at a unit of time.  The guard goes to the
one with the lowest number. -/
def ready (p : PlannedCache) (unit i : Nat) : Bool :=
  match p.cache.retrievals[i]? with
  | some ⟨_, .started, none⟩ => true
  | some ⟨_, .waiting, none⟩ =>
    p.cache.guard.isNone && p.firstWaiting? == some i
  | some ⟨_, .assuming, none⟩ => (p.flight? i).any (·.due ≤ unit)
  | _ => false

/-- The unit at which the assumption of a retrieval ends. -/
def due (p : PlannedCache) (i : Nat) : Option Nat :=
  match p.cache.retrievals[i]? with
  | some ⟨_, .assuming, none⟩ => (p.flight? i).map (·.due)
  | _ => none

/-- Sends the request of a retrieval that has begun to assume the role. -/
def send (p : PlannedCache) (unit i : Nat) : PlannedCache :=
  let p := { p with sent := p.sent ++ [p.cache.request] }
  match p.plan with
  | [] => { p with flights := ⟨i, unit, none, .failed exhausted⟩ :: p.flights }
  | next :: plan =>
    { p with
      plan := plan
      flights :=
        ⟨i, unit + next.delay, next.advance, next.answer p.firstReading⟩ ::
        p.flights }

/-- Ends an assumption: the first clock moves as planned, and the retrieval
gets its answer.  No other clock moves, and the first one at no other moment.
The assumption crashes when the clock would leave the calendar. -/
def land (p : PlannedCache) (f : Flight) : PlannedCache :=
  let p := { p with flights := p.flights.filter (·.retrieval ≠ f.retrieval) }
  match f.advance with
  | none => p.act (.settle f.retrieval f.answer)
  | some span =>
    match p.firstReading.add? span with
    | none => p.act (.settle f.retrieval .crashed)
    | some now => (p.act (.setClock 0 now)).act (.settle f.retrieval f.answer)

/-- Lets a retrieval go on. -/
def step (p : PlannedCache) (unit i : Nat) : PlannedCache :=
  match p.cache.retrievals[i]? with
  | some ⟨_, .started, none⟩ => p.act (.enter i)
  | some ⟨_, .waiting, none⟩ =>
    let p := p.act (.acquire i)
    match p.cache.retrievals[i]? with
    | some ⟨_, .assuming, none⟩ => p.send unit i
    | _ => p
  | some ⟨_, .assuming, none⟩ =>
    match p.flight? i with
    | some f => p.land f
    | none => p
  | _ => p

/-- Gives up a retrieval and its assumption. -/
def drop (p : PlannedCache) (i : Nat) : PlannedCache :=
  { p.act (.drop i) with flights := p.flights.filter (·.retrieval ≠ i) }

/-- How a retrieval has ended, if it has. -/
def fate? (p : PlannedCache) (i : Nat) : Option Retrieval.Fate :=
  p.cache.retrievals[i]?.bind (·.fate)

theorem reaches_act (p : PlannedCache) (a : Cache.Action) :
    p.cache.Reaches (p.act a).cache := Cache.reaches_act p.cache a

/-- Sending a request leaves the cache as it is. -/
@[simp] theorem cache_send (p : PlannedCache) (unit i : Nat) :
    (p.send unit i).cache = p.cache := by
  unfold send
  dsimp only
  split <;> rfl

theorem reaches_land (p : PlannedCache) (f : Flight) :
    p.cache.Reaches (p.land f).cache := by
  unfold land
  dsimp only
  split
  · exact Cache.reaches_act p.cache (.settle f.retrieval f.answer)
  · split
    · exact Cache.reaches_act p.cache (.settle f.retrieval .crashed)
    · rename_i now _
      exact (Cache.reaches_act p.cache (.setClock 0 now)).trans
        (Cache.reaches_act _ (.settle f.retrieval f.answer))

/-- Whatever a retrieval does, it acts on the cache. -/
theorem reaches_step (p : PlannedCache) (unit i : Nat) :
    p.cache.Reaches (p.step unit i).cache := by
  unfold step
  split
  · exact reaches_act p _
  · dsimp only
    split
    · rw [cache_send]
      exact reaches_act p _
    · exact reaches_act p _
  · split
    · exact reaches_land p _
    · exact .refl
  · exact .refl

end PlannedCache

end CloudAccess
