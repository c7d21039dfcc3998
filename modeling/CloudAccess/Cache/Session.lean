import CloudAccess.Cache.Batch

/-!
# Sessions with a cache

A cache is used through numbered handles.  New handles are made from old
ones; they share the slot, the guard, the metrics and the plan of assumptions,
and each has a window and a clock of its own.

`CacheSession.apply` carries out one operation and says what the caller gets
to see of it.  The only operations that are refused name a handle or a clock
that does not exist.
-/

namespace CloudAccess

/-- An operation through one handle. -/
inductive CacheOp
  | retrieve
  | retrieveMany (handles : List Nat)
  | retrieveWithin (units : Nat)
  | advance (clock : Nat) (span : Span)
  | set (clock : Nat) (now : Instant)
  | invalidate
  | peek
  | request
  | debug
  | copy
  | withWindow (window : Span)
  | withClock (now : Instant)

/-- What a caller gets to see of an operation. -/
inductive CacheReply
  | done
  | overflow
  | retrieval (fate : Option Retrieval.Fate)
  | retrievals (fates : List (Option Retrieval.Fate))
  | slot (c : Option CredentialSet)
  | request (r : Request)
  | text (s : String)
  | handle (i : Nat)
  | handleAndClock (i clock : Nat)

/-- What an operation names that does not exist. -/
inductive Absent
  | handle
  | clock
  deriving DecidableEq, Repr

/-- A cache with a plan of assumptions, and the handles to it. -/
structure CacheSession where
  scene : PlannedCache
  handles : List Handle

/-- A cache as diagnostic messages show it through a handle. -/
def Cache.debugText (s : Cache) (h : Handle) : String :=
  "CredentialCache \x7b request: " ++ s.request.debugText ++
    ", expiry_window: " ++ (s.window h).debugText ++
    ", cached: " ++ (if s.slot.isSome then "true" else "false") ++ " \x7d"

namespace CacheSession

/-- A session with an empty cache and one handle, whose clock shows `now`. -/
def start (request : Request) (now : Instant) (window : Option Span)
    (plan : List PlannedAssumption) : CacheSession where
  scene := { cache := .unused request [now], plan := plan }
  handles := [{ asked := window.getD .zero }]

/-- The cache of a session. -/
def cache (s : CacheSession) : Cache := s.scene.cache

/-- Carries out an action on the cache. -/
def act (s : CacheSession) (a : Cache.Action) : CacheSession :=
  { s with scene := s.scene.act a }

/-- Adds a handle. -/
def addHandle (s : CacheSession) (h : Handle) : CacheSession :=
  { s with handles := s.handles ++ [h] }

/-- Adds a clock that shows `now`. -/
def addClock (s : CacheSession) (now : Instant) : CacheSession :=
  s.act (.addClock now)

/-- Retrieves through several handles at once; what was not brought to an end
before the deadline is given up. -/
def retrieveAll (s : CacheSession) (handles : List Handle)
    (deadline : Option Nat) :
    CacheSession × List (Option Retrieval.Fate) :=
  let batch := (Batch.start s.scene handles deadline).run
  ({ s with scene := batch.scene }, batch.fates)

/-- Retrieves through one handle. -/
def retrieveOne (s : CacheSession) (h : Handle) (deadline : Option Nat) :
    CacheSession × CacheReply :=
  let (s, fates) := s.retrieveAll [h] deadline
  (s, .retrieval fates.head?.join)

/-- Carries out an operation through the handle `h`. -/
def applyTo (s : CacheSession) (h : Handle) :
    CacheOp → Except Absent (CacheSession × CacheReply)
  | .retrieve => .ok (s.retrieveOne h none)
  | .retrieveWithin units => .ok (s.retrieveOne h (some units))
  | .retrieveMany numbers =>
    match numbers.mapM (s.handles[·]?) with
    | none => .error .handle
    | some handles =>
      let (s, fates) := s.retrieveAll handles none
      .ok (s, .retrievals fates)
  | .advance clock span =>
    match s.cache.clocks[clock]? with
    | none => .error .clock
    | some now =>
      match now.add? span with
      | none => .ok (s, .overflow)
      | some now => .ok (s.act (.setClock clock now), .done)
  | .set clock now =>
    if clock < s.cache.clocks.length
      then .ok (s.act (.setClock clock now), .done)
    else .error .clock
  | .invalidate => .ok (s.act .invalidate, .done)
  | .peek => .ok (s, .slot s.cache.slot)
  | .request => .ok (s, .request s.cache.request)
  | .debug => .ok (s, .text (s.cache.debugText h))
  | .copy => .ok (s.addHandle h, .handle s.handles.length)
  | .withWindow window =>
    .ok (s.addHandle { h with asked := window }, .handle s.handles.length)
  | .withClock now =>
    .ok ((s.addClock now).addHandle { h with clock := s.cache.clocks.length },
      .handleAndClock s.handles.length s.cache.clocks.length)

/-- Carries out an operation through a numbered handle. -/
def apply (s : CacheSession) (handle : Nat) (op : CacheOp) :
    Except Absent (CacheSession × CacheReply) :=
  match s.handles[handle]? with
  | none => .error .handle
  | some h => s.applyTo h op

end CacheSession

end CloudAccess
