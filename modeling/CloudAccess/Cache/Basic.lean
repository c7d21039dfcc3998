import CloudAccess.Ledger
import CloudAccess.Outcome
import CloudAccess.Reaches
import CloudAccess.Request

/-!
# The credential cache

A cache keeps the credential set of one role in a slot and hands it out as
long as it is fresh.  When it is not, a retrieval waits for the guard of the
cache, looks again, and only then assumes the role, so that at most one
assumption is under way.

Many retrievals work on one cache at a time, through handles that share the
slot, the guard and the metrics and differ in their clock and window.

* `Cache.act` carries out one action on a cache; an action that does not
  apply to how far its retrieval has come changes nothing.
* `Cache.Step` lets any action happen, in whatever order, and `Cache.Reaches`
  follows such steps.
-/

namespace CloudAccess

/-- What a cache counts: sets handed out from the slot, assumptions begun, and
assumptions that failed or brought an expired set. -/
structure Metrics where
  hits : Nat := 0
  refreshes : Nat := 0
  failures : Nat := 0
  deriving DecidableEq, Repr

/-- How a caller looks at a cache: the window that was asked for, before whose
end the set counts as stale, and the number of the clock that is read. -/
structure Handle where
  asked : Span := .zero
  clock : Nat := 0
  deriving DecidableEq, Repr

/-- How far a retrieval has come: it was started, it waits for the guard, or
it assumes the role. -/
inductive Retrieval.Phase
  | started
  | waiting
  | assuming
  deriving DecidableEq, Repr

/-- How a retrieval has ended. -/
inductive Retrieval.Fate
  | returned (result : Except AccessError CredentialSet)
  | crashed
  | dropped

/-- A retrieval through a handle.  It keeps the phase in which it ended. -/
structure Retrieval where
  handle : Handle
  phase : Retrieval.Phase := .started
  fate : Option Retrieval.Fate := none

/-- A cache: its request, its slot, the retrieval that holds the guard, its
metrics, the clocks that handles read, the retrievals made so far, and what
was reported. -/
structure Cache where
  request : Request
  slot : Option CredentialSet := none
  guard : Option Nat := none
  metrics : Metrics := {}
  clocks : List Instant := []
  retrievals : List Retrieval := []
  ledger : Ledger := {}

/-- What a look at the slot shows. -/
inductive Lookup
  | fresh (c : CredentialSet)
  | stale
  | offCalendar
  deriving DecidableEq

/-- What can happen to a cache. -/
inductive Cache.Action
  | start (handle : Handle)
  | enter (i : Nat)
  | acquire (i : Nat)
  | settle (i : Nat) (answer : Outcome CredentialSet)
  | drop (i : Nat)
  | invalidate
  | setClock (clock : Nat) (now : Instant)
  | addClock (now : Instant)

namespace Cache

/-- A cache before its first use, and the clocks that its handles read. -/
def unused (request : Request) (clocks : List Instant) : Cache :=
  { request := request, clocks := clocks }

/-- The reading of the clock of a handle; one that was never set shows the
start of 1970. -/
def now (s : Cache) (h : Handle) : Instant := s.clocks.getD h.clock .epoch

/-- The window of a handle: it is never negative and at most half the session,
so that a new set is always fresh for a while. -/
def window (s : Cache) (h : Handle) : Span :=
  h.asked.clamp .zero s.request.duration.half

/-- What a handle sees in the slot at the reading of its clock. -/
def lookup (s : Cache) (h : Handle) : Lookup :=
  match s.slot with
  | none => .stale
  | some c =>
    match c.freshAt? (s.now h) (s.window h) with
    | some true => .fresh c
    | some false => .stale
    | none => .offCalendar

/-- Moves a retrieval on to a phase. -/
def setPhase (s : Cache) (i : Nat) (phase : Retrieval.Phase) : Cache :=
  { s with retrievals := s.retrievals.modify i ({ · with phase := phase }) }

/-- Ends a retrieval. -/
def setFate (s : Cache) (i : Nat) (fate : Retrieval.Fate) : Cache :=
  { s with retrievals := s.retrievals.modify i ({ · with fate := some fate }) }

/-- Counts a set handed out from the slot. -/
def hit (s : Cache) : Cache :=
  { s with metrics := { s.metrics with hits := s.metrics.hits + 1 } }

/-- Counts an assumption that brought nothing of use. -/
def failed (s : Cache) : Cache :=
  { s with metrics := { s.metrics with failures := s.metrics.failures + 1 } }

/-- A retrieval that did not find a fresh set at once comes to its result. -/
def conclude (s : Cache) (i : Nat) (result : Except AccessError CredentialSet) :
    Cache :=
  { s with ledger := s.ledger.finish .credentialRetrieve result }.setFate i
    (.returned result)

/-- The first look of a retrieval: a fresh set is handed out at once, and
otherwise the retrieval waits for the guard. -/
def enter (s : Cache) (i : Nat) (h : Handle) : Cache :=
  match s.lookup h with
  | .fresh c => s.hit.setFate i (.returned (.ok c))
  | .offCalendar => s.setFate i .crashed
  | .stale =>
    { s with ledger := s.ledger.enter .credentialRetrieve "refresh" }.setPhase i
      .waiting

/-- The second look, with the guard: someone else may have filled the slot in
the meantime.  Otherwise the retrieval keeps the guard and assumes the role. -/
def acquire (s : Cache) (i : Nat) (h : Handle) : Cache :=
  match s.lookup h with
  | .fresh c => s.hit.conclude i (.ok c)
  | .offCalendar => s.setFate i .crashed
  | .stale =>
    { s with
      guard := some i
      metrics := { s.metrics with refreshes := s.metrics.refreshes + 1 }
    }.setPhase i .assuming

/-- The end of an assumption: the guard is free again, and a set that is not
expired at the reading of the handle's clock goes into the slot. -/
def settle (s : Cache) (i : Nat) (h : Handle) (answer : Outcome CredentialSet) :
    Cache :=
  let s := { s with guard := none }
  match answer with
  | .crashed => s.setFate i .crashed
  | .failed e =>
    s.failed.conclude i (.error
      (.credential (.assumeRole s.request.roleArn.text e)))
  | .value c =>
    match c.expiresAt.filter (· ≤ s.now h) with
    | some expiry =>
      s.failed.conclude i (.error (.credential (.expiredOnReceipt expiry)))
    | none => { s with slot := some c }.conclude i (.ok c)

/-- A retrieval is given up; one that was assuming leaves the guard. -/
def release (s : Cache) (i : Nat) : Cache :=
  { s with guard := s.guard.filter (· ≠ i) }.setFate i .dropped

/-- Carries out one action.  One that does not apply changes nothing. -/
def act (s : Cache) : Action → Cache
  | .start handle =>
    { s with retrievals := s.retrievals ++ [{ handle := handle }] }
  | .enter i =>
    match s.retrievals[i]? with
    | some ⟨h, .started, none⟩ => s.enter i h
    | _ => s
  | .acquire i =>
    match s.retrievals[i]?, s.guard with
    | some ⟨h, .waiting, none⟩, none => s.acquire i h
    | _, _ => s
  | .settle i answer =>
    match s.retrievals[i]? with
    | some ⟨h, .assuming, none⟩ => s.settle i h answer
    | _ => s
  | .drop i =>
    match s.retrievals[i]? with
    | some ⟨_, _, none⟩ => s.release i
    | _ => s
  | .invalidate => { s with slot := none }
  | .setClock clock now => { s with clocks := s.clocks.set clock now }
  | .addClock now => { s with clocks := s.clocks ++ [now] }

/-- Any action takes a cache to the next state. -/
def Step (s t : Cache) : Prop := ∃ a : Action, t = s.act a

/-- A state is reached from another by actions in any order. -/
abbrev Reaches : Cache → Cache → Prop := CloudAccess.Reaches Step

/-- One action leads to the state after it. -/
theorem reaches_act (s : Cache) (a : Action) : s.Reaches (s.act a) :=
  .single ⟨a, rfl⟩

/-! ## What is seen of a retrieval after a change -/

@[simp] theorem getElem?_setPhase (s : Cache) (i j : Nat)
    (phase : Retrieval.Phase) :
    (s.setPhase i phase).retrievals[j]? =
      if i = j then s.retrievals[j]?.map ({ · with phase := phase })
      else s.retrievals[j]? := by
  by_cases h : i = j
  · subst h
    simp [setPhase]
  · simp [setPhase, h]

@[simp] theorem getElem?_setFate (s : Cache) (i j : Nat)
    (fate : Retrieval.Fate) :
    (s.setFate i fate).retrievals[j]? =
      if i = j then s.retrievals[j]?.map ({ · with fate := some fate })
      else s.retrievals[j]? := by
  by_cases h : i = j
  · subst h
    simp [setFate]
  · simp [setFate, h]

/-- A handle's window is never negative. -/
theorem zero_le_window (s : Cache) (h : Handle) : Span.zero ≤ s.window h :=
  Span.le_clamp s.request.zero_le_half

/-- A handle's window is at most half the session. -/
theorem window_le (s : Cache) (h : Handle) :
    s.window h ≤ s.request.duration.half :=
  Span.clamp_le s.request.zero_le_half

end Cache

end CloudAccess
