import CloudAccess.Proofs.Cache.Batches
import CloudAccess.Proofs.Operations

/-!
# What a cache counts

A retrieval may be counted at its first look, at its second look, when its
assumption begins and when it ends, and it may be given up in between.  What
the counters show is always what has become of the retrievals.

* `Retrieval.counted` says under which gauges a retrieval is counted, by how
  far it has come and how it has ended: the metrics of the cache, the spans of
  its operations, and their outcomes.
* `Change` says what an action does to the retrievals and to the gauges at the
  same time, and `Effect.change` that every effect does one of these.
* `Counted` is the invariant: each gauge shows how many retrievals are counted
  under it.  `share` is what the actions on one retrieval add to a gauge, and
  `share_after` says that this is once if the retrieval is counted and nothing
  otherwise.
* `Sends` ties the metrics to the requests that a planned cache has sent.
* `metrics_add_up` puts these together.
-/

namespace CloudAccess

/-! ## What has become of a retrieval -/

namespace Retrieval

/-- The result of a retrieval that has come to one. -/
def result? (r : Retrieval) : Option (Except AccessError CredentialSet) :=
  match r.fate with
  | some (.returned result) => some result
  | _ => none

/-- A retrieval has come to a result. -/
def returned (r : Retrieval) : Bool := r.result?.isSome

/-- A retrieval has been handed a set. -/
def succeeded (r : Retrieval) : Bool := r.result?.any (·.isOk)

/-- A retrieval has been refused. -/
def failed (r : Retrieval) : Bool := r.result?.any (!·.isOk)

/-- The first look of a retrieval found nothing fresh. -/
def missed (r : Retrieval) : Bool := r.phase ≠ .started

/-- A retrieval has begun an assumption of its own. -/
def assumed (r : Retrieval) : Bool := r.phase = .assuming

/-- A retrieval is inside its assumption. -/
def assumes (r : Retrieval) : Bool := r.assumed && r.fate.isNone

/-- The assumption of a retrieval crashed or was given up. -/
def lost (r : Retrieval) : Bool := r.assumed && r.fate.isSome && !r.returned

end Retrieval

/-! ## Gauges -/

/-- The metrics of a cache. -/
inductive Metric
  | hits
  | refreshes
  | failures
  deriving DecidableEq, Repr

/-- What a metric shows. -/
def Metrics.show (m : Metrics) : Metric → Nat
  | .hits => m.hits
  | .refreshes => m.refreshes
  | .failures => m.failures

/-- What can be read off a cache: a metric, or a dial of its ledger about
retrievals. -/
inductive Cache.Gauge
  | metric (m : Metric)
  | dial (d : Ledger.Dial)
  deriving DecidableEq, Repr

/-- A retrieval as an operation. -/
def Retrieval.operation (r : Retrieval) : Operation :=
  ⟨.credentialRetrieve, r.result?.map (·.isOk)⟩

/-- The gauges under which a retrieval is counted.  One that found a fresh set
at once is no operation. -/
def Retrieval.counted (r : Retrieval) : Cache.Gauge → Bool
  | .metric .hits => r.succeeded && !r.assumed
  | .metric .refreshes => r.assumed
  | .metric .failures => r.failed
  | .dial d => r.missed && r.operation.counted .credentialRetrieve d

/-- A retrieval that has only been started is counted nowhere. -/
@[simp] theorem Retrieval.counted_new (h : Handle) (g : Cache.Gauge) :
    ({ handle := h } : Retrieval).counted g = false := by
  rcases g with (_ | _ | _) | _ | (_ | _ | _) <;> rfl

namespace Cache

variable {s t : Cache} {a : Action} {i j : Nat} {g : Gauge}

/-- What a gauge shows. -/
def reading (s : Cache) : Gauge → Nat
  | .metric m => s.metrics.show m
  | .dial d => s.ledger.reading .credentialRetrieve d

/-! ## What moves the gauges -/

@[simp] theorem reading_setPhase (s : Cache) (i : Nat) (phase : Retrieval.Phase)
    (g : Gauge) : (s.setPhase i phase).reading g = s.reading g := by
  cases g <;> rfl

@[simp] theorem reading_setFate (s : Cache) (i : Nat) (fate : Retrieval.Fate)
    (g : Gauge) : (s.setFate i fate).reading g = s.reading g := by
  cases g <;> rfl

@[simp] theorem reading_release (s : Cache) (i : Nat) (g : Gauge) :
    (s.release i).reading g = s.reading g := by
  cases g <;> rfl

@[simp] theorem reading_guard (s : Cache) (guard : Option Nat) (g : Gauge) :
    ({ s with guard := guard } : Cache).reading g = s.reading g := by
  cases g <;> rfl

@[simp] theorem reading_hit (s : Cache) (g : Gauge) :
    s.hit.reading g = s.reading g + (decide (g = .metric .hits)).toNat := by
  rcases g with (_ | _ | _) | _ <;> rfl

@[simp] theorem reading_failed (s : Cache) (g : Gauge) :
    s.failed.reading g = s.reading g +
      (decide (g = .metric .failures)).toNat := by
  rcases g with (_ | _ | _) | _ <;> rfl

@[simp] theorem reading_enter (s : Cache) (stage : String) (g : Gauge) :
    ({ s with ledger := s.ledger.enter .credentialRetrieve stage } :
      Cache).reading g =
      s.reading g + (decide (g = .dial .spans ∨
        g = .dial (.outcome .attempt))).toNat := by
  rcases g with _ | d
  · rfl
  · show (s.ledger.enter _ stage).reading _ d = s.ledger.reading _ d + _
    simp

@[simp] theorem reading_conclude (s : Cache) (i : Nat)
    (result : Except AccessError CredentialSet) (g : Gauge) :
    (s.conclude i result).reading g =
      s.reading g + (decide (g = .dial (.outcome (.of result)))).toNat := by
  rcases g with _ | d
  · rfl
  · show (s.ledger.finish _ result).reading _ d = s.ledger.reading _ d + _
    simp

/-! ## One action -/

/-- What an action does to the retrievals of a cache and to its gauges: nothing
to either, or it starts a retrieval, or it changes one retrieval that was under
way and moves the gauges under which that comes to be counted. -/
inductive Change (s : Cache) (a : Action) (t : Cache) : Prop
  | nothing (hsame : t.retrievals = s.retrievals)
      (hread : ∀ g, t.reading g = s.reading g)
  | starts {h : Handle}
      (hnew : t.retrievals = s.retrievals ++ [{ handle := h }])
      (hread : ∀ g, t.reading g = s.reading g) (hnone : a.retrieval? = none)
  | moves {i : Nat} {r r' : Retrieval} (hi : a.retrieval? = some i)
      (hr : s.retrievals[i]? = some r)
      (hset : t.retrievals = s.retrievals.set i r')
      (hkept : ∀ g, r.counted g = true → r'.counted g = true)
      (hread : ∀ g, t.reading g + (r.counted g).toNat =
        s.reading g + (r'.counted g).toNat)
      (hfailed : r'.failed = true → r'.assumed = true)

theorem modify_eq_set {α : Type} {l : List α} {i : Nat} {x : α}
    (h : l[i]? = some x) (f : α → α) : l.modify i f = l.set i (f x) := by
  rw [List.modify_eq_set_getElem?, h]
  rfl

/-- A retrieval that was under way changes. -/
theorem Change.of_modify {r : Retrieval} {f : Retrieval → Retrieval}
    (hi : a.retrieval? = some i) (hr : s.retrievals[i]? = some r)
    (hset : t.retrievals = s.retrievals.modify i f)
    (hkept : ∀ g, r.counted g = true → (f r).counted g = true)
    (hread : ∀ g, t.reading g + (r.counted g).toNat =
      s.reading g + ((f r).counted g).toNat)
    (hfailed : (f r).failed = true → (f r).assumed = true) : s.Change a t :=
  .moves hi hr (hset.trans (modify_eq_set hr f)) hkept hread hfailed

theorem Effect.change (he : s.Effect a t) : s.Change a t := by
  cases he with
  | idle | invalidate | setClock | addClock => exact .nothing rfl fun _ => rfl
  | start => exact .starts rfl (fun _ => rfl) rfl
  | hit hr | miss hr | enterCrashed hr | share hr | acquireCrashed hr | crash hr
  | refuse hr | expire hr | store hr =>
    refine .of_modify rfl hr rfl (fun g => ?_) (fun g => ?_) ?_
    · rcases g with (_ | _ | _) | _ | (_ | _ | _) <;>
        first | exact id | exact fun _ => rfl
    · simp
      rcases g with (_ | _ | _) | _ | (_ | _ | _) <;> rfl
    · simp [Retrieval.failed, Retrieval.result?, Retrieval.assumed, Except.isOk,
        Except.toBool]
  | assume hr =>
    refine .of_modify rfl hr rfl (fun g => ?_) (fun g => ?_) fun hf => by
      cases hf
    · rcases g with (_ | _ | _) | _ | (_ | _ | _) <;>
        first | exact id | exact fun _ => rfl
    · rcases g with (_ | _ | _) | _ | (_ | _ | _) <;> rfl
  | @drop i h phase hr =>
    refine .of_modify rfl hr rfl (fun g => ?_) (fun g => ?_) fun hf => by
      cases hf
    · rcases g with (_ | _ | _) | _ | (_ | _ | _) <;> exact id
    · rw [reading_release]
      rcases g with (_ | _ | _) | _ | (_ | _ | _) <;> rfl

/-! ## Every run -/

/-- Replacing an element of a list changes how many of them have a property by
that element alone. -/
theorem countP_set_add {α : Type} (p : α → Bool) {l : List α} {i : Nat} {x : α}
    (h : l[i]? = some x) (y : α) :
    (l.set i y).countP p + (p x).toNat = l.countP p + (p y).toNat := by
  obtain ⟨hlt, rfl⟩ := List.getElem?_eq_some_iff.1 h
  rw [List.countP_set hlt]
  cases hx : p l[i] with
  | false => cases p y <;> simp
  | true =>
    have hpos : 0 < l.countP p :=
      List.countP_pos_iff.2 ⟨l[i], List.getElem_mem hlt, hx⟩
    cases p y <;> simp <;> omega

/-- Each gauge shows how many retrievals are counted under it, and a retrieval
is refused only by its own assumption. -/
structure Counted (s : Cache) : Prop where
  reading_eq : ∀ g, s.reading g = s.retrievals.countP (·.counted g)
  own : ∀ r ∈ s.retrievals, r.failed = true → r.assumed = true

theorem counted_unused (request : Request) (clocks : List Instant) :
    (unused request clocks).Counted where
  reading_eq g := by rcases g with (_ | _ | _) | _ | _ <;> rfl
  own r hr := by cases hr

theorem Change.counted (hc : s.Change a t) (h : s.Counted) : t.Counted := by
  cases hc with
  | nothing hsame hread =>
    refine ⟨fun g => ?_, ?_⟩
    · rw [hread, hsame, h.reading_eq]
    · rw [hsame]
      exact h.own
  | @starts handle hnew hread =>
    refine ⟨fun g => ?_, fun r hr hf => ?_⟩
    · rw [hread, hnew, h.reading_eq, List.countP_append, List.countP_singleton,
        Retrieval.counted_new]
      rfl
    · rw [hnew, List.mem_append, List.mem_singleton] at hr
      rcases hr with hr | rfl
      · exact h.own r hr hf
      · cases hf
  | @moves i r r' _ hr hset _ hread hfailed =>
    refine ⟨fun g => ?_, fun v hv hf => ?_⟩
    · have hmoved := countP_set_add (·.counted g) hr r'
      have hbefore := h.reading_eq g
      have hmove := hread g
      rw [hset]
      omega
    · rw [hset] at hv
      rcases List.mem_or_eq_of_mem_set hv with hv | rfl
      · exact h.own v hv hf
      · exact hfailed hf

/-- The gauges of a cache show what has become of its retrievals wherever steps
lead. -/
theorem Reaches.counted {request : Request} {clocks : List Instant}
    (hs : (unused request clocks).Reaches s) : s.Counted := by
  refine hs.invariant (counted_unused request clocks) fun u v hu hstep => ?_
  obtain ⟨a, rfl⟩ := hstep
  exact (u.effect_act a).change.counted hu

/-! ## The share of one retrieval -/

/-- What the actions of a run on one retrieval add to a gauge. -/
def share (g : Gauge) (i : Nat) : Cache → List Action → Nat
  | _, [] => 0
  | s, a :: run =>
    (if a.retrieval? = some i then (s.act a).reading g - s.reading g else 0) +
      share g i (s.act a) run

/-- Whether the retrieval of a number is counted under a gauge. -/
def counts (s : Cache) (g : Gauge) (i : Nat) : Bool :=
  s.retrievals[i]?.any (·.counted g)

theorem Change.share (hc : s.Change a t) (g : Gauge) (i : Nat) :
    (if a.retrieval? = some i then t.reading g - s.reading g else 0) +
        (s.counts g i).toNat =
      (t.counts g i).toNat := by
  unfold counts
  cases hc with
  | nothing hsame hread =>
    rw [hsame, hread]
    simp
  | starts hnew _ hnone =>
    rw [hnone, if_neg (by simp), Nat.zero_add, hnew]
    rcases Nat.lt_or_ge i s.retrievals.length with hlt | hge
    · rw [List.getElem?_append_left hlt]
    · rw [List.getElem?_append_right hge, List.getElem?_eq_none hge,
        List.getElem?_singleton]
      split <;> simp
  | @moves j r r' hj hr hset hkept hread =>
    have hmove := hread g
    have hkeep := hkept g
    obtain ⟨hlt, -⟩ := List.getElem?_eq_some_iff.1 hr
    rw [hj, hset, List.getElem?_set]
    by_cases heq : j = i
    · subst heq
      simp only [if_pos, hlt, hr, Option.any_some]
      cases hc : r.counted g with
      | false =>
        rw [hc] at hmove
        have hzero : false.toNat = 0 := rfl
        omega
      | true =>
        rw [hkeep hc]
        rw [hc, hkeep hc] at hmove
        omega
    · simp [heq]

/-- What a run adds to a gauge by the actions on one retrieval is what the
retrieval has come to be counted. -/
theorem share_after (g : Gauge) (i : Nat) (s : Cache) (run : List Action) :
    share g i s run + (s.counts g i).toNat =
      ((s.after run).counts g i).toNat := by
  induction run generalizing s with
  | nil => exact Nat.zero_add _
  | cons a run ih =>
    have hrest := ih (s.act a)
    have hfirst := (s.effect_act a).change.share g i
    rw [Cache.share]
    show _ = (((s.act a).after run).counts g i).toNat
    omega

/-! ## The ledger -/

/-- The operations of a cache: its retrievals that did not find a fresh set at
once. -/
def operations (s : Cache) : List Operation :=
  (s.retrievals.filter Retrieval.missed).map Retrieval.operation

theorem countP_operations (s : Cache) (d : Ledger.Dial) :
    s.operations.countP (·.counted .credentialRetrieve d) =
      s.retrievals.countP (·.counted (.dial d)) := by
  rw [operations, List.countP_map, List.countP_filter]
  refine List.countP_congr fun r _ => ?_
  rw [Bool.and_comm]
  rfl

theorem countP_operations_of_ne (s : Cache) {kind : OpKind}
    (hkind : kind ≠ .credentialRetrieve) (d : Ledger.Dial) :
    s.operations.countP (·.counted kind d) = 0 := by
  refine List.countP_eq_zero.2 fun op hop => ?_
  obtain ⟨r, -, rfl⟩ := List.mem_map.1 hop
  rcases d with _ | (_ | _ | _) <;>
    simp [Operation.counted, Retrieval.operation, hkind.symm]

/-- An action on a cache says nothing about operations of another kind. -/
theorem Effect.aside (he : s.Effect a t) {kind : OpKind}
    (hkind : kind ≠ .credentialRetrieve) (d : Ledger.Dial) :
    t.ledger.reading kind d = s.ledger.reading kind d := by
  cases he with
  | miss =>
    show (s.ledger.enter _ _).reading kind d = _
    simp [hkind.symm]
  | share | refuse | expire | store =>
    show (s.ledger.finish _ _).reading kind d = _
    simp [hkind.symm]
  | _ => rfl

theorem Effect.logs (he : s.Effect a t) :
    s.ledger.Logs t.ledger s.operations t.operations := by
  intro kind d
  by_cases hkind : kind = .credentialRetrieve
  · subst hkind
    rw [countP_operations, countP_operations]
    cases he.change with
    | nothing hsame hread =>
      rw [hsame]
      exact congrArg (· + _) (hread (.dial d))
    | starts hnew hread =>
      rw [hnew, List.countP_append, List.countP_singleton,
        Retrieval.counted_new]
      exact congrArg (· + _) (hread (.dial d))
    | @moves i r r' _ hr hset _ hread =>
      have hmove := hread (.dial d)
      have hmoved := countP_set_add (·.counted (.dial d)) hr r'
      rw [hset]
      simp only [reading] at hmove
      omega
  · rw [countP_operations_of_ne s hkind, countP_operations_of_ne t hkind,
      he.aside hkind]

/-- What a cache adds to its ledger is what has become of its retrievals. -/
theorem Reaches.logs (h : s.Reaches t) :
    s.ledger.Logs t.ledger s.operations t.operations := by
  induction h with
  | refl => exact .refl _ _
  | step _ hstep ih =>
    obtain ⟨a, rfl⟩ := hstep
    exact ih.trans (effect_act _ a).logs

/-! ## Assumptions under way -/

/-- The guard shows how many retrievals are inside their assumption. -/
theorem Guarded.countP_assumes (hg : s.Guarded) :
    s.retrievals.countP Retrieval.assumes = s.guard.isSome.toNat := by
  have hat {i : Nat} {r : Retrieval} (hr : s.retrievals[i]? = some r)
      (hassumes : r.assumes = true) : s.Assumes i := by
    obtain ⟨h, phase, fate⟩ := r
    simp only [Retrieval.assumes, Retrieval.assumed, Bool.and_eq_true,
      decide_eq_true_eq, Option.isNone_iff_eq_none] at hassumes
    obtain ⟨rfl, rfl⟩ := hassumes
    exact ⟨h, hr⟩
  cases hguard : s.guard with
  | none =>
    refine List.countP_eq_zero.2 fun r hr hassumes => ?_
    obtain ⟨i, hi⟩ := List.getElem?_of_mem hr
    have hheld := (hg i).2 (hat hi hassumes)
    rw [hguard] at hheld
    cases hheld
  | some i =>
    obtain ⟨h, hr⟩ := (hg i).1 hguard
    -- without the one that has the guard there is none
    have hrest : (s.retrievals.set i { handle := h }).countP Retrieval.assumes =
        0 := by
      refine List.countP_eq_zero.2 fun r hin hassumes => ?_
      obtain ⟨j, hj⟩ := List.getElem?_of_mem hin
      rw [List.getElem?_set] at hj
      split at hj
      · split at hj
        · cases hj
          cases hassumes
        · cases hj
      · rename_i hne
        have hheld := (hg j).2 (hat hj hassumes)
        rw [hguard, Option.some_inj] at hheld
        exact hne hheld
    have hset := countP_set_add Retrieval.assumes hr { handle := h }
    rw [hrest] at hset
    exact (Nat.zero_add _).symm.trans hset |>.symm

/-! ## Every way of ending -/

/-- A retrieval that is handed a set without an assumption of its own, or begins
one, has returned, or its assumption came to nothing, or it is inside it. -/
theorem toNat_counted {r : Retrieval}
    (hown : r.failed = true → r.assumed = true) :
    (r.counted (.metric .hits)).toNat + (r.counted (.metric .refreshes)).toNat =
      r.returned.toNat + r.lost.toNat + r.assumes.toNat := by
  obtain ⟨h, phase, fate⟩ := r
  rcases fate with _ | ⟨_ | _⟩ | _ | _
  case some.returned.error e =>
    have hphase : phase = .assuming := by
      simpa [Retrieval.assumed] using hown rfl
    subst hphase
    rfl
  all_goals cases phase <;> rfl

theorem countP_counted {l : List Retrieval}
    (hown : ∀ r ∈ l, r.failed = true → r.assumed = true) :
    l.countP (·.counted (.metric .hits)) +
        l.countP (·.counted (.metric .refreshes)) =
      l.countP Retrieval.returned + l.countP Retrieval.lost +
        l.countP Retrieval.assumes := by
  induction l with
  | nil => rfl
  | cons r l ih =>
    have hfirst := toNat_counted (hown r List.mem_cons_self)
    have hrest := ih fun r' hr' => hown r' (List.mem_cons_of_mem r hr')
    simp only [Ledger.countP_cons_toNat]
    omega

end Cache

namespace Holding

variable {s : Holding} {h : Handle}

/-- Every assumption that was counted has sent its request. -/
def Sends (s : Holding) : Prop := s.sent.length = s.metrics.refreshes

theorem Sends.hit (hs : s.Sends) : s.hit.Sends := hs

theorem Sends.failed (hs : s.Sends) : s.failed.Sends := hs

theorem Sends.assume (hs : s.Sends) : s.assume.Sends := by
  unfold Sends
  show (s.sent ++ [s.request]).length = s.metrics.refreshes + 1
  rw [List.length_append, hs]
  rfl

theorem Sends.settle (hs : s.Sends) (h : Handle)
    (answer : Outcome CredentialSet) : (s.settle h answer).1.Sends := by
  unfold Holding.settle
  split
  · exact hs
  · exact hs.failed
  · split
    · exact hs.failed
    · exact hs

theorem Sends.land (hs : s.Sends) (h : Handle) (l : Landing) :
    (s.land h l).1.Sends := by
  unfold Holding.land
  split
  · exact hs.settle h _
  · split
    · exact hs.settle h _
    · rename_i now _
      have hmoved : { s with clocks := s.clocks.set 0 now }.Sends := hs
      exact hmoved.settle h _

theorem Sends.serve (hs : s.Sends) (h : Handle) : (s.serve h).1.Sends := by
  unfold Holding.serve
  split
  · exact hs.hit
  · exact hs
  · exact hs.assume.land h _

end Holding

namespace PlannedCache

variable {p t : PlannedCache} {i : Nat}

theorem Move.sends (hmove : p.Move i t) (hp : p.holding.Sends) :
    t.holding.Sends := by
  cases hmove with
  | waits _ _ _ hheld => exact hheld ▸ hp
  | looks _ _ _ _ _ hheld => exact hheld ▸ hp.serve _
  | assumes _ _ _ _ _ _ _ hheld => exact hheld ▸ hp.assume
  | lands _ _ _ _ hheld => exact hheld ▸ hp.land _ _

/-- Giving up a retrieval changes nothing of what a cache has apart from it. -/
theorem holding_drop (p : PlannedCache) (i : Nat) :
    (p.drop i).holding = p.holding := by
  have he := p.cache.effect_act (.drop i)
  show { p with cache := p.cache.act (.drop i), flights := _ }.holding = _
  generalize p.cache.act (.drop i) = t at he
  cases he <;> rfl

end PlannedCache

namespace Batch

variable {b c : Batch}

theorem holding_giveUp (b : Batch) :
    b.giveUp.scene.holding = b.scene.holding := by
  show (b.members.foldl PlannedCache.drop b.scene).holding = _
  generalize b.members = members
  generalize b.scene = p
  induction members generalizing p with
  | nil => rfl
  | cons i members ih => exact (ih (p.drop i)).trans (p.holding_drop i)

theorem sends_step (hb : b.scene.holding.Sends) (hstep : play.Step b c) :
    c.scene.holding.Sends := by
  rcases step_cases hstep with
    ⟨i, -, hready, rfl⟩ | ⟨-, rfl⟩ | ⟨unit, -, -, -, rfl⟩
  · exact (PlannedCache.move_step hready).sends hb
  · rw [holding_giveUp]
    exact hb
  · exact hb

/-- A batch keeps the metrics and the requests sent in line. -/
theorem sends_reaches {p : PlannedCache} {handles : List Handle}
    {deadline : Option Nat} (hp : p.holding.Sends)
    (h : play.Reaches (start p handles deadline) b) :
    b.scene.holding.Sends := by
  refine h.invariant (I := fun b => b.scene.holding.Sends) ?_
    fun _ _ hu hstep => sends_step hu hstep
  rw [scene_start]
  exact hp

end Batch

namespace CacheSession

variable {s t : CacheSession}

theorem sends_step (hs : s.scene.holding.Sends) (hstep : s.Step t) :
    t.scene.holding.Sends := by
  rcases step_scene hstep with
    ⟨handles, deadline, heq⟩ | ⟨a, hnone, -, heq⟩ | heq
  · rw [heq]
    exact Batch.sends_reaches hs (Play.reaches_run _ _ _ _)
  · rw [heq]
    cases a with
    | enter | acquire | settle | drop => cases hnone
    | start | invalidate | setClock | addClock => exact hs
  · rw [heq]
    exact hs

/-- The requests that a session has sent are as many as the assumptions
counted. -/
theorem Reaches.sends {request : Request} {now : Instant} {window : Option Span}
    {plan : List PlannedAssumption}
    (h : (start request now window plan).Reaches s) : s.scene.holding.Sends :=
  h.invariant (I := fun u => u.scene.holding.Sends) rfl fun _ _ hu hstep =>
    sends_step hu hstep

end CacheSession

namespace Cache

/-- Whatever is done to a cache that was unused, and in whatever order: the
refreshes are the assumptions that were begun, the failures are the retrievals
that were refused, and the hits are those that were handed a set without an
assumption of their own.  Hits and refreshes together are the retrievals that
have returned, those whose assumption crashed or was given up, and the one that
is inside its assumption.  What was done with a retrieval has moved each gauge
once or not at all: it is not both a hit and a refresh, a failure only if it is
a refresh, and neither of them when it was given up outside an assumption.  The
requests that the cache of a session has sent are as many as its refreshes, also
while a batch is under way. -/
theorem metrics_add_up (request : Request) (clocks : List Instant)
    (run : List Action) :
    let s := (unused request clocks).after run
    let added := fun g i => share g i (unused request clocks) run
    s.metrics.refreshes = s.retrievals.countP Retrieval.assumed ∧
      s.metrics.failures = s.retrievals.countP Retrieval.failed ∧
      s.metrics.hits = s.retrievals.countP
      (fun r => r.succeeded && !r.assumed) ∧
      s.metrics.hits + s.metrics.refreshes =
        s.retrievals.countP Retrieval.returned + s.retrievals.countP
        Retrieval.lost +
          s.guard.isSome.toNat ∧
      (∀ i r, s.retrievals[i]? = some r →
        (∀ g, added g i = (r.counted g).toNat) ∧
        added (.metric .hits) i + added (.metric .refreshes) i ≤ 1 ∧
        added (.metric .failures) i ≤ added (.metric .refreshes) i ∧
        (r.phase ≠ .assuming → r.fate = some .dropped →
          ∀ m, added (.metric m) i = 0)) ∧
      ∀ now window plan session,
        (CacheSession.start request now window plan).Reaches session →
        ∀ handles deadline b,
          Batch.play.Reaches (Batch.start session.scene handles deadline) b →
          b.scene.sent.length = b.scene.cache.metrics.refreshes := by
  intro s added
  have hreach : (unused request clocks).Reaches s :=
    reaches_iff_after.2 ⟨run, rfl⟩
  have hcounted := hreach.counted
  have hadded (g : Gauge) (i : Nat) : added g i = (s.counts g i).toNat :=
    share_after g i (unused request clocks) run
  have hrefreshes := hcounted.reading_eq (.metric .refreshes)
  have hhits := hcounted.reading_eq (.metric .hits)
  have htotal := countP_counted hcounted.own
  rw [hreach.guarded.countP_assumes, ← hrefreshes, ← hhits] at htotal
  refine ⟨hrefreshes, hcounted.reading_eq (.metric .failures), hhits,
    htotal, ?_, ?_⟩
  · intro i r hr
    have hcounts (g : Gauge) : added g i = (r.counted g).toNat := by
      rw [hadded, counts, hr, Option.any_some]
    have hown := hcounted.own r (List.mem_of_getElem? hr)
    refine ⟨hcounts, ?_, ?_, fun hphase hdropped m => ?_⟩
    · rw [hcounts, hcounts]
      show (r.succeeded && !r.assumed).toNat + r.assumed.toNat ≤ 1
      cases r.assumed <;> cases r.succeeded <;> decide
    · rw [hcounts, hcounts]
      exact Bool.toNat_le_toNat hown
    · rw [hcounts]
      obtain ⟨h, phase, fate⟩ := r
      cases hdropped
      cases m with
      | refreshes => simpa [Retrieval.counted, Retrieval.assumed] using hphase
      | hits | failures => rfl
  · intro now window plan session hsession handles deadline b hb
    exact Batch.sends_reaches hsession.sends hb

/-- Of four retrievals that find the slot empty one assumes the role and
crashes, one is given up while it waits, one is refused, and one is handed a
set, which a fifth one finds. -/
def bustle : List Action :=
  [.start {}, .start {}, .start {}, .start {}, .enter 0, .enter 1,
    .enter 2, .enter 3,
    .acquire 0, .drop 1, .settle 0 .crashed, .acquire 2,
    .settle 2 (.failed ⟨"denied", []⟩),
    .acquire 3, .settle 3 (.value lasting), .start {}, .enter 4]

theorem metrics_add_up_bustle :
    ((unused plainRequest [.epoch]).after bustle).metrics = ⟨1, 3, 1⟩ ∧
      ((unused plainRequest [.epoch]).after bustle).retrievals.countP
        Retrieval.returned = 3 ∧
      ((unused plainRequest [.epoch]).after bustle).retrievals.countP
        Retrieval.lost = 1 ∧
      1 + 3 = 3 + 1 + ((unused plainRequest [.epoch]).after
        bustle).guard.isSome.toNat ∧
      ∀ m, share (.metric m) 1 (unused plainRequest [.epoch]) bustle = 0 := by
  obtain ⟨-, -, -, htotal, heach, -⟩ :=
    metrics_add_up plainRequest [.epoch] bustle
  have hdropped : ((unused plainRequest [.epoch]).after bustle).retrievals[1]? =
      some ⟨{}, .waiting, some .dropped⟩ := rfl
  exact ⟨rfl, rfl, rfl, htotal, (heach 1 _ hdropped).2.2.2 (by simp) rfl⟩

end Cache

end CloudAccess
