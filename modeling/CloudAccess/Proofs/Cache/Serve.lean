import CloudAccess.Cache.Assumer
import CloudAccess.Proofs.Cache.Effects

/-!
# What one retrieval does

A retrieval takes its steps between those of others.  This module says what a
retrieval does that nobody disturbs, and what a step of a retrieval does among
others.

* `Holding` is what a planned cache has apart from the retrievals under way.
* `Holding.serve` is a retrieval without others: it is handed the set in the
  slot, or it assumes the role.
* `PlannedCache.Move` lists the steps of a retrieval in these terms, and
  `move_step` proves the list complete.
* `getElem?_step_of_ne` and `flight?_step_of_ne` say that such a step leaves
  the other retrievals alone.
-/

namespace CloudAccess

/-! ## A retrieval without others -/

/-- What a planned cache has apart from its retrievals: what it stores, counts
and reads, the plan of its next assumptions, and the requests it has sent. -/
structure Holding where
  request : Request
  slot : Option CredentialSet
  metrics : Metrics
  clocks : List Instant
  plan : List PlannedAssumption
  sent : List Request

/-- How an assumption goes: how far it moves the first clock, and its answer. -/
structure Landing where
  advance : Option Span
  answer : Outcome CredentialSet

/-- How the assumption under way goes. -/
def Flight.landing (f : Flight) : Landing := ⟨f.advance, f.answer⟩

namespace Holding

/-- A cache without retrievals that has this. -/
def cache (s : Holding) : Cache :=
  { request := s.request
    slot := s.slot
    metrics := s.metrics
    clocks := s.clocks }

/-- Counts a set handed out from the slot. -/
def hit (s : Holding) : Holding := { s with metrics := s.cache.hit.metrics }

/-- Counts an assumption that brought nothing of use. -/
def failed (s : Holding) : Holding :=
  { s with metrics := s.cache.failed.metrics }

/-- An assumption begins: it is counted, its request is sent, and it takes the
first entry of the plan. -/
def assume (s : Holding) : Holding :=
  { s with
    metrics := { s.metrics with refreshes := s.metrics.refreshes + 1 }
    plan := s.plan.tail
    sent := s.sent ++ [s.request] }

/-- How an assumption that begins now will go. -/
def upcoming (s : Holding) : Landing :=
  match s.plan with
  | [] => ⟨none, .failed PlannedCache.exhausted⟩
  | next :: _ => ⟨next.advance, next.answer (s.cache.now {})⟩

/-- The retrieval that assumes the role gets its answer. -/
def settle (s : Holding) (h : Handle) :
    Outcome CredentialSet → Holding × Retrieval.Fate
  | .crashed => (s, .crashed)
  | .failed e =>
    (s.failed, .returned (.error
      (.credential (.assumeRole s.request.roleArn.text e))))
  | .value c =>
    match c.expiresAt.filter (· ≤ s.cache.now h) with
    | some expiry =>
      (s.failed, .returned (.error (.credential (.expiredOnReceipt expiry))))
    | none => ({ s with slot := some c }, .returned (.ok c))

/-- An assumption ends: the first clock moves, and the retrieval gets its
answer. -/
def land (s : Holding) (h : Handle) (l : Landing) : Holding × Retrieval.Fate :=
  match l.advance with
  | none => s.settle h l.answer
  | some span =>
    match (s.cache.now {}).add? span with
    | none => s.settle h .crashed
    | some now => { s with clocks := s.clocks.set 0 now }.settle h l.answer

/-- A retrieval that nobody disturbs. -/
def serve (s : Holding) (h : Handle) : Holding × Retrieval.Fate :=
  match s.cache.lookup h with
  | .fresh c => (s.hit, .returned (.ok c))
  | .offCalendar => (s, .crashed)
  | .stale => s.assume.land h s.upcoming

variable {s : Holding} {h : Handle}

theorem serve_of_fresh {c : CredentialSet} (hl : s.cache.lookup h = .fresh c) :
    s.serve h = (s.hit, .returned (.ok c)) := by
  unfold serve
  rw [hl]

theorem serve_of_offCalendar (hl : s.cache.lookup h = .offCalendar) :
    s.serve h = (s, .crashed) := by
  unfold serve
  rw [hl]

theorem serve_of_stale (hl : s.cache.lookup h = .stale) :
    s.serve h = s.assume.land h s.upcoming := by
  unfold serve
  rw [hl]

theorem lookup_assume : s.assume.cache.lookup h = s.cache.lookup h := rfl

theorem hit_assume : s.assume.hit = s.hit.assume := rfl

/-- A retrieval that does not assume the role leaves what is seen in the slot
and what the next assumption brings as they are. -/
theorem serve_of_ne_stale (hl : s.cache.lookup h ≠ .stale) :
    (s.serve h).1 = s.hit ∨ (s.serve h).1 = s := by
  cases hlook : s.cache.lookup h with
  | fresh c =>
    rw [serve_of_fresh hlook]
    exact .inl rfl
  | offCalendar =>
    rw [serve_of_offCalendar hlook]
    exact .inr rfl
  | stale => exact absurd hlook hl

/-- A retrieval that does not assume the role does the same after an assumption
has begun. -/
theorem serve_assume (hl : s.cache.lookup h ≠ .stale) :
    s.assume.serve h = ((s.serve h).1.assume, (s.serve h).2) := by
  cases hlook : s.cache.lookup h with
  | fresh c =>
    rw [serve_of_fresh hlook, serve_of_fresh (s := s.assume) hlook, hit_assume]
  | offCalendar =>
    rw [serve_of_offCalendar hlook, serve_of_offCalendar (s := s.assume) hlook]
  | stale => exact absurd hlook hl

end Holding

/-! ## A retrieval among others -/

namespace PlannedCache

variable {p t : PlannedCache} {unit i j : Nat} {h : Handle}

/-- What a planned cache has apart from its retrievals. -/
def holding (p : PlannedCache) : Holding where
  request := p.cache.request
  slot := p.cache.slot
  metrics := p.cache.metrics
  clocks := p.cache.clocks
  plan := p.plan
  sent := p.sent

@[simp] theorem lookup_holding : p.holding.cache.lookup h = p.cache.lookup h :=
  rfl

/-- What a step of the retrieval `i` does. -/
inductive Move (p : PlannedCache) (i : Nat) (t : PlannedCache) : Prop
  | waits {h : Handle} (hr : p.cache.retrievals[i]? = some ⟨h, .started, none⟩)
      (hr' : t.cache.retrievals[i]? = some ⟨h, .waiting, none⟩)
      (hguard : t.cache.guard = p.cache.guard) (hheld : t.holding = p.holding)
  | looks {h : Handle} {phase : Retrieval.Phase}
      (hr : p.cache.retrievals[i]? = some ⟨h, phase, none⟩)
      (hphase : phase ≠ .assuming) (hl : p.cache.lookup h ≠ .stale)
      (hr' : t.cache.retrievals[i]? =
        some ⟨h, phase, some (p.holding.serve h).2⟩)
      (hguard : t.cache.guard = p.cache.guard)
      (hheld : t.holding = (p.holding.serve h).1)
  | assumes {h : Handle} {f : Flight}
      (hr : p.cache.retrievals[i]? = some ⟨h, .waiting, none⟩)
      (hfree : p.cache.guard = none) (hl : p.cache.lookup h = .stale)
      (hr' : t.cache.retrievals[i]? = some ⟨h, .assuming, none⟩)
      (hf : t.flight? i = some f) (hlanding : f.landing = p.holding.upcoming)
      (hguard : t.cache.guard = some i) (hheld : t.holding = p.holding.assume)
  | lands {h : Handle} {f : Flight}
      (hr : p.cache.retrievals[i]? = some ⟨h, .assuming, none⟩)
      (hf : p.flight? i = some f)
      (hr' : t.cache.retrievals[i]? =
        some ⟨h, .assuming, some (p.holding.land h f.landing).2⟩)
      (hguard : t.cache.guard = none)
      (hheld : t.holding = (p.holding.land h f.landing).1)

/-- A look that does not find the slot stale ends the retrieval. -/
theorem move_looks {s : Cache} {held : Holding} {fate : Retrieval.Fate}
    {phase : Retrieval.Phase}
    (hr : p.cache.retrievals[i]? = some ⟨h, phase, none⟩)
    (hphase : phase ≠ .assuming) (hl : p.cache.lookup h ≠ .stale)
    (hserve : p.holding.serve h = (held, fate))
    (hended : s.retrievals = (p.cache.setFate i fate).retrievals)
    (hguard : s.guard = p.cache.guard)
    (hheld : ({ p with cache := s } : PlannedCache).holding = held) :
    p.Move i { p with cache := s } := by
  refine .looks hr hphase hl ?_ hguard ?_
  · show s.retrievals[i]? = _
    rw [hended, hserve]
    simp [hr]
  · rw [hserve]
    exact hheld

/-- The first look of a retrieval. -/
theorem move_enter (hr : p.cache.retrievals[i]? = some ⟨h, .started, none⟩) :
    p.Move i (p.act (.enter i)) := by
  have he := p.cache.effect_act (.enter i)
  show p.Move i { p with cache := p.cache.act (.enter i) }
  generalize p.cache.act (.enter i) = t at he
  cases he with
  | idle hidle => exact absurd ⟨h, hr⟩ hidle
  | hit hk hl =>
    exact move_looks hk (by simp) (by simp [hl])
      (Holding.serve_of_fresh hl) rfl rfl rfl
  | enterCrashed hk hl =>
    exact move_looks hk (by simp) (by simp [hl])
      (Holding.serve_of_offCalendar hl) rfl rfl rfl
  | miss hk => exact .waits hk (by simp [hk]) rfl rfl

/-- The assumption that a retrieval has begun is under way. -/
theorem flight?_send (p : PlannedCache) (unit i : Nat) :
    ∃ f, (p.send unit i).flight? i = some f ∧
      f.landing = p.holding.upcoming := by
  have hfound (f : Flight) (flights : List Flight) (hf : f.retrieval = i) :
      (f :: flights).find? (·.retrieval = i) = some f :=
    List.find?_cons_of_pos (by simpa using hf)
  cases hplan : p.plan with
  | nil =>
    have hheld : p.holding.plan = [] := hplan
    have hupcoming : p.holding.upcoming = ⟨none, .failed exhausted⟩ := by
      unfold Holding.upcoming
      rw [hheld]
    refine ⟨⟨i, unit, none, .failed exhausted⟩, ?_, hupcoming.symm⟩
    simp only [send, hplan]
    exact hfound _ p.flights rfl
  | cons next plan =>
    have hheld : p.holding.plan = next :: plan := hplan
    have hupcoming : p.holding.upcoming =
        ⟨next.advance, next.answer p.firstReading⟩ := by
      unfold Holding.upcoming
      rw [hheld]
      rfl
    refine ⟨⟨i, unit + next.delay, next.advance, next.answer p.firstReading⟩,
      ?_, hupcoming.symm⟩
    simp only [send, hplan]
    exact hfound _ p.flights rfl

/-- Sending a request uses up the first entry of the plan. -/
theorem holding_send (p : PlannedCache) (unit i : Nat) :
    (p.send unit i).holding =
      { p.holding with
        plan := p.plan.tail, sent := p.sent ++ [p.cache.request] } := by
  unfold send
  cases hplan : p.plan <;> simp [holding, hplan]

/-- The second look of a retrieval, with the guard. -/
theorem move_acquire (hr : p.cache.retrievals[i]? = some ⟨h, .waiting, none⟩)
    (hfree : p.cache.guard = none) : p.Move i (p.step unit i) := by
  unfold step
  rw [hr]
  have he := p.cache.effect_act (.acquire i)
  simp only [act]
  generalize p.cache.act (.acquire i) = t at he
  cases he with
  | idle hidle => exact absurd ⟨hfree, h, hr⟩ hidle
  | share hk _ hl =>
    simp only [Cache.getElem?_conclude, Cache.retrievals_hit, hk, if_true,
      Option.map_some]
    exact move_looks hk (by simp) (by simp [hl])
      (Holding.serve_of_fresh hl) rfl rfl rfl
  | acquireCrashed hk _ hl =>
    simp only [Cache.getElem?_setFate, hk, if_true, Option.map_some]
    exact move_looks hk (by simp) (by simp [hl])
      (Holding.serve_of_offCalendar hl) rfl rfl rfl
  | assume hk _ hl =>
    simp only [Cache.getElem?_setPhase, hk, if_true, Option.map_some]
    obtain ⟨f, hf, hlanding⟩ := flight?_send _ unit i
    refine .assumes hk hfree hl ?_ hf hlanding ?_ ?_
    · rw [cache_send]
      simp [hk]
    · rw [cache_send]
      rfl
    · rw [holding_send]
      rfl

/-- The answer to an assumption ends the retrieval and frees the guard. -/
theorem act_settle (hr : p.cache.retrievals[i]? = some ⟨h, .assuming, none⟩)
    (answer : Outcome CredentialSet) :
    (p.act (.settle i answer)).cache.retrievals[i]? =
        some ⟨h, .assuming, some (p.holding.settle h answer).2⟩ ∧
      (p.act (.settle i answer)).cache.guard = none ∧
      (p.act (.settle i answer)).holding = (p.holding.settle h answer).1 := by
  have he := p.cache.effect_act (.settle i answer)
  simp only [act]
  generalize p.cache.act (.settle i answer) = t at he
  cases he with
  | idle hidle => exact absurd ⟨h, hr⟩ hidle
  | crash | refuse => exact ⟨by simp [hr, Holding.settle, holding], rfl, rfl⟩
  | @expire _ g c expiry hk hexpires hle =>
    obtain rfl : h = g := by simpa [hr] using hk
    have hsettle : p.holding.settle h (.value c) =
        (p.holding.failed, .returned
          (.error (.credential (.expiredOnReceipt expiry)))) := by
      have hnow : expiry ≤ p.holding.cache.now h := hle
      simp [Holding.settle, hexpires, Option.filter, hnow]
    rw [hsettle]
    exact ⟨by simp [hr], rfl, rfl⟩
  | @store _ g c hk hlt =>
    obtain rfl : h = g := by simpa [hr] using hk
    have hnone : c.expiresAt.filter (· ≤ p.holding.cache.now h) = none := by
      rw [Option.filter_eq_none_iff]
      intro expiry hexpiry
      have hnot : ¬expiry ≤ p.holding.cache.now h :=
        Int.not_le.2 (hlt expiry hexpiry)
      simpa using hnot
    have hsettle : p.holding.settle h (.value c) =
        ({ p.holding with slot := some c }, .returned (.ok c)) := by
      simp [Holding.settle, hnone]
    rw [hsettle]
    exact ⟨by simp [hr], rfl, rfl⟩

/-- The end of an assumption, which may move the first clock. -/
theorem land_ends {f : Flight}
    (hr : p.cache.retrievals[f.retrieval]? = some ⟨h, .assuming, none⟩) :
    (p.land f).cache.retrievals[f.retrieval]? =
        some ⟨h, .assuming, some (p.holding.land h f.landing).2⟩ ∧
      (p.land f).cache.guard = none ∧
      (p.land f).holding = (p.holding.land h f.landing).1 := by
  let q : PlannedCache :=
    { p with flights := p.flights.filter (·.retrieval ≠ f.retrieval) }
  have hq : q.cache.retrievals[f.retrieval]? = some ⟨h, .assuming, none⟩ := hr
  cases hadvance : f.advance with
  | none =>
    have hland : p.land f = q.act (.settle f.retrieval f.answer) := by
      simp only [land, hadvance, q]
    have hholding : p.holding.land h f.landing =
        q.holding.settle h f.answer := by
      simp only [Holding.land, Flight.landing, hadvance]
      rfl
    rw [hland, hholding]
    exact act_settle hq f.answer
  | some span =>
    cases hmoved : p.firstReading.add? span with
    | none =>
      have hland : p.land f = q.act (.settle f.retrieval .crashed) := by
        have hq : q.firstReading.add? span = none := hmoved
        simp only [land, hadvance]
        rw [hq]
      have hholding : p.holding.land h f.landing =
          q.holding.settle h .crashed := by
        have hp : (p.holding.cache.now {}).add? span = none := hmoved
        simp only [Holding.land, Flight.landing, hadvance, hp]
        rfl
      rw [hland, hholding]
      exact act_settle hq .crashed
    | some now =>
      have hland : p.land f = (q.act (.setClock 0 now)).act
          (.settle f.retrieval f.answer) := by
        have hq : q.firstReading.add? span = some now := hmoved
        simp only [land, hadvance]
        rw [hq]
      have hholding : p.holding.land h f.landing =
          (q.act (.setClock 0 now)).holding.settle h f.answer := by
        have hp : (p.holding.cache.now {}).add? span = some now := hmoved
        simp only [Holding.land, Flight.landing, hadvance, hp]
        rfl
      rw [hland, hholding]
      exact act_settle (p := q.act (.setClock 0 now)) hq f.answer

/-- A retrieval that can go on makes one of the listed moves. -/
theorem move_step (hready : p.ready unit i = true) :
    p.Move i (p.step unit i) := by
  unfold ready at hready
  split at hready
  · rename_i h hr
    have hstep : p.step unit i = p.act (.enter i) := by simp only [step, hr]
    rw [hstep]
    exact move_enter hr
  · rename_i h hr
    simp only [Bool.and_eq_true, Option.isNone_iff_eq_none] at hready
    exact move_acquire hr hready.1
  · rename_i h hr
    obtain ⟨f, hf, -⟩ := (Option.any_eq_true _ _).1 hready
    have hretrieval : f.retrieval = i := by simpa using List.find?_some hf
    have hstep : p.step unit i = p.land f := by simp only [step, hr, hf]
    rw [hstep]
    subst hretrieval
    obtain ⟨hended, hguard, hheld⟩ := land_ends hr
    exact .lands hr hf hended hguard hheld
  · cases hready

/-! ## The other retrievals -/

/-- An action on one retrieval leaves the others alone. -/
theorem getElem?_act_of_ne {a : Cache.Action} (ha : a.retrieval? ≠ some j)
    (hstart : ∀ h, a ≠ .start h) :
    (p.act a).cache.retrievals[j]? = p.cache.retrievals[j]? :=
  (p.cache.effect_act a).getElem?_of_ne ha hstart

theorem getElem?_land_of_ne {f : Flight} (hne : f.retrieval ≠ j) :
    (p.land f).cache.retrievals[j]? = p.cache.retrievals[j]? := by
  have hsettle (q : PlannedCache) (answer : Outcome CredentialSet) :
      (q.act (.settle f.retrieval answer)).cache.retrievals[j]? =
        q.cache.retrievals[j]? :=
    getElem?_act_of_ne (by simpa [Cache.Action.retrieval?] using hne) (by simp)
  unfold land
  dsimp only
  split
  · exact hsettle _ _
  · split
    · exact hsettle _ _
    · exact hsettle _ _

/-- A step of one retrieval leaves the others alone. -/
theorem getElem?_step_of_ne (hne : i ≠ j) :
    (p.step unit i).cache.retrievals[j]? = p.cache.retrievals[j]? := by
  have henter : (p.act (.enter i)).cache.retrievals[j]? =
      p.cache.retrievals[j]? :=
    getElem?_act_of_ne (by simpa [Cache.Action.retrieval?] using hne) (by simp)
  have hacquire : (p.act (.acquire i)).cache.retrievals[j]? =
      p.cache.retrievals[j]? :=
    getElem?_act_of_ne (by simpa [Cache.Action.retrieval?] using hne) (by simp)
  unfold step
  split
  · exact henter
  · dsimp only
    split
    · rw [cache_send]
      exact hacquire
    · exact hacquire
  · split
    · rename_i f hf
      have hretrieval : f.retrieval = i := by simpa using List.find?_some hf
      exact getElem?_land_of_ne (hretrieval ▸ hne)
    · rfl
  · rfl

/-- The assumptions under way but one are found as before. -/
theorem find?_filter_of_ne (flights : List Flight) (hne : i ≠ j) :
    (flights.filter (·.retrieval ≠ i)).find? (·.retrieval = j) =
      flights.find? (·.retrieval = j) := by
  rw [List.find?_filter]
  congr 1
  funext f
  by_cases hf : f.retrieval = j
  · simp [hf, Ne.symm hne]
  · simp [hf]

/-- A step of one retrieval leaves the assumptions of the others alone. -/
theorem flight?_step_of_ne (hne : i ≠ j) :
    (p.step unit i).flight? j = p.flight? j := by
  unfold step
  split
  · rfl
  · dsimp only
    split
    · unfold send
      dsimp only
      split <;> simp [flight?, act, hne]
    · rfl
  · split
    · rename_i f hf
      have hretrieval : f.retrieval = i := by simpa using List.find?_some hf
      subst hretrieval
      unfold land
      dsimp only
      split
      · exact find?_filter_of_ne _ hne
      · split
        · exact find?_filter_of_ne _ hne
        · exact find?_filter_of_ne _ hne
    · rfl
  · rfl

end PlannedCache

end CloudAccess
