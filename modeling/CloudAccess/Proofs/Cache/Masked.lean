import CloudAccess.Cache.Session
import CloudAccess.Proofs.Cache.Handoff

/-!
# A cache without its secrets

Masking puts one text in the place of every secret key and session token, and
leaves everything else as it is: the access keys, whether there is a token, the
expiries, the errors, and all that a cache counts and reports.

* `CredentialSet.masked_eq_iff` says what two sets share that are the same when
  masked, and `debugText_masked` that they are shown alike.
* `PlannedAssumption.Alike` says that two planned assumptions differ in their
  secrets at most, and `answer_masked` that masking a plan masks its answers.
* `Cache.masked_act` and `PlannedCache.masked_step` say that what is done to a
  masked cache is what is done to the cache, masked.
-/

namespace CloudAccess

/-! ## Credential sets -/

/-- The secret that stands for all others. -/
def Secret.mask : Secret := ⟨Secret.redacted⟩

namespace CredentialSet

/-- A credential set without its secrets.  Whether there is a token is left. -/
def masked (c : CredentialSet) : CredentialSet :=
  { c with
    secretAccessKey := .mask
    sessionToken := c.sessionToken.map fun _ => .mask }

variable {c d : CredentialSet}

/-- Without their secrets two sets are the same when they share the access key
and the expiry, and both have a token or neither does. -/
theorem masked_eq_iff :
    c.masked = d.masked ↔ c.accessKeyId = d.accessKeyId ∧
      c.sessionToken.isSome = d.sessionToken.isSome ∧
      c.expiresAt = d.expiresAt := by
  have htoken : (c.sessionToken.map fun _ => Secret.mask) =
      (d.sessionToken.map fun _ => Secret.mask) ↔
        c.sessionToken.isSome = d.sessionToken.isSome := by
    cases c.sessionToken <;> cases d.sessionToken <;> simp
  simp only [masked, CredentialSet.mk.injEq, true_and, htoken]

/-- A set is shown without its secrets. -/
theorem debugText_masked (c : CredentialSet) :
    c.masked.debugText = c.debugText := by
  obtain ⟨key, secret, token, expiry⟩ := c
  cases token <;> rfl

end CredentialSet

/-- The given parts of a set without their secrets.  An empty key stays empty,
since no set is built with it. -/
def CredentialBuilder.masked (b : CredentialBuilder) : CredentialBuilder :=
  { b with
    secretAccessKey :=
      b.secretAccessKey.map fun key => if key.isEmpty then key else .mask
    sessionToken := b.sessionToken.map fun _ => .mask }

/-- Whether there is a key does not depend on what it is. -/
theorem CredentialBuilder.filter_masked (b : CredentialBuilder) :
    b.masked.secretAccessKey.filter (!·.isEmpty) =
      (b.secretAccessKey.filter (!·.isEmpty)).map fun _ => .mask := by
  have hmask : Secret.mask.isEmpty = false := by decide
  cases hkey : b.secretAccessKey with
  | none => simp [masked, hkey]
  | some key =>
    cases hempty : key.isEmpty <;>
      simp [masked, hkey, hempty, hmask, Option.filter]

/-- Whether a set can be built, and what is missing, does not depend on the
secrets. -/
theorem CredentialBuilder.build_masked (b : CredentialBuilder) :
    b.masked.build = b.build.map CredentialSet.masked := by
  have hkey : b.masked.accessKeyId = b.accessKeyId := rfl
  unfold build
  rw [filter_masked, hkey]
  cases b.accessKeyId.filter (!·.isEmpty) with
  | none => rfl
  | some key => cases b.secretAccessKey.filter (!·.isEmpty) <;> rfl

/-! ## Planned assumptions -/

/-- An answer without its secrets. -/
def Outcome.masked : Outcome CredentialSet → Outcome CredentialSet
  | .value c => .value c.masked
  | .failed e => .failed e
  | .crashed => .crashed

namespace PlannedAssumption

/-- A planned assumption without its secrets.  An empty key stays empty. -/
def masked (p : PlannedAssumption) : PlannedAssumption :=
  { p with
    secretAccessKey := p.secretAccessKey.map fun key =>
      if key.isEmpty then key else Secret.redacted
    sessionToken := p.sessionToken.map fun _ => Secret.redacted }

/-- Two planned assumptions that differ at most in what their secret keys are,
where these are not empty, and in what their tokens are. -/
structure Alike (p q : PlannedAssumption) : Prop where
  rest : q = { p with
    secretAccessKey := q.secretAccessKey, sessionToken := q.sessionToken }
  key : q.secretAccessKey = p.secretAccessKey ∨
    ∃ a ∈ p.secretAccessKey, ∃ b ∈ q.secretAccessKey, a ≠ "" ∧ b ≠ ""
  token : q.sessionToken.isSome = p.sessionToken.isSome

/-- Without their secrets they are the same. -/
theorem Alike.masked {p q : PlannedAssumption} (h : p.Alike q) :
    q.masked = p.masked := by
  have hkey :
      (q.secretAccessKey.map fun key =>
          if key.isEmpty then key else Secret.redacted) =
        p.secretAccessKey.map fun key =>
          if key.isEmpty then key else Secret.redacted := by
    rcases h.key with hsame | ⟨a, ha, b, hb, ha', hb'⟩
    · rw [hsame]
    · rw [Option.mem_def] at ha hb
      simp [ha, hb, ha', hb']
  have htoken : (q.sessionToken.map fun _ => Secret.redacted) =
      p.sessionToken.map fun _ => Secret.redacted := by
    have hsame := h.token
    cases hp : p.sessionToken <;> cases hq : q.sessionToken <;> simp_all
  rw [PlannedAssumption.masked, PlannedAssumption.masked, hkey, htoken, h.rest]

/-- The parts of the set that a masked assumption brings. -/
theorem parts_masked (p : PlannedAssumption) (expiresAt : Option Instant) :
    (⟨p.masked.accessKeyId, p.masked.secretAccessKey.map Secret.mk,
        p.masked.sessionToken.map Secret.mk, expiresAt⟩ : CredentialBuilder) =
      (⟨p.accessKeyId, p.secretAccessKey.map Secret.mk,
        p.sessionToken.map Secret.mk,
        expiresAt⟩ : CredentialBuilder).masked := by
  simp only [PlannedAssumption.masked, CredentialBuilder.masked, Option.map_map]
  congr 2
  funext key
  show Secret.mk (if key.isEmpty then key else _) = if key.isEmpty
    then ⟨key⟩ else .mask
  split <;> rfl

/-- Masking a planned assumption masks its answer. -/
theorem answer_masked (p : PlannedAssumption) (now : Instant) :
    p.masked.answer now = (p.answer now).masked := by
  have hcrashes : p.masked.crashes = p.crashes := rfl
  have herror : p.masked.error = p.error := rfl
  have hexpires : p.masked.expiresAt? now = p.expiresAt? now := rfl
  unfold answer
  simp only [hcrashes, herror, hexpires, parts_masked,
    CredentialBuilder.build_masked]
  cases p.crashes with
  | true => rfl
  | false =>
    cases p.error with
    | some e => rfl
    | none =>
      cases p.expiresAt? now with
      | none => rfl
      | some expiresAt =>
        dsimp only
        cases (⟨p.accessKeyId, p.secretAccessKey.map Secret.mk,
          p.sessionToken.map Secret.mk,
          expiresAt⟩ : CredentialBuilder).build <;> rfl

end PlannedAssumption

/-! ## Caches -/

/-- What a look shows, without its secrets. -/
def Lookup.masked : Lookup → Lookup
  | .fresh c => .fresh c.masked
  | .stale => .stale
  | .offCalendar => .offCalendar

/-- How a retrieval has ended, without the secrets of the set that it was
handed.  An error stays as it is. -/
def Retrieval.Fate.masked : Retrieval.Fate → Retrieval.Fate
  | .returned result => .returned (result.map CredentialSet.masked)
  | .crashed => .crashed
  | .dropped => .dropped

/-- A retrieval without the secrets of its set. -/
def Retrieval.masked (r : Retrieval) : Retrieval :=
  { r with fate := r.fate.map Fate.masked }

namespace Cache

/-- An action without the secrets of the answer that it brings. -/
def Action.masked : Action → Action
  | .settle i answer => .settle i answer.masked
  | a => a

/-- A cache without its secrets. -/
def masked (s : Cache) : Cache :=
  { s with
    slot := s.slot.map CredentialSet.masked
    retrievals := s.retrievals.map Retrieval.masked }

variable {s t : Cache}

/-- A change of one item, seen through a map. -/
theorem map_modify {α β : Type} (f : α → β) (g : α → α) (h : β → β) (l : List α)
    (i : Nat) (heq : ∀ a, f (g a) = h (f a)) :
    (l.modify i g).map f = (l.map f).modify i h := by
  refine List.ext_getElem? fun j => ?_
  simp only [List.getElem?_map, List.getElem?_modify]
  cases l[j]? with
  | none => simp
  | some a => by_cases hij : i = j <;> simp [hij, heq]

theorem getElem?_masked (s : Cache) (i : Nat) :
    s.masked.retrievals[i]? = s.retrievals[i]?.map Retrieval.masked :=
      List.getElem?_map

/-- A look does not see the secrets. -/
theorem lookup_masked (s : Cache) (h : Handle) :
    s.masked.lookup h = (s.lookup h).masked := by
  unfold lookup
  cases hslot : s.slot with
  | none => simp [masked, hslot, Lookup.masked]
  | some c =>
    have hfresh : c.masked.freshAt? (s.masked.now h) (s.masked.window h) =
        c.freshAt? (s.now h) (s.window h) := rfl
    simp only [show s.masked.slot =
      some c.masked by simp [masked, hslot], hfresh]
    cases c.freshAt? (s.now h) (s.window h) with
    | none => rfl
    | some fresh => cases fresh <;> rfl

theorem masked_setPhase (s : Cache) (i : Nat) (phase : Retrieval.Phase) :
    (s.setPhase i phase).masked = s.masked.setPhase i phase := by
  have hretrievals := map_modify Retrieval.masked ({ · with phase := phase })
    ({ · with phase := phase }) s.retrievals i fun _ => rfl
  simp only [setPhase, masked, hretrievals]

theorem masked_setFate (s : Cache) (i : Nat) (fate : Retrieval.Fate) :
    (s.setFate i fate).masked = s.masked.setFate i fate.masked := by
  have hretrievals := map_modify Retrieval.masked ({ · with fate := some fate })
    ({ · with fate := some fate.masked }) s.retrievals i fun _ => rfl
  simp only [setFate, masked, hretrievals]

/-- A result is counted whatever secrets it has. -/
theorem masked_conclude (s : Cache) (i : Nat)
    (result : Except AccessError CredentialSet) :
    (s.conclude i result).masked =
      s.masked.conclude i (result.map CredentialSet.masked) := by
  unfold conclude
  rw [masked_setFate]
  cases result <;> rfl

theorem masked_enter (s : Cache) (i : Nat) (h : Handle) :
    (s.enter i h).masked = s.masked.enter i h := by
  unfold enter
  rw [lookup_masked]
  cases s.lookup h with
  | fresh c => exact masked_setFate s.hit i _
  | stale => exact masked_setPhase _ i _
  | offCalendar => exact masked_setFate s i _

theorem masked_acquire (s : Cache) (i : Nat) (h : Handle) :
    (s.acquire i h).masked = s.masked.acquire i h := by
  unfold acquire
  rw [lookup_masked]
  cases s.lookup h with
  | fresh c => exact masked_conclude s.hit i _
  | stale => exact masked_setPhase _ i _
  | offCalendar => exact masked_setFate s i _

/-- An answer is handed on, stored or refused whatever its secrets are. -/
theorem masked_settle (s : Cache) (i : Nat) (h : Handle)
    (answer : Outcome CredentialSet) :
    (s.settle i h answer).masked = s.masked.settle i h answer.masked := by
  unfold settle
  cases answer with
  | crashed => exact masked_setFate _ i _
  | failed e => exact masked_conclude _ i _
  | value c =>
    have hexpires : c.masked.expiresAt = c.expiresAt := rfl
    have hnow : ({ s.masked with guard := none } : Cache).now h =
        ({ s with guard := none } : Cache).now h := rfl
    simp only [Outcome.masked, hexpires, hnow]
    split
    · exact masked_conclude _ i _
    · exact masked_conclude _ i _

/-- What is done to a cache does not depend on the secrets. -/
theorem masked_act (s : Cache) (a : Action) :
    (s.act a).masked = s.masked.act a.masked := by
  cases a with
  | start handle => simp [act, masked, Action.masked, Retrieval.masked]
  | enter i =>
    simp only [act, Action.masked, getElem?_masked]
    cases hr : s.retrievals[i]? with
    | none => rfl
    | some r =>
      obtain ⟨h, phase, fate⟩ := r
      cases phase <;> cases fate <;> first | exact masked_enter s i h | rfl
  | acquire i =>
    simp only [act, Action.masked, getElem?_masked]
    cases hr : s.retrievals[i]? with
    | none => rfl
    | some r =>
      obtain ⟨h, phase, fate⟩ := r
      have hguard : s.masked.guard = s.guard := rfl
      rw [hguard]
      cases phase <;> cases fate <;> cases s.guard <;>
        first | exact masked_acquire s i h | rfl
  | settle i answer =>
    simp only [act, Action.masked, getElem?_masked]
    cases hr : s.retrievals[i]? with
    | none => rfl
    | some r =>
      obtain ⟨h, phase, fate⟩ := r
      cases phase <;> cases fate <;>
        first | exact masked_settle s i h answer | rfl
  | drop i =>
    simp only [act, Action.masked, getElem?_masked]
    cases hr : s.retrievals[i]? with
    | none => rfl
    | some r =>
      obtain ⟨h, phase, fate⟩ := r
      cases fate with
      | none => exact masked_setFate _ i _
      | some fate => rfl
  | invalidate | setClock | addClock => rfl

/-- So it is after any actions. -/
theorem masked_after (s : Cache) (run : List Action) :
    (s.after run).masked = s.masked.after (run.map Action.masked) := by
  induction run generalizing s with
  | nil => rfl
  | cons a run ih =>
    show ((s.act a).after run).masked = _
    rw [ih, masked_act]
    rfl

end Cache

/-! ## Planned caches -/

/-- An assumption under way without the secrets of its answer. -/
def Flight.masked (f : Flight) : Flight := { f with answer := f.answer.masked }

namespace PlannedCache

/-- A planned cache without its secrets. -/
def masked (p : PlannedCache) : PlannedCache :=
  { p with
    cache := p.cache.masked
    plan := p.plan.map PlannedAssumption.masked
    flights := p.flights.map Flight.masked }

variable {p : PlannedCache}

theorem masked_act (p : PlannedCache) (a : Cache.Action) :
    (p.act a).masked = p.masked.act a.masked := by
  simp only [act, masked, Cache.masked_act]

theorem flight?_masked (p : PlannedCache) (i : Nat) :
    p.masked.flight? i = (p.flight? i).map Flight.masked := by
  show (p.flights.map Flight.masked).find? _ = _
  rw [List.find?_map]
  rfl

theorem firstWaiting?_masked (p : PlannedCache) :
    p.masked.firstWaiting? = p.firstWaiting? := by
  simp only [firstWaiting?, masked, Cache.masked, List.findIdx?_map]
  congr 1
  funext r
  show (decide (r.phase = .waiting) &&
    (r.fate.map Retrieval.Fate.masked).isNone) = _
  rw [Option.isNone_map]

/-- The retrievals of a masked cache. -/
theorem getElem?_masked (p : PlannedCache) (i : Nat) :
    p.masked.cache.retrievals[i]? =
      p.cache.retrievals[i]?.map Retrieval.masked :=
  Cache.getElem?_masked p.cache i

/-- Which retrieval can go on does not depend on the secrets. -/
theorem ready_masked (p : PlannedCache) (unit i : Nat) :
    p.masked.ready unit i = p.ready unit i := by
  have hguard : p.masked.cache.guard = p.cache.guard := rfl
  have hflight : (p.masked.flight? i).any (·.due ≤ unit) =
      (p.flight? i).any (·.due ≤ unit) := by
    rw [flight?_masked]
    cases p.flight? i <;> rfl
  simp only [ready, getElem?_masked, hguard, firstWaiting?_masked, hflight]
  cases p.cache.retrievals[i]? with
  | none => rfl
  | some r =>
    obtain ⟨h, phase, fate⟩ := r
    cases phase <;> cases fate <;> rfl

/-- Nor does the time at which one can. -/
theorem due_masked (p : PlannedCache) (i : Nat) : p.masked.due i = p.due i := by
  have hflight : (p.masked.flight? i).map (·.due) =
      (p.flight? i).map (·.due) := by
    rw [flight?_masked]
    cases p.flight? i <;> rfl
  simp only [due, getElem?_masked, hflight]
  cases p.cache.retrievals[i]? with
  | none => rfl
  | some r =>
    obtain ⟨h, phase, fate⟩ := r
    cases phase <;> cases fate <;> rfl

theorem fate?_masked (p : PlannedCache) (i : Nat) :
    p.masked.fate? i = (p.fate? i).map Retrieval.Fate.masked := by
  simp only [fate?, getElem?_masked]
  cases p.cache.retrievals[i]? <;> rfl

theorem masked_send (p : PlannedCache) (unit i : Nat) :
    (p.send unit i).masked = p.masked.send unit i := by
  unfold send
  cases hplan : p.plan with
  | nil =>
    have hmasked : p.masked.plan = [] := by simp [masked, hplan]
    simp only [hmasked]
    rfl
  | cons next plan =>
    have hmasked : p.masked.plan =
        next.masked :: plan.map PlannedAssumption.masked := by
      simp [masked, hplan]
    simp only [hmasked, PlannedAssumption.answer_masked]
    rfl

/-- The assumptions under way but that of one retrieval. -/
theorem masked_without (p : PlannedCache) (i : Nat) :
    ({ p with flights := p.flights.filter (·.retrieval ≠ i) } :
      PlannedCache).masked =
      { p.masked with
        flights := p.masked.flights.filter (·.retrieval ≠ i) } := by
  have hflights : (p.flights.filter (·.retrieval ≠ i)).map Flight.masked =
      (p.flights.map Flight.masked).filter (·.retrieval ≠ i) := by
    rw [List.filter_map]
    rfl
  simp only [masked, hflights]

theorem masked_land (p : PlannedCache) (f : Flight) :
    (p.land f).masked = p.masked.land f.masked := by
  have hadvance : f.masked.advance = f.advance := rfl
  have hretrieval : f.masked.retrieval = f.retrieval := rfl
  unfold land
  simp only [hadvance, hretrieval, ← masked_without]
  cases f.advance with
  | none => exact masked_act _ _
  | some span =>
    have hreading (q : PlannedCache) : q.masked.firstReading = q.firstReading :=
      rfl
    dsimp only
    rw [hreading]
    split
    · exact masked_act _ _
    · rw [masked_act, masked_act]
      rfl

/-- What a retrieval does does not depend on the secrets. -/
theorem masked_step (p : PlannedCache) (unit i : Nat) :
    (p.step unit i).masked = p.masked.step unit i := by
  unfold step
  rw [getElem?_masked]
  cases p.cache.retrievals[i]? with
  | none => rfl
  | some r =>
    obtain ⟨h, phase, fate⟩ := r
    cases fate with
    | some fate => cases phase <;> rfl
    | none =>
      cases phase with
      | started => exact masked_act p (.enter i)
      | waiting =>
        have hacquire : p.masked.act (.acquire i) =
            (p.act (.acquire i)).masked :=
          (masked_act p (.acquire i)).symm
        simp only [Retrieval.masked, Option.map_some, Option.map_none, hacquire,
          getElem?_masked]
        generalize p.act (.acquire i) = q
        cases q.cache.retrievals[i]? with
        | none => rfl
        | some r =>
          obtain ⟨h, phase, fate⟩ := r
          cases phase <;> cases fate <;>
            first | exact masked_send q unit i | rfl
      | assuming =>
        simp only [Retrieval.masked, Option.map_some, Option.map_none,
          flight?_masked]
        cases p.flight? i with
        | none => rfl
        | some f => exact masked_land p f

theorem masked_drop (p : PlannedCache) (i : Nat) :
    (p.drop i).masked = p.masked.drop i := by
  have hact : p.masked.act (.drop i) = (p.act (.drop i)).masked :=
    (masked_act p (.drop i)).symm
  unfold drop
  rw [hact]
  exact masked_without (p.act (.drop i)) i

end PlannedCache

end CloudAccess
