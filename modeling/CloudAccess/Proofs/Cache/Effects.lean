import CloudAccess.Cache.Basic
import CloudAccess.Proofs.Credential.Freshness

/-!
# What an action does to a cache

The statements about caches follow one step at a time.  This module says once
what a step can do.

* `lookup_eq_fresh_iff` and `lookup_eq_stale_iff` say what a handle sees in
  the slot, and `lt_of_fresh` that a fresh set is not expired.
* `Enabled` says when an action applies, and `Effect` lists what it does, with
  one constructor for each way in which a retrieval can go on or end, and the
  facts under which it does.  `effect_act` proves the list complete.
* `Effect.request_eq`, `Effect.clocks_eq` and `Effect.length_eq` say what an
  effect leaves as it is of a cache, and `Effect.other`, `Effect.ended` and
  `Effect.kept` what of a retrieval; `Effect.ends` says what ends one, and
  `Effect.handed` how it is handed a set.
-/

namespace CloudAccess.Cache

variable {s t : Cache} {a : Action} {i j : Nat} {h : Handle} {c : CredentialSet}

/-! ## What a handle sees in the slot -/

theorem lookup_eq_fresh_iff :
    s.lookup h = .fresh c ↔
      s.slot = some c ∧ c.freshAt? (s.now h) (s.window h) = some true := by
  unfold lookup
  cases s.slot with
  | none => simp
  | some d =>
    rw [Option.some_inj]
    constructor
    · intro hl
      cases hd : d.freshAt? (s.now h) (s.window h) with
      | none => simp [hd] at hl
      | some fresh => cases fresh <;> simp_all
    · rintro ⟨rfl, hd⟩
      simp [hd]

/-- The slot is stale for a handle when it is empty, or when its set is not
fresh at the reading of the handle's clock. -/
theorem lookup_eq_stale_iff :
    s.lookup h = .stale ↔
      s.slot = none ∨
        ∃ c, s.slot = some c ∧
          c.freshAt? (s.now h) (s.window h) = some false := by
  unfold lookup
  cases s.slot with
  | none => simp
  | some d =>
    cases hd : d.freshAt? (s.now h) (s.window h) with
    | none => simp [hd]
    | some fresh => cases fresh <;> simp [hd]

/-- A set that is fresh for a handle expires later than its clock reads. -/
theorem lt_of_fresh (hl : s.lookup h = .fresh c) :
    ∀ expiry ∈ c.expiresAt, s.now h < expiry :=
  CredentialSet.lt_of_freshAt? (s.zero_le_window h) (lookup_eq_fresh_iff.1 hl).2

/-! ## What the operations leave alone -/

@[simp] theorem retrievals_hit (s : Cache) : s.hit.retrievals = s.retrievals :=
  rfl

@[simp] theorem retrievals_failed (s : Cache) :
    s.failed.retrievals = s.retrievals := rfl

@[simp] theorem guard_setPhase (s : Cache) (i : Nat) (phase : Retrieval.Phase) :
    (s.setPhase i phase).guard = s.guard := rfl

@[simp] theorem getElem?_conclude (s : Cache) (i j : Nat)
    (result : Except AccessError CredentialSet) :
    (s.conclude i result).retrievals[j]? =
      if i = j then s.retrievals[j]?.map
        ({ · with fate := some (.returned result) })
      else s.retrievals[j]? :=
  getElem?_setFate _ i j _

@[simp] theorem getElem?_release (s : Cache) (i j : Nat) :
    (s.release i).retrievals[j]? =
      if i = j then s.retrievals[j]?.map ({ · with fate := some .dropped })
      else s.retrievals[j]? :=
  getElem?_setFate _ i j _

/-! ## What an action does -/

/-- An action on a retrieval applies when that has come to the point for it. -/
def Enabled (s : Cache) : Action → Prop
  | .enter i => ∃ h, s.retrievals[i]? = some ⟨h, .started, none⟩
  | .acquire i =>
    s.guard = none ∧ ∃ h, s.retrievals[i]? = some ⟨h, .waiting, none⟩
  | .settle i _ => ∃ h, s.retrievals[i]? = some ⟨h, .assuming, none⟩
  | .drop i => ∃ h phase, s.retrievals[i]? = some ⟨h, phase, none⟩
  | .start _ | .invalidate | .setClock _ _ | .addClock _ => True

/-- What an action does to a cache. -/
inductive Effect (s : Cache) : Action → Cache → Prop
  | idle {a : Action} (hidle : ¬s.Enabled a) : Effect s a s
  | start {h : Handle} :
      Effect s (.start h) { s with
        retrievals := s.retrievals ++ [{ handle := h }] }
  -- the first look
  | hit {i : Nat} {h : Handle} {c : CredentialSet}
      (hr : s.retrievals[i]? = some ⟨h, .started, none⟩)
      (hl : s.lookup h = .fresh c) :
      Effect s (.enter i) (s.hit.setFate i (.returned (.ok c)))
  | miss {i : Nat} {h : Handle}
      (hr : s.retrievals[i]? = some ⟨h, .started, none⟩)
      (hl : s.lookup h = .stale) :
      Effect s (.enter i)
        (({ s with ledger := s.ledger.enter .credentialRetrieve "refresh" } :
          Cache).setPhase i
          .waiting)
  | enterCrashed {i : Nat} {h : Handle}
      (hr : s.retrievals[i]? = some ⟨h, .started, none⟩)
      (hl : s.lookup h = .offCalendar) :
      Effect s (.enter i) (s.setFate i .crashed)
  -- the second look, with the guard
  | share {i : Nat} {h : Handle} {c : CredentialSet}
      (hr : s.retrievals[i]? = some ⟨h, .waiting, none⟩) (hg : s.guard = none)
      (hl : s.lookup h = .fresh c) :
      Effect s (.acquire i) (s.hit.conclude i (.ok c))
  | assume {i : Nat} {h : Handle}
      (hr : s.retrievals[i]? = some ⟨h, .waiting, none⟩) (hg : s.guard = none)
      (hl : s.lookup h = .stale) :
      Effect s (.acquire i)
        (({ s with
            guard := some i
            metrics := { s.metrics with refreshes := s.metrics.refreshes + 1 }
          } : Cache).setPhase i .assuming)
  | acquireCrashed {i : Nat} {h : Handle}
      (hr : s.retrievals[i]? = some ⟨h, .waiting, none⟩) (hg : s.guard = none)
      (hl : s.lookup h = .offCalendar) :
      Effect s (.acquire i) (s.setFate i .crashed)
  -- the end of an assumption
  | crash {i : Nat} {h : Handle}
      (hr : s.retrievals[i]? = some ⟨h, .assuming, none⟩) :
      Effect s (.settle i .crashed)
        (({ s with guard := none } : Cache).setFate i .crashed)
  | refuse {i : Nat} {h : Handle} {e : RemoteError}
      (hr : s.retrievals[i]? = some ⟨h, .assuming, none⟩) :
      Effect s (.settle i (.failed e))
        (({ s with guard := none } : Cache).failed.conclude i
          (.error (.credential (.assumeRole s.request.roleArn.text e))))
  | expire {i : Nat} {h : Handle} {c : CredentialSet} {expiry : Instant}
      (hr : s.retrievals[i]? = some ⟨h, .assuming, none⟩)
      (he : c.expiresAt = some expiry) (hle : expiry ≤ s.now h) :
      Effect s (.settle i (.value c))
        (({ s with guard := none } : Cache).failed.conclude i
          (.error (.credential (.expiredOnReceipt expiry))))
  | store {i : Nat} {h : Handle} {c : CredentialSet}
      (hr : s.retrievals[i]? = some ⟨h, .assuming, none⟩)
      (hlt : ∀ expiry ∈ c.expiresAt, s.now h < expiry) :
      Effect s (.settle i (.value c))
        (({ s with guard := none, slot := some c } : Cache).conclude i (.ok c))
  -- what comes from outside
  | drop {i : Nat} {h : Handle} {phase : Retrieval.Phase}
      (hr : s.retrievals[i]? = some ⟨h, phase, none⟩) :
      Effect s (.drop i) (s.release i)
  | invalidate : Effect s .invalidate { s with slot := none }
  | setClock {clock : Nat} {now : Instant} :
      Effect s (.setClock clock now) { s with clocks := s.clocks.set clock now }
  | addClock {now : Instant} :
      Effect s (.addClock now) { s with clocks := s.clocks ++ [now] }

theorem effect_enter (hr : s.retrievals[i]? = some ⟨h, .started, none⟩) :
    s.Effect (.enter i) (s.enter i h) := by
  unfold enter
  split
  · rename_i hl
    exact .hit hr hl
  · rename_i hl
    exact .enterCrashed hr hl
  · rename_i hl
    exact .miss hr hl

theorem effect_acquire (hr : s.retrievals[i]? = some ⟨h, .waiting, none⟩)
    (hg : s.guard = none) : s.Effect (.acquire i) (s.acquire i h) := by
  unfold acquire
  split
  · rename_i hl
    exact .share hr hg hl
  · rename_i hl
    exact .acquireCrashed hr hg hl
  · rename_i hl
    exact .assume hr hg hl

theorem effect_settle (hr : s.retrievals[i]? = some ⟨h, .assuming, none⟩)
    (answer : Outcome CredentialSet) :
    s.Effect (.settle i answer) (s.settle i h answer) := by
  unfold settle
  cases answer with
  | crashed => exact .crash hr
  | failed e => exact .refuse hr
  | value c =>
    dsimp only
    split
    · rename_i expiry hexpiry
      simp only [Option.filter_eq_some_iff, decide_eq_true_eq] at hexpiry
      exact .expire hr hexpiry.1 hexpiry.2
    · rename_i hnone
      refine .store hr fun expiry hin => ?_
      simp only [Option.filter_eq_none_iff, decide_eq_true_eq] at hnone
      exact Int.not_le.1 (hnone expiry hin)

/-- Every action has one of the listed effects. -/
theorem effect_act (s : Cache) (a : Action) : s.Effect a (s.act a) := by
  unfold act
  split
  · exact .start
  · split
    · rename_i hr
      exact effect_enter hr
    · rename_i hr
      exact .idle fun ⟨h, hs⟩ => hr h hs
  · split
    · rename_i hr hg
      exact effect_acquire hr hg
    · rename_i hr
      exact .idle fun ⟨hg, h, hs⟩ => hr h hs hg
  · split
    · rename_i hr
      exact effect_settle hr _
    · rename_i hr
      exact .idle fun ⟨h, hs⟩ => hr h hs
  · split
    · rename_i hr
      exact .drop hr
    · rename_i hr
      exact .idle fun ⟨h, phase, hs⟩ => hr h phase hs
  · exact .invalidate
  · exact .setClock
  · exact .addClock

/-! ## What an effect changes of a retrieval

An action on a retrieval leaves the others alone.  A retrieval that has ended
stays as it is, and one that goes on keeps its handle. -/

/-- The retrieval on which an action is carried out. -/
def Action.retrieval? : Action → Option Nat
  | .enter i | .acquire i | .settle i _ | .drop i => some i
  | .start _ | .invalidate | .setClock _ _ | .addClock _ => none

/-- A retrieval has been started and has not ended. -/
def IsLive (s : Cache) (i : Nat) : Prop :=
  ∃ h phase, s.retrievals[i]? = some ⟨h, phase, none⟩

variable {r : Retrieval}

/-- Only the retrieval on which an action is carried out changes, and only a
start adds one. -/
theorem Effect.getElem?_of_ne (he : s.Effect a t) (hj : a.retrieval? ≠ some j)
    (hstart : ∀ h, a ≠ .start h) : t.retrievals[j]? = s.retrievals[j]? := by
  cases he with
  | start => exact absurd rfl (hstart _)
  | @hit i | @miss i | @enterCrashed i | @share i | @assume i
  | @acquireCrashed i | @crash i
  | @refuse i | @expire i | @store i | @drop i =>
    have hne : i ≠ j := fun heq => hj (congrArg some heq)
    simp [hne]
  | _ => rfl

/-- No action changes the request of a cache. -/
theorem Effect.request_eq (he : s.Effect a t) : t.request = s.request :=
  by cases he <;> rfl

/-- An action on a retrieval leaves the clocks as they are. -/
theorem Effect.clocks_eq (he : s.Effect a t) (ha : a.retrieval?.isSome = true) :
    t.clocks = s.clocks := by
  cases he <;> first | rfl | cases ha

/-- Only a start adds a retrieval. -/
theorem Effect.length_eq (he : s.Effect a t) (hstart : ∀ h, a ≠ .start h) :
    t.retrievals.length = s.retrievals.length := by
  cases he with
  | start => exact absurd rfl (hstart _)
  | idle | invalidate | setClock | addClock => rfl
  | _ => exact List.length_modify _ _ _

/-- The other retrievals stay as they are. -/
theorem Effect.other (he : s.Effect a t) (hr : s.retrievals[j]? = some r)
    (hj : a.retrieval? ≠ some j) : t.retrievals[j]? = some r := by
  by_cases hstart : ∃ h, a = .start h
  · obtain ⟨h, rfl⟩ := hstart
    cases he with
    | idle => exact hr
    | start =>
      obtain ⟨hlt, _⟩ := List.getElem?_eq_some_iff.1 hr
      exact (List.getElem?_append_left hlt).trans hr
  · rw [he.getElem?_of_ne hj fun h heq => hstart ⟨h, heq⟩, hr]

/-- A retrieval that has ended stays as it is. -/
theorem Effect.ended (he : s.Effect a t) (hr : s.retrievals[j]? = some r)
    (hf : r.fate.isSome = true) : t.retrievals[j]? = some r := by
  by_cases hj : a.retrieval? = some j
  · obtain ⟨h, phase, _ | fate⟩ := r
    · cases hf
    · cases he with
      | idle => exact hr
      | _ => cases hj <;> simp_all
  · exact he.other hr hj

/-- Only an action on a retrieval ends it. -/
theorem Effect.ends (he : s.Effect a t) (hlive : s.IsLive j)
    (hr : t.retrievals[j]? = some r) (hf : r.fate.isSome = true) :
    a.retrieval? = some j := by
  obtain ⟨h, phase, hbefore⟩ := hlive
  refine Decidable.byContradiction fun hj => ?_
  rw [he.other hbefore hj, Option.some_inj] at hr
  subst hr
  cases hf

/-- A retrieval keeps its handle, and one that assumes the role does not go
back. -/
theorem Effect.kept (he : s.Effect a t) (hr : s.retrievals[j]? = some r) :
    ∃ r', t.retrievals[j]? = some r' ∧ r'.handle = r.handle ∧
      (r.phase = .assuming → r'.phase = .assuming) := by
  by_cases hj : a.retrieval? = some j
  · cases he with
    | idle => exact ⟨r, hr, rfl, id⟩
    | hit hk | miss hk | enterCrashed hk | share hk | assume hk
    | acquireCrashed hk | crash hk
    | refuse hk | expire hk | store hk | drop hk =>
      cases hj
      obtain rfl := Option.some.inj (hk.symm.trans hr)
      simp [hk]
    | _ => cases hj
  · exact ⟨r, he.other hr hj, rfl, id⟩

/-- A retrieval begins with nothing done. -/
theorem Effect.begins (he : s.Effect a t) (hnone : s.retrievals[j]? = none)
    (hr : t.retrievals[j]? = some r) : r.phase = .started ∧ r.fate = none := by
  cases he with
  | @start h =>
    have hge := List.getElem?_eq_none_iff.1 hnone
    rw [List.getElem?_append_right hge, List.getElem?_singleton] at hr
    split at hr
    · obtain rfl := Option.some.inj hr
      exact ⟨rfl, rfl⟩
    · cases hr
  | @hit i | @miss i | @enterCrashed i | @share i | @assume i
  | @acquireCrashed i | @crash i
  | @refuse i | @expire i | @store i | @drop i =>
    by_cases heq : i = j
    · simp_all
    · simp [heq, hnone] at hr
  | _ =>
    rw [hnone] at hr
    cases hr

/-- A retrieval is handed a set in one of two ways: a look shows it the set in
the slot, or its own assumption brings one, which goes into the slot. -/
theorem Effect.handed (he : s.Effect a t) (hlive : s.IsLive i)
    (hr : t.retrievals[i]? = some r) (hf : r.fate = some (.returned (.ok c))) :
    t.clocks = s.clocks ∧
      ((a = .enter i ∨ a = .acquire i) ∧ t.slot = s.slot ∧
        s.lookup r.handle = .fresh c ∨
        a = .settle i (.value c) ∧ t.slot = some c ∧
          s.retrievals[i]? = some ⟨r.handle, .assuming, none⟩ ∧
          ∀ expiry ∈ c.expiresAt, s.now r.handle < expiry) := by
  have hi := he.ends hlive hr (by rw [hf]; rfl)
  obtain ⟨h, phase, hbefore⟩ := hlive
  cases he with
  | idle =>
    rw [hbefore] at hr
    cases hr
    cases hf
  | hit hk hl | share hk _ hl =>
    cases hi
    simp only [getElem?_setFate, getElem?_conclude, retrievals_hit, hk, if_true]
      at hr
    cases hr
    cases hf
    exact ⟨rfl, .inl ⟨by simp, rfl, hl⟩⟩
  | store hk hlt =>
    cases hi
    simp only [getElem?_conclude, hk, if_true] at hr
    cases hr
    cases hf
    exact ⟨rfl, .inr ⟨rfl, rfl, hk, hlt⟩⟩
  | _ => cases hi <;> simp_all <;> cases hr <;> cases hf

end CloudAccess.Cache
