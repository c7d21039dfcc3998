import CloudAccess.Proofs.Cache.Flight
import Mathlib.Logic.Function.Basic

/-!
# Where a set comes from

Whose assumption brought the set that a retrieval was handed.  A `Traced`
cache notes it beside the cache: the retrieval that filled the slot, and for
each retrieval that was handed a set the one whose assumption brought that
set.  The notes change nothing of what the cache does.

* `Traced.Effect` says what an action does to the notes.
* `Traced.Reaches.faithful` says that the notes are true: a retrieval has a
  source exactly when it was handed a set, and the source was handed the same
  set by its own assumption.
* `served_after_invalidate` says what an invalidation does for retrievals that
  begin later.  It keeps every earlier assumption's set from them, except that
  of an assumption under way at that moment.
-/

namespace CloudAccess

namespace Cache

variable {s t : Cache} {a : Action} {i j : Nat} {r : Retrieval}
  {c : CredentialSet}

/-- The set that a retrieval was handed. -/
def handed? (s : Cache) (i : Nat) : Option CredentialSet :=
  match s.retrievals[i]? with
  | some ⟨_, _, some (.returned (.ok c))⟩ => some c
  | _ => none

/-- The assumption of a retrieval has begun. -/
def Began (s : Cache) (i : Nat) : Prop :=
  ∃ h fate, s.retrievals[i]? = some ⟨h, .assuming, fate⟩

theorem handed?_eq_some_iff :
    s.handed? i = some c ↔
      ∃ h phase, s.retrievals[i]? =
        some ⟨h, phase, some (.returned (.ok c))⟩ := by
  unfold handed?
  split
  · rename_i h phase d hr
    simp [hr]
  · rename_i hnone
    simp only [reduceCtorEq, false_iff]
    rintro ⟨h, phase, hr⟩
    exact hnone h phase c hr

/-- A retrieval that goes on was handed nothing. -/
theorem handed?_of_live {h : Handle} {phase : Retrieval.Phase}
    (hr : s.retrievals[i]? = some ⟨h, phase, none⟩) : s.handed? i = none := by
  simp [handed?, hr]

/-- A set that was handed out stays with its retrieval. -/
theorem Effect.handed? (he : s.Effect a t) (hc : s.handed? i = some c) :
    t.handed? i = some c := by
  obtain ⟨h, phase, hr⟩ := handed?_eq_some_iff.1 hc
  exact handed?_eq_some_iff.2 ⟨h, phase, he.ended hr rfl⟩

/-- A set is handed out by an action on a retrieval that is live. -/
theorem Effect.handed?_eq (he : s.Effect a t) :
    t.handed? j = s.handed? j ∨
      a.retrieval? = some j ∧ s.handed? j = none ∧ s.IsLive j ∧
      ∃ c, t.handed? j = some c := by
  cases hs : s.handed? j with
  | some c => exact .inl (he.handed? hs)
  | none =>
    cases ht : t.handed? j with
    | none => exact .inl rfl
    | some c =>
      obtain ⟨h, phase, hafter⟩ := handed?_eq_some_iff.1 ht
      cases hr : s.retrievals[j]? with
      | none => cases (he.begins hr hafter).2
      | some r =>
        have hlive : s.IsLive j := by
          obtain ⟨g, before, _ | fate⟩ := r
          · exact ⟨g, before, hr⟩
          · have hsame := he.ended hr rfl
            rw [hafter, Option.some_inj] at hsame
            rw [← hsame] at hr
            rw [handed?_eq_some_iff.2 ⟨_, _, hr⟩] at hs
            cases hs
        refine .inr ⟨?_, rfl, hlive, c, rfl⟩
        refine Decidable.byContradiction fun hj => ?_
        obtain ⟨g, before, hbefore⟩ := hlive
        rw [he.other hbefore hj, Option.some_inj] at hafter
        cases hafter

/-- The slot is emptied by an invalidation and filled by an assumption. -/
theorem Effect.slot (he : s.Effect a t) :
    t.slot = s.slot ∨ (a = .invalidate ∧ t.slot = none) ∨
      ∃ i c, a = .settle i (.value c) ∧ s.Assumes i ∧ t.slot = some c ∧
        t.handed? i = some c := by
  cases he with
  | invalidate => exact .inr (.inl ⟨rfl, rfl⟩)
  | @store i h c hr =>
    refine .inr (.inr ⟨i, c, rfl, ⟨h, hr⟩, rfl, ?_⟩)
    exact handed?_eq_some_iff.2 ⟨h, .assuming, by simp [hr]⟩
  | _ => exact .inl rfl

/-- An assumption that has begun stays so. -/
theorem Effect.began (he : s.Effect a t) (hi : s.Began i) : t.Began i := by
  obtain ⟨h, fate, hr⟩ := hi
  obtain ⟨⟨g, phase, fate'⟩, hr', _, hp⟩ := he.kept hr
  obtain rfl : phase = .assuming := hp rfl
  exact ⟨g, fate', hr'⟩

/-- An assumption that had begun and goes on was under way before. -/
theorem assumes_of_began (h : s.Reaches t) (hbegan : s.Began i)
    (hi : t.Assumes i) : s.Assumes i := by
  obtain ⟨g, _ | fate, hr⟩ := hbegan
  · exact ⟨g, hr⟩
  · obtain ⟨run, rfl⟩ := reaches_iff_after.1 h
    obtain ⟨g', hr'⟩ := hi
    rw [ended_after run hr rfl, Option.some_inj] at hr'
    cases hr'

end Cache

open Cache

/-- A cache with the retrieval whose assumption filled its slot, and for each
retrieval the one whose assumption brought the set that it was handed. -/
structure Traced where
  cache : Cache
  filler : Option Nat := none
  source : Nat → Option Nat := fun _ => none

namespace Traced

/-- A traced cache before its first use. -/
def start (request : Request) (clocks : List Instant) : Traced where
  cache := .unused request clocks

/-- Whether an action hands a retrieval a set. -/
def hands (p : Traced) (a : Action) (i : Nat) : Bool :=
  ((p.cache.act a).handed? i).isSome && (p.cache.handed? i).isNone

/-- Notes the source of the set that an action hands a retrieval. -/
def note (p : Traced) (a : Action) (i : Nat) (source : Option Nat) : Traced :=
  { p with cache := p.cache.act a, source := Function.update p.source i source }

/-- Carries out one action and notes where a set comes from that it hands out:
from the slot, or from the assumption itself. -/
def act (p : Traced) (a : Action) : Traced :=
  match a with
  | .enter i | .acquire i =>
    if p.hands a i then p.note a i p.filler
      else { p with cache := p.cache.act a }
  | .settle i _ =>
    if p.hands a i then { p.note a i (some i) with filler := some i }
    else { p with cache := p.cache.act a }
  | .invalidate => { p with cache := p.cache.act a, filler := none }
  | .start _ | .drop _ | .setClock _ _ | .addClock _ =>
    { p with cache := p.cache.act a }

/-- The notes leave the cache as it is without them. -/
@[simp] theorem cache_act (p : Traced) (a : Action) :
    (p.act a).cache = p.cache.act a := by
  cases a <;> simp only [act, note] <;> split <;> rfl

/-- Any action takes a traced cache to the next state. -/
def Step (p q : Traced) : Prop := ∃ a : Action, q = p.act a

/-- A state is reached from another by actions in any order. -/
abbrev Reaches : Traced → Traced → Prop := CloudAccess.Reaches Step

/-- A traced cache after some actions. -/
def after (p : Traced) (run : List Action) : Traced := run.foldl act p

theorem reaches_after (p : Traced) (run : List Action) :
    p.Reaches (p.after run) := by
  induction run generalizing p with
  | nil => exact .refl
  | cons a run ih => exact (Reaches.single ⟨a, rfl⟩).trans (ih (p.act a))

/-! ## What an action does to the notes -/

/-- What an action does to a traced cache: a look hands out the set in the
slot, an assumption brings a set that fills the slot, an invalidation empties
it, and otherwise no set is handed out. -/
inductive Effect (p : Traced) : Action → Traced → Prop
  | serve {a : Action} {i : Nat} {c : CredentialSet}
      (hnew : p.cache.handed? i = none) (hslot : p.cache.slot = some c)
      (hkeep : (p.cache.act a).slot = p.cache.slot)
      (hc : (p.cache.act a).handed? i = some c)
      (hother : ∀ j, j ≠ i → (p.cache.act a).handed? j = p.cache.handed? j) :
      Effect p a (p.note a i p.filler)
  | bring {i : Nat} {o : Outcome CredentialSet} {c : CredentialSet}
      (hnew : p.cache.handed? i = none) (hi : p.cache.Assumes i)
      (hslot : (p.cache.act (.settle i o)).slot = some c)
      (hc : (p.cache.act (.settle i o)).handed? i = some c)
      (hother : ∀ j, j ≠ i →
        (p.cache.act (.settle i o)).handed? j = p.cache.handed? j) :
      Effect p (.settle i o) { p.note (.settle i o) i (some i) with
        filler := some i }
  | empty :
      Effect p .invalidate { p with
        cache := p.cache.act .invalidate, filler := none }
  | pass {a : Action} (hslot : (p.cache.act a).slot = p.cache.slot)
      (hsame : ∀ j, (p.cache.act a).handed? j = p.cache.handed? j) :
      Effect p a { p with cache := p.cache.act a }

variable {p q : Traced} {a : Action} {i j : Nat} {c : CredentialSet}

theorem hands_eq_true (h : p.hands a i = true) :
    p.cache.handed? i = none ∧ ∃ c, (p.cache.act a).handed? i = some c := by
  simpa [hands, Option.isSome_iff_exists, and_comm] using h

/-- When an action on a retrieval hands it nothing, it hands nothing out. -/
theorem handed?_eq_of_hands (ha : a.retrieval? = some i)
    (h : p.hands a i = false) :
    ∀ j, (p.cache.act a).handed? j = p.cache.handed? j := by
  intro j
  rcases (p.cache.effect_act a).handed?_eq (j := j) with
    hsame | ⟨hj, hnone, _, c, hc⟩
  · exact hsame
  · rw [ha, Option.some_inj] at hj
    subst hj
    simp [hands, hnone, hc] at h

/-- An action on a retrieval hands the others nothing. -/
theorem handed?_other (ha : a.retrieval? = some i) :
    ∀ j, j ≠ i → (p.cache.act a).handed? j = p.cache.handed? j := by
  intro j hne
  rcases (p.cache.effect_act a).handed?_eq (j := j) with hsame | ⟨hj, _⟩
  · exact hsame
  · rw [ha, Option.some_inj] at hj
    exact absurd hj.symm hne

/-- A look hands out the set in the slot, or nothing. -/
theorem effect_look (ha : a.retrieval? = some i)
    (hslot : (p.cache.act a).slot = p.cache.slot) :
    p.Effect a
      (if p.hands a i then p.note a i p.filler
        else { p with cache := p.cache.act a }) := by
  cases hh : p.hands a i with
  | false => exact .pass hslot (handed?_eq_of_hands ha hh)
  | true =>
    obtain ⟨hnew, c, hc⟩ := hands_eq_true hh
    refine .serve hnew ?_ hslot hc (handed?_other ha)
    rcases (p.cache.effect_act a).handed?_eq (j := i) with
      hsame | ⟨_, _, hlive, _⟩
    · rw [hc, hnew] at hsame
      cases hsame
    · obtain ⟨h, phase, hr⟩ := handed?_eq_some_iff.1 hc
      rcases ((p.cache.effect_act a).handed hlive hr rfl).2 with
        ⟨_, _, hl⟩ | ⟨_, hstored, _⟩
      · exact (lookup_eq_fresh_iff.1 hl).1
      · rw [← hslot, hstored]

/-- The end of an assumption hands out the set that it brought, or nothing. -/
theorem effect_settle (p : Traced) (i : Nat) (o : Outcome CredentialSet) :
    p.Effect (.settle i o) (p.act (.settle i o)) := by
  have he := p.cache.effect_act (.settle i o)
  show p.Effect _ (if _ then _ else _)
  cases hh : p.hands (.settle i o) i with
  | true =>
    obtain ⟨hnew, c, hc⟩ := hands_eq_true hh
    rcases he.handed?_eq (j := i) with hsame | ⟨_, _, hlive, _⟩
    · rw [hc, hnew] at hsame
      cases hsame
    · obtain ⟨h, phase, hr⟩ := handed?_eq_some_iff.1 hc
      rcases (he.handed hlive hr rfl).2 with
        ⟨hlook | hlook, _⟩ | ⟨_, hslot, hassumes, _⟩
      · cases hlook
      · cases hlook
      · exact .bring hnew ⟨h, hassumes⟩ hslot hc (handed?_other rfl)
  | false =>
    refine .pass ?_ (handed?_eq_of_hands rfl hh)
    rcases he.slot with
      hslot | ⟨hinv, _⟩ | ⟨k, c, hsettle, ⟨h, hassumes⟩, _, hc⟩
    · exact hslot
    · cases hinv
    · cases hsettle
      simp [hands, handed?_of_live hassumes, hc] at hh

/-- Every action has one of the listed effects. -/
theorem effect_act (p : Traced) (a : Action) : p.Effect a (p.act a) := by
  have he := p.cache.effect_act a
  have hslot (hset : ∀ i c, a ≠ .settle i (.value c)) (hinv : a ≠ .invalidate) :
      (p.cache.act a).slot = p.cache.slot := by
    rcases he.slot with hslot | ⟨h, _⟩ | ⟨i, c, h, _⟩
    · exact hslot
    · exact absurd h hinv
    · exact absurd h (hset i c)
  have hnone (ha : a.retrieval? = none) (j : Nat) :
      (p.cache.act a).handed? j = p.cache.handed? j := by
    rcases he.handed?_eq (j := j) with hsame | ⟨hj, _⟩
    · exact hsame
    · rw [ha] at hj
      cases hj
  cases a with
  | enter i | acquire i => exact effect_look rfl (hslot (by simp) (by simp))
  | settle i o => exact effect_settle p i o
  | invalidate => exact .empty
  | drop i =>
    refine .pass (hslot (by simp) (by simp)) fun j => ?_
    rcases he.handed?_eq (j := j) with hsame | ⟨_, _, hlive, c, hc⟩
    · exact hsame
    · obtain ⟨h, phase, hr⟩ := handed?_eq_some_iff.1 hc
      rcases (he.handed hlive hr rfl).2 with ⟨hlook | hlook, _⟩ | ⟨hsettle, _⟩
      · cases hlook
      · cases hlook
      · cases hsettle
  | start | setClock | addClock =>
    exact .pass (hslot (by simp) (by simp)) (hnone rfl)

/-! ## The notes are true -/

/-- A retrieval's assumption has brought a set. -/
def Brought (p : Traced) (i : Nat) (c : CredentialSet) : Prop :=
  p.cache.handed? i = some c ∧ p.cache.Began i

/-- The notes name a retrieval whose assumption brought the set, for the set in
the slot and for every set that was handed out, and for nothing else. -/
structure Faithful (p : Traced) : Prop where
  slot : ∀ c, p.cache.slot = some c → ∃ i, p.filler = some i ∧ p.Brought i c
  empty : p.cache.slot = none → p.filler = none
  handed : ∀ j c, p.cache.handed? j = some c →
    ∃ i, p.source j = some i ∧ p.Brought i c
  unhanded : ∀ j, p.cache.handed? j = none → p.source j = none

/-- What an assumption has brought stays. -/
theorem Brought.act (h : p.Brought i c) (a : Action)
    (hq : q.cache = p.cache.act a) : q.Brought i c := by
  unfold Brought
  rw [hq]
  exact ⟨(p.cache.effect_act a).handed? h.1, (p.cache.effect_act a).began h.2⟩

/-- The notes on the sets that were handed out stay true when one more is, with
a true source. -/
theorem Faithful.note (h : p.Faithful) {source : Option Nat}
    (hc : (p.cache.act a).handed? i = some c)
    (hother : ∀ j, j ≠ i → (p.cache.act a).handed? j = p.cache.handed? j)
    (hsource : ∃ k, source = some k ∧ (p.note a i source).Brought k c) :
    (∀ j d, (p.note a i source).cache.handed? j = some d →
        ∃ k, (p.note a i source).source j = some k ∧
          (p.note a i source).Brought k d) ∧
      ∀ j, (p.note a i source).cache.handed? j = none →
        (p.note a i source).source j = none := by
  refine ⟨fun j d hd => ?_, fun j hj => ?_⟩
  · change (p.cache.act a).handed? j = some d at hd
    by_cases heq : j = i
    · subst heq
      rw [hc, Option.some_inj] at hd
      subst hd
      obtain ⟨k, rfl, hk⟩ := hsource
      exact ⟨k, by simp [Traced.note], hk⟩
    · rw [hother j heq] at hd
      obtain ⟨k, hsrc, hk⟩ := h.handed j d hd
      exact ⟨k, by simp [Traced.note, heq, hsrc], hk.act a rfl⟩
  · change (p.cache.act a).handed? j = none at hj
    by_cases heq : j = i
    · subst heq
      rw [hc] at hj
      cases hj
    · rw [hother j heq] at hj
      simp [Traced.note, heq, h.unhanded j hj]

/-- Every effect keeps the notes true. -/
theorem Effect.faithful (he : p.Effect a q) (h : p.Faithful) : q.Faithful := by
  cases he with
  | @serve _ i c _ hslot hkeep hc hother =>
    obtain ⟨k, hfiller, hk⟩ := h.slot c hslot
    obtain ⟨hhanded, hunhanded⟩ := h.note hc hother ⟨k, hfiller, hk.act a rfl⟩
    refine ⟨fun d hd => ?_, fun hd => ?_, hhanded, hunhanded⟩
    · obtain ⟨k, hfiller, hk⟩ := h.slot d (hkeep.symm.trans hd)
      exact ⟨k, hfiller, hk.act a rfl⟩
    · exact h.empty (hkeep.symm.trans hd)
  | @bring i o c _ hi hslot hc hother =>
    have hbegan : p.cache.Began i := hi.elim fun g hg => ⟨g, none, hg⟩
    have hbrought : (p.note (.settle i o) i (some i)).Brought i c :=
      ⟨hc, (p.cache.effect_act _).began hbegan⟩
    obtain ⟨hhanded, hunhanded⟩ := h.note hc hother ⟨i, rfl, hbrought⟩
    refine ⟨fun d hd => ?_, fun hd => ?_, hhanded, hunhanded⟩
    · obtain rfl := Option.some.inj (hslot.symm.trans hd)
      exact ⟨i, rfl, hbrought⟩
    · cases hslot.symm.trans hd
  | empty =>
    refine ⟨fun d hd => (by cases hd), fun _ => rfl, fun j d hd => ?_,
      fun j hj => ?_⟩
    · obtain ⟨k, hsrc, hk⟩ := h.handed j d hd
      exact ⟨k, hsrc, hk.act .invalidate rfl⟩
    · exact h.unhanded j hj
  | pass hslot hsame =>
    refine ⟨fun d hd => ?_, fun hd => h.empty (hslot.symm.trans hd),
      fun j d hd => ?_, fun j hj => h.unhanded j ((hsame j).symm.trans hj)⟩
    · obtain ⟨k, hfiller, hk⟩ := h.slot d (hslot.symm.trans hd)
      exact ⟨k, hfiller, hk.act a rfl⟩
    · obtain ⟨k, hsrc, hk⟩ := h.handed j d ((hsame j).symm.trans hd)
      exact ⟨k, hsrc, hk.act a rfl⟩

variable {request : Request} {clocks : List Instant}

/-- The notes are true wherever steps lead. -/
theorem Reaches.faithful (h : (start request clocks).Reaches p) :
    p.Faithful := by
  refine h.invariant (I := Faithful) ?_ fun u v hu hstep => ?_
  · refine ⟨fun c hc => ?_, fun _ => rfl, fun j c hc => ?_, fun j _ => rfl⟩
    · cases hc
    · simp [start, unused, handed?] at hc
  · obtain ⟨a, rfl⟩ := hstep
    exact (effect_act u a).faithful hu

/-- Without its notes a traced cache reaches what the cache reaches. -/
theorem Reaches.cache (h : p.Reaches q) : p.cache.Reaches q.cache := by
  refine h.map (f := Traced.cache) fun u v hstep => ?_
  obtain ⟨a, rfl⟩ := hstep
  rw [cache_act]
  exact reaches_act u.cache a

/-! ## After an invalidation -/

/-- What holds of the notes since an invalidation: the set in the slot, and
those handed to retrievals that began later, come from assumptions that began
later, or from the one under way. -/
structure Since (p q : Traced) : Prop where
  reaches : p.cache.Reaches q.cache
  filler : ∀ i, q.filler = some i → p.cache.Began i → p.cache.guard = some i
  source : ∀ j i, p.cache.retrievals[j]? = none → q.source j = some i →
    p.cache.Began i → p.cache.guard = some i

theorem Since.start (h : p.Faithful) : p.Since (p.act .invalidate) := by
  refine ⟨?_, fun i hi => (by cases hi), fun j i hj hi => ?_⟩
  · rw [cache_act]
    exact reaches_act p.cache .invalidate
  · have hnone : p.cache.handed? j = none := by simp [handed?, hj]
    change p.source j = some i at hi
    rw [h.unhanded j hnone] at hi
    cases hi

/-- Every effect keeps what holds since an invalidation. -/
theorem Since.step {q' : Traced} (h : p.Since q) (hg : p.cache.Guarded)
    (he : q.Effect a q') (hcache : q'.cache = q.cache.act a) : p.Since q' := by
  have hreaches : p.cache.Reaches q'.cache := by
    rw [hcache]
    exact h.reaches.trans (reaches_act q.cache a)
  cases he with
  | @serve _ i =>
    refine ⟨hreaches, h.filler, fun j k hj hk => ?_⟩
    by_cases heq : j = i
    · subst heq
      simp only [Traced.note, Function.update_self] at hk
      exact h.filler k hk
    · simp only [Traced.note, Function.update_of_ne heq] at hk
      exact h.source j k hj hk
  | @bring i _ _ _ hi =>
    have hown : p.cache.Began i → p.cache.guard = some i := fun hbegan =>
      (hg i).2 (assumes_of_began h.reaches hbegan hi)
    refine ⟨hreaches, fun k hk => ?_, fun j k hj hk => ?_⟩
    · obtain rfl := Option.some.inj hk
      exact hown
    · by_cases heq : j = i
      · subst heq
        simp only [Traced.note, Function.update_self, Option.some_inj] at hk
        exact hk ▸ hown
      · simp only [Traced.note, Function.update_of_ne heq] at hk
        exact h.source j k hj hk
  | empty => exact ⟨hreaches, fun k hk => (by cases hk), h.source⟩
  | pass => exact ⟨hreaches, h.filler, h.source⟩

/-- What holds since an invalidation, wherever steps lead. -/
theorem Since.reached (hf : p.Faithful) (hg : p.cache.Guarded)
    (h : (p.act .invalidate).Reaches q) : p.Since q := by
  refine h.invariant (I := p.Since) (.start hf) fun u v hu hstep => ?_
  obtain ⟨a, rfl⟩ := hstep
  exact hu.step hg (effect_act u a) (cache_act u a)

/-- An assumption that brings a permanent set fills the slot with it. -/
theorem act_settle (hi : p.cache.Assumes i) (hc : c.expiresAt = none) :
    (p.act (.settle i (.value c))).filler = some i ∧
      (p.act (.settle i (.value c))).cache.slot = some c := by
  obtain ⟨h, hr⟩ := hi
  have hact : p.cache.act (.settle i (.value c)) =
      p.cache.settle i h (.value c) := by
    simp only [Cache.act, hr]
  have hslot : (p.cache.settle i h (.value c)).slot = some c := by
    simp [Cache.settle, hc, Cache.conclude, Cache.setFate]
  have hhanded : (p.cache.settle i h (.value c)).handed? i = some c :=
    handed?_eq_some_iff.2 ⟨h, .assuming, by simp [Cache.settle, hc, hr]⟩
  have hhands : p.hands (.settle i (.value c)) i = true := by
    simp [hands, hact, hhanded, handed?_of_live hr]
  refine ⟨?_, by rw [cache_act, hact, hslot]⟩
  simp [act, hhands]

/-- A look that finds a permanent set notes its source. -/
theorem act_enter {h : Handle}
    (hr : p.cache.retrievals[j]? = some ⟨h, .started, none⟩)
    (hslot : p.cache.slot = some c) (hc : c.expiresAt = none) :
    (p.act (.enter j)).source j = p.filler := by
  have hl : p.cache.lookup h = .fresh c :=
    lookup_eq_fresh_iff.2 ⟨hslot, by simp [CredentialSet.freshAt?, hc]⟩
  have hhanded : (p.cache.act (.enter j)).handed? j = some c := by
    rw [enter_of_fresh hr hl]
    exact handed?_eq_some_iff.2 ⟨h, .started, by simp [hr]⟩
  have hhands : p.hands (.enter j) j = true := by
    simp [hands, hhanded, handed?_of_live hr]
  simp [act, hhands, note]

/-- A set that never expires. -/
def permanent : CredentialSet := ⟨"key", ⟨"secret"⟩, none, none⟩

/-- The set of an assumption that an invalidation finds under way can be handed
to a retrieval that begins after it. -/
theorem served_by_flight (hi : p.cache.Assumes i) :
    ∃ q j, (p.act .invalidate).Reaches q ∧ p.cache.retrievals[j]? = none ∧
      q.source j = some i := by
  have hinvalid : (p.act .invalidate).cache.Assumes i := by
    rw [cache_act]
    exact hi
  obtain ⟨hfiller, hslot⟩ := act_settle (c := permanent) hinvalid rfl
  let settled := (p.act .invalidate).act (.settle i (.value permanent))
  let started := settled.act (.start {})
  let j := settled.cache.retrievals.length
  have hreaches : (p.act .invalidate).Reaches (started.act (.enter j)) :=
    .step (.step (.step .refl ⟨_, rfl⟩) ⟨_, rfl⟩) ⟨_, rfl⟩
  refine ⟨_, j, hreaches, ?_, ?_⟩
  · cases hr : p.cache.retrievals[j]? with
    | none => rfl
    | some r =>
      obtain ⟨r', hr', _⟩ := (p.cache.effect_act .invalidate).kept hr
      obtain ⟨r'', hr'', _⟩ :=
        (Cache.effect_act _ (.settle i (.value permanent))).kept hr'
      rw [← cache_act, ← cache_act, List.getElem?_eq_none (Nat.le_refl _)]
        at hr''
      cases hr''
  · have hr : started.cache.retrievals[j]? = some ⟨{}, .started, none⟩ := by
      simp [started, j, Cache.act]
    rw [act_enter hr hslot rfl]
    exact hfiller

/-- After an invalidation, a retrieval that begins later and is handed a set
has it from an assumption that began later too, or from the one that the
invalidation found under way.  Such an assumption's set can be handed out; so
an invalidation keeps every earlier set from later retrievals exactly when no
assumption is under way. -/
theorem served_after_invalidate (request : Request) (clocks : List Instant)
    (p : Traced) (hp : (start request clocks).Reaches p) :
    (∀ q, (p.act .invalidate).Reaches q → ∀ j c, p.cache.retrievals[j]? = none →
        q.cache.handed? j = some c →
        ∃ i, q.source j = some i ∧ q.cache.handed? i = some c ∧
          q.cache.Began i ∧
          (p.cache.Began i → p.cache.guard = some i)) ∧
      ((∀ q, (p.act .invalidate).Reaches q →
        ∀ j i, p.cache.retrievals[j]? = none →
          q.source j = some i → ¬p.cache.Began i) ↔ p.cache.guard = none) := by
  have hguarded : p.cache.Guarded := Cache.Reaches.guarded (Reaches.cache hp)
  have hfaithful := Reaches.faithful hp
  refine ⟨fun q hq j c hj hc => ?_, fun hnever => ?_,
    fun hfree q hq j i hj hi hbegan => ?_⟩
  · have hq' : q.Faithful :=
      Reaches.faithful (hp.trans ((Reaches.single ⟨_, rfl⟩).trans hq))
    obtain ⟨i, hi, hc, hbegan⟩ := hq'.handed j c hc
    exact ⟨i, hi, hc, hbegan, (Since.reached hfaithful hguarded hq).source j i
      hj hi⟩
  · cases hg : p.cache.guard with
    | none => rfl
    | some i =>
      have hi := (hguarded i).1 hg
      obtain ⟨q, j, hq, hj, hsource⟩ := served_by_flight hi
      have hbegan : p.cache.Began i := hi.elim fun g hr => ⟨g, none, hr⟩
      exact absurd hbegan (hnever q hq j i hj hsource)
  · have hguard := (Since.reached hfaithful hguarded hq).source j i hj hi hbegan
    rw [hfree] at hguard
    cases hguard

/-- A traced cache with one retrieval, which assumes the role. -/
def flying : Traced :=
  (start plainRequest [.epoch]).after [.start {}, .enter 0, .acquire 0]

/-- Its assumption brings a set, and another retrieval looks for one. -/
def landing : List Action := [.settle 0 (.value permanent), .start {}, .enter 1]

theorem flying_reached (run : List Action) :
    (start plainRequest [.epoch]).Reaches (flying.after run) :=
  (reaches_after _ _).trans (reaches_after _ _)

/-- An invalidation after the assumption has brought its set keeps that set
from every later retrieval. -/
theorem served_after_invalidate_landing :
    (flying.after landing).cache.Began 0 ∧
      ∀ q, ((flying.after landing).act .invalidate).Reaches q → ∀ j i,
        (flying.after landing).cache.retrievals[j]? = none →
          q.source j = some i →
        ¬(flying.after landing).cache.Began i := by
  have hfree : (flying.after landing).cache.guard = none := rfl
  refine ⟨⟨{}, some (.returned (.ok permanent)), rfl⟩, ?_⟩
  exact (served_after_invalidate plainRequest [.epoch] _
    (flying_reached landing)).2.2 hfree

/-- An invalidation while the assumption is under way is lost: a retrieval that
begins after it is handed the set of the assumption that began before it. -/
theorem invalidation_lost :
    (start plainRequest [.epoch]).Reaches flying ∧
      (flying.act .invalidate).Reaches
        ((flying.act .invalidate).after landing) ∧
      flying.cache.Began 0 ∧ flying.cache.retrievals[1]? = none ∧
      ((flying.act .invalidate).after landing).source 1 = some 0 ∧
      ((flying.act .invalidate).after landing).cache.handed? 1 =
        some permanent :=
  ⟨flying_reached [], reaches_after _ _, ⟨{}, none, rfl⟩, rfl, rfl, rfl⟩

end Traced

end CloudAccess
