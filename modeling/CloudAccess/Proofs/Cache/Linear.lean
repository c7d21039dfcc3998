import CloudAccess.Proofs.Cache.Batches
import CloudAccess.Proofs.Cache.Handoff
import Mathlib.Data.List.Nodup

/-!
# Concurrent retrievals are as good as retrievals one by one

Retrievals that run together find a fresh set, wait for each other and look
again, where retrievals that follow one another would mostly find a fresh set
at once.  Yet what they come to is the same: each retrieval takes effect at the
moment at which it ends.

* `Follows` relates the cache of a batch to one on which the retrievals that
  have ended were made one by one: they have the same, apart from an
  assumption that is under way and will be made by the next one.
* `Move.follows` is the step: a retrieval that goes on changes nothing of this,
  and one that ends does what it would do by itself.
* `InOrder` is the invariant of a batch, and `InOrder.step` says that each step
  keeps it.
* `oneByOne` makes retrievals one after another, and `linearizable` compares
  the two.
-/

namespace CloudAccess

namespace Holding

/-- Retrievals one after another. -/
def serveAll (s : Holding) : List Handle → Holding × List Retrieval.Fate
  | [] => (s, [])
  | h :: handles =>
    (((s.serve h).1.serveAll handles).1,
      (s.serve h).2 :: ((s.serve h).1.serveAll handles).2)

/-- One more retrieval after others. -/
theorem serveAll_concat (s : Holding) (handles : List Handle) (h : Handle) :
    s.serveAll (handles ++ [h]) =
      (((s.serveAll handles).1.serve h).1,
        (s.serveAll handles).2 ++ [((s.serveAll handles).1.serve h).2]) := by
  induction handles generalizing s with
  | nil => rfl
  | cons g handles ih =>
    rw [List.cons_append]
    simp only [serveAll, ih, List.cons_append]

end Holding

namespace PlannedCache

variable {p t : PlannedCache} {s : Holding} {i j : Nat} {h : Handle}

/-! ## One step -/

/-- A cache has what `s` has, or an assumption is under way that begins where
`s` is. -/
inductive Follows (p : PlannedCache) (s : Holding) : Prop
  | free (hguard : p.cache.guard = none) (hheld : p.holding = s)
  | flying {i : Nat} {h : Handle} {f : Flight} (hguard : p.cache.guard = some i)
      (hr : p.cache.retrievals[i]? = some ⟨h, .assuming, none⟩)
      (hf : p.flight? i = some f) (hl : s.cache.lookup h = .stale)
      (hlanding : f.landing = s.upcoming) (hheld : p.holding = s.assume)

/-- What a retrieval sees in the slot does not depend on an assumption under
way. -/
theorem Follows.lookup_eq (hs : p.Follows s) (h : Handle) :
    p.cache.lookup h = s.cache.lookup h := by
  rw [← lookup_holding]
  cases hs with
  | free _ hheld => rw [hheld]
  | flying _ _ _ _ _ hheld => rw [hheld, Holding.lookup_assume]

/-- What a cache follows moves on beside an assumption that is under way. -/
theorem Follows.beside {s' : Holding} (hs : p.Follows s)
    (hguard : t.cache.guard = p.cache.guard)
    (hflying : ∀ j g f, p.cache.retrievals[j]? = some ⟨g, .assuming, none⟩ →
      p.flight? j = some f →
      t.cache.retrievals[j]? = some ⟨g, .assuming, none⟩ ∧ t.flight? j = some f)
    (hsees : ∀ g, s'.cache.lookup g = s.cache.lookup g)
    (hupcoming : s'.upcoming = s.upcoming)
    (hfree : p.holding = s → t.holding = s')
    (hahead : p.holding = s.assume → t.holding = s'.assume) : t.Follows s' := by
  cases hs with
  | free hnone hheld => exact .free (hguard.trans hnone) (hfree hheld)
  | @flying j g f hbusy hr hf hl hlanding hheld =>
    obtain ⟨hr', hf'⟩ := hflying j g f hr hf
    exact .flying (hguard.trans hbusy) hr' hf' ((hsees g).trans hl)
      (hlanding.trans hupcoming.symm) (hahead hheld)

/-- A retrieval that does not find the slot stale ends alike with and without
an assumption under way. -/
theorem Follows.serve_eq (hs : p.Follows s) (hl : s.cache.lookup h ≠ .stale) :
    (p.holding.serve h).2 = (s.serve h).2 := by
  cases hs with
  | free _ hheld => rw [hheld]
  | flying _ _ _ _ _ hheld => rw [hheld, Holding.serve_assume hl]

/-- A retrieval that is under way takes a step: it stays under way, and nothing
of what the cache follows changes; or it ends, as it would by itself. -/
theorem Move.follows (hmove : p.Move i t) (hg : p.cache.Guarded)
    (hs : p.Follows s)
    (hother : ∀ j, i ≠ j → t.cache.retrievals[j]? = p.cache.retrievals[j]?)
    (hflights : ∀ j, i ≠ j → t.flight? j = p.flight? j) :
    (∃ h phase, t.cache.retrievals[i]? = some ⟨h, phase, none⟩ ∧ t.Follows s) ∨
      ∃ h phase, t.cache.retrievals[i]? = some ⟨h, phase, some (s.serve h).2⟩ ∧
        t.Follows (s.serve h).1 := by
  -- an assumption under way is that of another retrieval, and goes on
  have hflying {h : Handle} {phase : Retrieval.Phase}
      (hr : p.cache.retrievals[i]? = some ⟨h, phase, none⟩)
      (hphase : phase ≠ .assuming) (j : Nat) (g : Handle) (f : Flight)
      (hrj : p.cache.retrievals[j]? = some ⟨g, .assuming, none⟩)
      (hf : p.flight? j = some f) :
      t.cache.retrievals[j]? = some ⟨g, .assuming, none⟩ ∧
        t.flight? j = some f := by
    have hne : i ≠ j := fun heq => Cache.not_assumes hr hphase ⟨g, heq ▸ hrj⟩
    exact ⟨(hother j hne).trans hrj, (hflights j hne).trans hf⟩
  cases hmove with
  | @waits h hr hr' hguard hheld =>
    refine .inl ⟨h, .waiting, hr', ?_⟩
    exact hs.beside hguard (hflying hr (by simp)) (fun _ => rfl) rfl
      hheld.trans hheld.trans
  | @looks h phase hr hphase hl hr' hguard hheld =>
    have hlook : s.cache.lookup h ≠ .stale := hs.lookup_eq h ▸ hl
    rw [hs.serve_eq hlook] at hr'
    refine .inr ⟨h, phase, hr', ?_⟩
    refine hs.beside hguard (hflying hr hphase) (fun g => ?_) ?_
      (fun hsame => ?_) (fun hsame => ?_)
    · rcases Holding.serve_of_ne_stale hlook with hhit | hkept
      · rw [hhit]
        rfl
      · rw [hkept]
    · rcases Holding.serve_of_ne_stale hlook with hhit | hkept
      · rw [hhit]
        rfl
      · rw [hkept]
    · rw [hheld, hsame]
    · rw [hheld, hsame, Holding.serve_assume hlook]
  | @assumes h f hr hfree hl hr' hf hlanding hguard hheld =>
    refine .inl ⟨h, .assuming, hr', ?_⟩
    have hlook : s.cache.lookup h = .stale := hs.lookup_eq h ▸ hl
    cases hs with
    | free _ hsame =>
      rw [hsame] at hlanding hheld
      exact .flying hguard hr' hf hlook hlanding hheld
    | flying hbusy =>
      rw [hfree] at hbusy
      cases hbusy
  | @lands h f hr hf hr' hguard hheld =>
    refine .inr ⟨h, .assuming, ?_⟩
    have hbusy : p.cache.guard = some i := (hg i).2 ⟨h, hr⟩
    cases hs with
    | free hfree =>
      rw [hfree] at hbusy
      cases hbusy
    | @flying j g f' hguardj hrj hfj hl hlanding hsame =>
      -- it is the assumption that the cache is ahead by
      obtain rfl : i = j := Option.some.inj (hbusy.symm.trans hguardj)
      obtain rfl : h = g := by simpa [hr] using hrj
      obtain rfl : f = f' := Option.some.inj (hf.symm.trans hfj)
      rw [hsame, hlanding, ← Holding.serve_of_stale hl] at hr' hheld
      exact ⟨hr', .free hguard hheld⟩

/-- The handle of a retrieval. -/
def handle? (p : PlannedCache) (i : Nat) : Option Handle :=
  p.cache.retrievals[i]?.map (·.handle)

end PlannedCache

namespace Batch

variable {b c : Batch} {first : Holding} {i : Nat}

/-! ## Every order of steps -/

/-- The handles of the retrievals that have ended, in the order in which they
did. -/
def served (b : Batch) : List Handle := b.ended.filterMap b.scene.handle?

/-- A batch without a deadline follows the retrievals that have ended, made one
by one, and these have ended as they would that way. -/
structure InOrder (first : Holding) (b : Batch) : Prop where
  manned : b.Manned
  patient : b.deadline = none
  distinct : b.ended.Nodup
  ended_iff : ∀ i, i ∈ b.ended ↔ i ∈ b.members ∧ (b.scene.fate? i).isSome = true
  follows : b.scene.Follows (first.serveAll b.served).1
  fates : b.ended.map b.scene.fate? = (first.serveAll b.served).2.map some

/-- A step of one retrieval leaves the others alone. -/
theorem goOn_of_ne {j : Nat} (hne : i ≠ j) :
    (b.goOn i).scene.handle? j = b.scene.handle? j ∧
      (b.goOn i).scene.fate? j = b.scene.fate? j := by
  have hsame : (b.goOn i).scene.cache.retrievals[j]? =
      b.scene.cache.retrievals[j]? :=
    PlannedCache.getElem?_step_of_ne hne
  exact ⟨by simp only [PlannedCache.handle?,
    hsame], by simp only [PlannedCache.fate?, hsame]⟩

/-- A retrieval that has not ended is none of those that have. -/
theorem InOrder.ne_of_mem (h : b.InOrder first)
    (hopen : (b.scene.fate? i).isSome = false) {j : Nat} (hj : j ∈ b.ended) :
    i ≠ j := by
  intro heq
  have hended := ((h.ended_iff j).1 hj).2
  rw [← heq, hopen] at hended
  cases hended

/-- A step of a retrieval that has not ended leaves alone those that have. -/
theorem InOrder.kept (h : b.InOrder first)
    (hopen : (b.scene.fate? i).isSome = false) :
    b.ended.filterMap (b.goOn i).scene.handle? = b.served ∧
      b.ended.map (b.goOn i).scene.fate? =
        (first.serveAll b.served).2.map some := by
  constructor
  · exact List.filterMap_congr fun j hj => (goOn_of_ne (h.ne_of_mem hopen hj)).1
  · rw [← h.fates]
    exact List.map_congr_left fun j hj => (goOn_of_ne (h.ne_of_mem hopen hj)).2

/-- A retrieval takes a step and stays under way. -/
theorem InOrder.stays (h : b.InOrder first) (hmanned : (b.goOn i).Manned)
    (hopen : (b.scene.fate? i).isSome = false)
    (hopen' : ((b.goOn i).scene.fate? i).isSome = false)
    (hfollows : (b.goOn i).scene.Follows (first.serveAll b.served).1) :
    (b.goOn i).InOrder first := by
  obtain ⟨hserved, hfates⟩ := h.kept hopen
  have hended : (b.goOn i).ended = b.ended := by
    show (if ((b.goOn i).scene.fate? i).isSome then b.ended ++ [i]
      else b.ended) = _
    rw [hopen']
    rfl
  have hserved : (b.goOn i).served = b.served := by
    unfold served
    rw [hended]
    exact hserved
  refine ⟨hmanned, h.patient, hended ▸ h.distinct, fun j => ?_, ?_, ?_⟩
  · rw [hended, h.ended_iff j]
    show _ ↔ j ∈ b.members ∧ _
    by_cases hij : i = j
    · subst hij
      rw [hopen, hopen']
    · rw [(goOn_of_ne hij).2]
  · rw [hserved]
    exact hfollows
  · rw [hended, hserved]
    exact hfates

/-- A retrieval takes a step and ends, as it would after those before it. -/
theorem InOrder.ends (h : b.InOrder first) (hmanned : (b.goOn i).Manned)
    (hi : i ∈ b.members) (hopen : (b.scene.fate? i).isSome = false) {g : Handle}
    (hhandle : (b.goOn i).scene.handle? i = some g)
    (hclosed : (b.goOn i).scene.fate? i =
      some ((first.serveAll b.served).1.serve g).2)
    (hfollows : (b.goOn i).scene.Follows
      ((first.serveAll b.served).1.serve g).1) : (b.goOn i).InOrder first := by
  obtain ⟨hserved, hfates⟩ := h.kept hopen
  have hended : (b.goOn i).ended = b.ended ++ [i] := by
    show (if ((b.goOn i).scene.fate? i).isSome then b.ended ++ [i]
      else b.ended) = _
    rw [hclosed]
    rfl
  have hserved : (b.goOn i).served = b.served ++ [g] := by
    unfold served at hserved ⊢
    rw [hended, List.filterMap_append, hserved]
    simp [hhandle]
  refine ⟨hmanned, h.patient, ?_, fun j => ?_, ?_, ?_⟩
  · rw [hended, List.nodup_append]
    refine ⟨h.distinct, List.nodup_singleton i, fun j hj k hk heq => ?_⟩
    rw [List.mem_singleton] at hk
    exact h.ne_of_mem hopen hj (hk.symm.trans heq.symm)
  · rw [hended, List.mem_append, List.mem_singleton, h.ended_iff j]
    show _ ↔ j ∈ b.members ∧ _
    by_cases hij : i = j
    · subst hij
      simp [hi, hclosed]
    · rw [(goOn_of_ne hij).2]
      simp [Ne.symm hij]
  · rw [hserved, Holding.serveAll_concat]
    exact hfollows
  · rw [hended, hserved, Holding.serveAll_concat, List.map_append, hfates,
      List.map_append]
    simp [hclosed]

/-- A member takes a step. -/
theorem InOrder.goOn (h : b.InOrder first) (hi : i ∈ b.members)
    (hready : b.scene.ready b.moment.unit i = true) :
    (b.goOn i).InOrder first := by
  have hmanned : (b.goOn i).Manned :=
    PlannedCache.Manned.step h.manned hi hready
  have hopen : (b.scene.fate? i).isSome = false := by
    obtain ⟨g, phase, hlive⟩ := PlannedCache.isLive_of_ready hready
    simp [PlannedCache.fate?, hlive]
  rcases (PlannedCache.move_step hready).follows h.manned.guarded h.follows
    (fun _ hij => PlannedCache.getElem?_step_of_ne hij)
    (fun _ hij => PlannedCache.flight?_step_of_ne hij) with
    ⟨g, phase, hr, hfollows⟩ | ⟨g, phase, hr, hfollows⟩
  · refine h.stays hmanned hopen ?_ hfollows
    show ((b.scene.step b.moment.unit i).fate? i).isSome = false
    simp [PlannedCache.fate?, hr]
  · refine h.ends hmanned hi hopen (g := g) ?_ ?_ hfollows
    · show (b.scene.step b.moment.unit i).handle? i = some g
      simp [PlannedCache.handle?, hr]
    · show (b.scene.step b.moment.unit i).fate? i = _
      simp [PlannedCache.fate?, hr]

/-- Every step of a batch keeps it in order. -/
theorem InOrder.step (h : b.InOrder first) (hstep : play.Step b c) :
    c.InOrder first := by
  rcases step_cases hstep with ⟨i, hi, hready, rfl⟩ | ⟨⟨unit, hd, -⟩, rfl⟩ |
    ⟨unit, -, -, -, rfl⟩
  · exact h.goOn hi hready
  · rw [h.patient] at hd
    cases hd
  · exact ⟨h.manned, h.patient, h.distinct, h.ended_iff, h.follows, h.fates⟩

variable {p : PlannedCache} {handles : List Handle}

/-- A batch begins in order. -/
theorem inOrder_start (hp : p.Idle) (handles : List Handle) :
    (start p handles none).InOrder p.holding where
  manned := manned_start hp handles none
  patient := rfl
  distinct := List.nodup_nil
  ended_iff i := by
    constructor
    · intro hi
      cases hi
    · rintro ⟨hi, hfate⟩
      obtain ⟨k, hlt, rfl⟩ := mem_members_start.1 hi
      rw [PlannedCache.fate?, getElem?_start, List.getElem?_eq_getElem hlt]
        at hfate
      cases hfate
  follows := by
    refine .free ?_ ?_
    · rw [scene_start]
      exact hp.free
    · rw [scene_start]
      rfl
  fates := rfl

/-- The member number `k` of a batch retrieves through the handle number `k`
for good. -/
theorem handle?_reaches (h : play.Reaches (start p handles none) b) {k : Nat}
    (hlt : k < handles.length) :
    b.scene.handle? (p.nextRetrieval + k) = handles[k]? := by
  have hr := getElem?_start p handles none k
  rw [List.getElem?_eq_getElem hlt, Option.map_some] at hr
  obtain ⟨r, hr', hhandle⟩ := (reaches_cache h).kept hr
  rw [PlannedCache.handle?, hr', List.getElem?_eq_getElem hlt,
    Option.map_some, hhandle]

/-- The members of a batch stay the same. -/
theorem members_reaches (h : play.Reaches b c) : c.members = b.members := by
  refine h.invariant (I := fun c => c.members = b.members) rfl
    fun u v hu hstep => ?_
  rcases step_cases hstep with ⟨i, -, -, rfl⟩ | ⟨-, rfl⟩ | ⟨unit, -, -, -, rfl⟩
  · exact hu
  · exact hu
  · exact hu

/-- In a batch that is over each member has ended, and once. -/
theorem InOrder.ended_perm (h : b.InOrder first) (hover : b.isOver = true)
    (hdistinct : b.members.Nodup) : b.ended.Perm b.members := by
  have hall : ∀ i ∈ b.members, (b.scene.fate? i).isSome = true := by
    simpa [isOver] using hover
  rw [List.perm_ext_iff_of_nodup h.distinct hdistinct]
  intro i
  rw [h.ended_iff i]
  constructor
  · intro hi
    exact hi.1
  · intro hi
    exact ⟨hi, hall i hi⟩

/-- A batch that is over has come to what its retrievals come to one by one, in
the order in which they have ended. -/
theorem exists_order (hp : p.Idle) (h : play.Reaches (start p handles none) b)
    (hover : b.isOver = true) :
    ∃ order : List Nat, order.Perm (List.range handles.length) ∧
      b.ended = order.map (p.nextRetrieval + ·) ∧
      b.scene.holding = (p.holding.serveAll (order.filterMap (handles[·]?))).1 ∧
      b.ended.map b.scene.fate? =
        (p.holding.serveAll (order.filterMap (handles[·]?))).2.map some := by
  have horder : b.InOrder p.holding :=
    h.invariant (inOrder_start hp handles) fun _ _ hu hstep => hu.step hstep
  have hmembers : b.members = (List.range handles.length).map
      (p.nextRetrieval + ·) :=
    members_reaches h
  have hperm : b.ended.Perm ((List.range handles.length).map
      (p.nextRetrieval + ·)) := by
    rw [← hmembers]
    apply horder.ended_perm hover
    rw [hmembers]
    exact List.nodup_range.map fun _ _ heq => Nat.add_left_cancel heq
  have hended : b.ended = (b.ended.map (· - p.nextRetrieval)).map
      (p.nextRetrieval + ·) := by
    rw [List.map_map]
    refine (List.map_id _).symm.trans (List.map_congr_left fun i hi => ?_)
    obtain ⟨k, -, rfl⟩ := List.mem_map.1 (hperm.mem_iff.1 hi)
    simp
  have hserved : b.served =
      (b.ended.map (· - p.nextRetrieval)).filterMap (handles[·]?) := by
    rw [List.filterMap_map]
    refine List.filterMap_congr fun i hi => ?_
    obtain ⟨k, hk, rfl⟩ := List.mem_map.1 (hperm.mem_iff.1 hi)
    rw [handle?_reaches h (List.mem_range.1 hk)]
    simp
  have hidle : b.scene.Idle := horder.manned.idle hover
  refine ⟨b.ended.map (· - p.nextRetrieval), ?_, hended, ?_, ?_⟩
  · have hshift := hperm.map (· - p.nextRetrieval)
    rw [List.map_map] at hshift
    refine hshift.trans (.of_eq ?_)
    refine (List.map_congr_left fun k _ => ?_).trans (List.map_id _)
    simp
  · rw [← hserved]
    cases horder.follows with
    | free _ hheld => exact hheld
    | flying hbusy =>
      rw [hidle.free] at hbusy
      cases hbusy
  · rw [← hserved]
    exact horder.fates

end Batch

/-! ## One by one -/

namespace PlannedCache

variable {p : PlannedCache}

/-- Retrieves through one handle after another, each to its end before the
next one begins. -/
def oneByOne (p : PlannedCache) :
    List Handle → PlannedCache × List (Option Retrieval.Fate)
  | [] => (p, [])
  | h :: handles =>
    let alone := (Batch.start p [h] none).run
    let rest := alone.scene.oneByOne handles
    (rest.1, alone.fates ++ rest.2)

/-- A retrieval by itself does what `serve` says. -/
theorem run_alone (hp : p.Idle) (h : Handle) :
    (Batch.start p [h] none).run.scene.holding = (p.holding.serve h).1 ∧
      (Batch.start p [h] none).run.fates = [some (p.holding.serve h).2] := by
  have hreach := Play.reaches_run Batch.play (Batch.start p [h] none).steps []
    (Batch.start p [h] none)
  obtain ⟨order, hperm, hended, hheld, hfates⟩ :=
    Batch.exists_order hp hreach (Batch.run_isOver hp [h] none)
  have horder : order = [0] := List.perm_singleton.1 hperm
  subst horder
  refine ⟨hheld, ?_⟩
  have hmembers := Batch.members_reaches hreach
  rw [hended] at hfates
  unfold Batch.fates
  show (Batch.members (Batch.play.run _ [] _).state).map _ = _
  rw [hmembers]
  exact hfates

/-- Retrievals one by one do what `serveAll` says. -/
theorem oneByOne_eq (hp : p.Idle) (handles : List Handle) :
    (p.oneByOne handles).1.holding = (p.holding.serveAll handles).1 ∧
      (p.oneByOne handles).2 = (p.holding.serveAll handles).2.map some := by
  induction handles generalizing p with
  | nil => exact ⟨rfl, rfl⟩
  | cons h handles ih =>
    obtain ⟨hheld, hfates⟩ := run_alone hp h
    obtain ⟨hrest, hrestFates⟩ := ih (Batch.idle_run hp [h] none)
    rw [hheld] at hrest hrestFates
    refine ⟨hrest, ?_⟩
    show (Batch.start p [h] none).run.fates ++
      ((Batch.start p [h] none).run.scene.oneByOne handles).2 = _
    rw [hfates, hrestFates]
    rfl

end PlannedCache

/-- A batch of retrievals through any handles of a cache, with any plan of
assumptions, comes to its end; and in whatever order its retrievals take their
steps, these come to the same as when they are made one by one, each to its end
before the next one begins, in the order in which they have ended: to the same
results, the same set in the slot, the same counts, the same clocks, the same
rest of the plan and the same requests sent.

Within a batch only the first clock moves, and only as an assumption ends that
is planned to move it.  Between the operations of the session any clock may be
set. -/
theorem CacheSession.linearizable (request : Request) (now : Instant)
    (window : Option Span) (plan : List PlannedAssumption) {s : CacheSession}
    (hs : (start request now window plan).Reaches s) (handles : List Handle) :
    (Batch.start s.scene handles none).run.isOver = true ∧
      ∀ b, Batch.play.Reaches (Batch.start s.scene handles none) b →
        b.isOver = true →
        ∃ order : List Nat, order.Perm (List.range handles.length) ∧
          b.ended = order.map (s.scene.nextRetrieval + ·) ∧
          (s.scene.oneByOne (order.filterMap (handles[·]?))).1.holding =
            b.scene.holding ∧
          (s.scene.oneByOne (order.filterMap (handles[·]?))).2 =
            b.ended.map b.scene.fate? := by
  have hidle := hs.idle
  refine ⟨Batch.run_isOver hidle handles none, fun b hb hover => ?_⟩
  obtain ⟨order, hperm, hended, hheld, hfates⟩ :=
    Batch.exists_order hidle hb hover
  obtain ⟨hsame, hsameFates⟩ :=
    PlannedCache.oneByOne_eq hidle (order.filterMap (handles[·]?))
  exact ⟨order, hperm, hended, hsame.trans hheld.symm,
    hsameFates.trans hfates.symm⟩

/-- The first assumption brings a set that expires a hundred seconds after the
start of 1970, and the second one is refused. -/
def onceThenRefused : List PlannedAssumption :=
  [{ accessKeyId := some "key", secretAccessKey := some "secret",
     expiry := .fixed ⟨100000000000, 0⟩ },
   { delay := 1, error := some "denied" }]

/-- A session whose cache holds the set of the first assumption, which expires
in five seconds. -/
def CacheSession.aging : CacheSession :=
  ((start Cache.plainRequest .epoch none onceThenRefused).retrieveOne
    {} none).1.act (.setClock 0 ⟨95000000000, 0⟩)

/-- A cautious retrieval for which the set is stale, and one that still takes
it and overtakes the first. -/
def CacheSession.overtaking : Batch :=
  .start aging.scene [Cache.cautious, {}] none

theorem CacheSession.linearizable_overtaking :
    overtaking.run.ended = [2, 1] ∧
      (aging.scene.oneByOne [{}, Cache.cautious]).1.holding =
        overtaking.run.scene.holding ∧
      (aging.scene.oneByOne [{}, Cache.cautious]).2 =
        [some (.returned (.ok Cache.lasting)),
          some (.returned (.error (.credential
            (.assumeRole "arn:aws:iam::1:role/reader" ⟨"denied", []⟩))))] := by
  have hs : (start Cache.plainRequest .epoch none onceThenRefused).Reaches
      aging :=
    .step (.step .refl ⟨0, .retrieve, _, rfl⟩)
      ⟨0, .set 0 ⟨95000000000, 0⟩, _, rfl⟩
  obtain ⟨hover, hall⟩ := linearizable _ _ _ _ hs [Cache.cautious, {}]
  obtain ⟨order, -, hended, hheld, hfates⟩ :=
    hall overtaking.run (Play.reaches_run _ _ _ _) hover
  have horder : order = [1, 0] := by
    have hmapped : order.map (1 + ·) = [1, 0].map (1 + ·) := hended.symm
    exact List.map_injective_iff.2 (fun _ _ heq =>
      Nat.add_left_cancel heq) hmapped
  subst horder
  exact ⟨rfl, hheld, hfates⟩

end CloudAccess
