import CloudAccess.Cancellation
import Mathlib.Data.List.InsertIdx
import Mathlib.Logic.Relation

/-!
# Cancellation follows descent

Which handles are cancelled, and who is resumed, told from the operations on a
table alone.

* `Family` keeps what the operations say: how each handle came to be, where it
  is, and on which ones `cancel` was called.  No signal occurs in it.
* `Family.Governs` follows copies either way and children downwards, and
  `Family.Cancelled` says that `cancel` was called on a handle that governs.
* `Born` gives every handle of a family its signals.  `Born.governs_iff` reads
  `Governs` off them.
* `Prompt` says that exactly those waiters have been resumed whose handle is
  cancelled.  `Linked` joins a table with its family, and `Linked.apply` keeps
  both in every operation.
* `cancellation_follows_descent` puts these together.
-/

namespace CloudAccess

/-! ## Families -/

/-- How a handle came to be. -/
inductive Birth
  | fresh
  | copy (of : Nat)
  | child (of : Nat)
  deriving DecidableEq, Repr

/-- The handles that operations have made, in the order of their births: those
in the slots, those that are waited on, and those on which `cancel` was
called. -/
structure Family where
  births : List Birth
  slots : List Nat
  waiting : List Nat := []
  called : List Nat := []
  deriving DecidableEq, Repr

namespace Family

/-- One fresh handle. -/
def start : Family := { births := [.fresh], slots := [0] }

/-- A handle is born into a new slot. -/
def bear (f : Family) (b : Birth) : Family :=
  { f with births := f.births ++ [b], slots := f.slots ++ [f.births.length] }

/-- What an operation says. -/
def apply (f : Family) : HandleOp → Option Family
  | .create => some (f.bear .fresh)
  | .copy slot => f.slots[slot]?.map fun i => f.bear (.copy i)
  | .derive slot => f.slots[slot]?.map fun i => f.bear (.child i)
  | .cancel slot =>
    f.slots[slot]?.map fun i => { f with called := i :: f.called }
  | .wait slot =>
    f.slots[slot]?.map fun i => { f with waiting := f.waiting ++ [i] }
  | .drop slot =>
    f.slots[slot]?.map fun _ => { f with slots := f.slots.eraseIdx slot }
  | .check => some f
  | .renewFirst => f.slots[0]?.map fun _ =>
    { f with
      births := f.births ++ [.fresh]
      slots := f.slots.set 0 f.births.length }

/-- What some operations say. -/
def run (f : Family) (ops : List HandleOp) : Option Family := ops.foldlM apply f

/-- `cancel` is called only by that operation, on the handle in its slot. -/
theorem called_apply {f f' : Family} {op : HandleOp}
    (hf : f.apply op = some f') :
    f'.called = f.called ∨
      ∃ slot c, op = .cancel slot ∧ f.slots[slot]? = some c ∧
        f'.called = c :: f.called := by
  cases op with
  | cancel slot =>
    obtain ⟨c, hc, rfl⟩ := Option.map_eq_some_iff.1 hf
    exact .inr ⟨slot, c, rfl, hc, rfl⟩
  | create | check =>
    cases hf
    exact .inl rfl
  | _ =>
    obtain ⟨_, _, rfl⟩ := Option.map_eq_some_iff.1 hf
    exact .inl rfl

/-- A cancellation passes on from a handle to its copies, from a copy to what
it is a copy of, and from a handle to its children. -/
def Passes (births : List Birth) (i j : Nat) : Prop :=
  births[j]? = some (.copy i) ∨ births[i]? = some (.copy j) ∨
    births[j]? = some (.child i)

/-- Cancelling a handle cancels those to which that passes on. -/
def Governs (f : Family) : Nat → Nat → Prop :=
  Relation.ReflTransGen (Passes f.births)

/-- `cancel` was called on a handle that governs this one. -/
def Cancelled (f : Family) (i : Nat) : Prop := ∃ g ∈ f.called, f.Governs g i

end Family

open Family

variable {births : List Birth} {hs : List Cancellation}
  {count g i j p q n : Nat} {h k : Cancellation} {t : HandleTable} {f : Family}

/-! ## The signals of a family -/

/-- The handle that a birth leads to, and how many signals were given out before
and are then. -/
inductive Bears (hs : List Cancellation) (count : Nat) :
    Birth → Cancellation → Nat → Prop
  | fresh : Bears hs count .fresh ⟨count, []⟩ (count + 1)
  | copy {i : Nat} {h : Cancellation} :
      hs[i]? = some h → Bears hs count (.copy i) h count
  | child {i : Nat} {h : Cancellation} :
      hs[i]? = some h → Bears hs count (.child i) ⟨count, h.path⟩ (count + 1)

/-- The handles that births lead to, and how many signals were given out. -/
inductive Born : List Birth → List Cancellation → Nat → Prop
  | nobody : Born [] [] 0
  | bear {births : List Birth} {hs : List Cancellation} {count count' : Nat}
      {b : Birth} {h : Cancellation} :
      Born births hs count → Bears hs count b h count' →
        Born (births ++ [b]) (hs ++ [h]) count'

theorem getElem?_of_grown {α : Type} {l m : List α} {a : α} (hl : l <+: m)
    (ha : l[i]? = some a) : m[i]? = some a := by
  obtain ⟨l', rfl⟩ := hl
  obtain ⟨hlt, _⟩ := List.getElem?_eq_some_iff.1 ha
  rwa [List.getElem?_append_left hlt]

theorem getElem?_concat_eq_some_iff {α : Type} {l : List α} {a b : α} :
    (l ++ [a])[i]? = some b ↔ l[i]? = some b ∨ i = l.length ∧ b = a := by
  rcases Nat.lt_trichotomy i l.length with hlt | rfl | hgt
  · simp [List.getElem?_append_left hlt, Nat.ne_of_lt hlt]
  · simp [eq_comm]
  · have hnone : l[i]? = none := List.getElem?_eq_none (Nat.le_of_lt hgt)
    have hnone' : (l ++ [a])[i]? = none :=
      List.getElem?_eq_none (by
        rw [List.length_append, List.length_singleton]
        omega)
    simp [hnone, hnone', Nat.ne_of_gt hgt]

namespace Born

theorem length_eq (hb : Born births hs count) : births.length = hs.length := by
  induction hb with
  | nobody => rfl
  | bear _ _ ih => simp [ih]

/-- The signals of the handles were given out. -/
theorem lt (hb : Born births hs count) (hi : hs[i]? = some h)
    (hn : n ∈ h.path) : n < count := by
  induction hb generalizing i h with
  | nobody => simp at hi
  | bear _ hnew ih =>
    rcases getElem?_concat_eq_some_iff.1 hi with hold | ⟨rfl, rfl⟩
    · have hlt := ih hold hn
      cases hnew <;> omega
    · cases hnew with
      | fresh =>
        obtain rfl := List.mem_singleton.1 hn
        exact Nat.lt_succ_self _
      | copy hp => exact ih hp hn
      | child hp =>
        rcases List.mem_cons.1 hn with rfl | hn
        · exact Nat.lt_succ_self _
        · exact Nat.lt_succ_of_lt (ih hp hn)

/-- Where a handle comes from was there before it. -/
theorem bears {b : Birth} (hb : Born births hs count)
    (hi : births[i]? = some b) :
    ∃ hs' m m' h, hs' <+: hs ∧ hs[i]? = some h ∧ Bears hs' m b h m' := by
  induction hb with
  | nobody => simp at hi
  | @bear births hs _ _ _ k hb hnew ih =>
    rcases getElem?_concat_eq_some_iff.1 hi with hold | ⟨rfl, rfl⟩
    · obtain ⟨hs', m, m', h, hpre, hh, hbear⟩ := ih hold
      have hgrow := List.prefix_append hs [k]
      exact ⟨hs', m, m', h, hpre.trans hgrow, getElem?_of_grown hgrow hh, hbear⟩
    · exact ⟨hs, _, _, k, List.prefix_append hs [k],
        by simp [hb.length_eq], hnew⟩

/-- A copy is the same handle. -/
theorem copy_eq (hb : Born births hs count) (hj : births[j]? = some (.copy i)) :
    hs[j]? = hs[i]? := by
  obtain ⟨hs', m, m', h, hpre, hh, hbear⟩ := hb.bears hj
  cases hbear with
  | copy hi => rw [hh, getElem?_of_grown hpre hi]

/-- The way of a child to the root goes on with that of its parent. -/
theorem child_eq (hb : Born births hs count)
    (hj : births[j]? = some (.child i)) :
    ∃ h k, hs[i]? = some h ∧ hs[j]? = some k ∧ k.ancestors = h.path := by
  obtain ⟨hs', m, m', k, hpre, hk, hbear⟩ := hb.bears hj
  cases hbear with
  | child hi => exact ⟨_, _, getElem?_of_grown hpre hi, hk, rfl⟩

/-- A handle that descends from none is at its root. -/
theorem fresh_eq (hb : Born births hs count) (hj : births[j]? = some .fresh) :
    ∃ h, hs[j]? = some h ∧ h.ancestors = [] := by
  obtain ⟨hs', m, m', h, hpre, hh, hbear⟩ := hb.bears hj
  cases hbear with
  | fresh => exact ⟨_, hh, rfl⟩

/-- Handles that are not copies have each a signal of their own. -/
theorem own_inj (hb : Born births hs count) (hi : hs[i]? = some h)
    (hj : hs[j]? = some k) (hown : h.own = k.own)
    (hni : ∀ m, births[i]? ≠ some (.copy m))
    (hnj : ∀ m, births[j]? ≠ some (.copy m)) : i = j := by
  induction hb generalizing i j h k with
  | nobody => simp at hi
  | @bear births hs count _ b x hb hnew ih =>
    have hold {i : Nat}
        (hni : ∀ m, (births ++ [b])[i]? ≠ some (.copy m)) :
        ∀ m, births[i]? ≠ some (.copy m) :=
      fun m hm => hni m (getElem?_of_grown (List.prefix_append _ _) hm)
    -- the signal of the newest handle was not given out before, or it is a copy
    have hown_new (hnot : ∀ m, b ≠ .copy m) : x.own = count := by
      cases hnew with
      | copy => exact absurd rfl (hnot _)
      | _ => rfl
    have hbirth : (births ++ [b])[hs.length]? = some b := by
      simp [← hb.length_eq]
    have hnew_ne {i : Nat} {h : Cancellation} (hi : hs[i]? = some h)
        (hnot : ∀ m, (births ++ [b])[hs.length]? ≠ some (.copy m)) :
        h.own ≠ x.own := by
      rw [hown_new fun m hm => hnot m (hm ▸ hbirth)]
      exact Nat.ne_of_lt (hb.lt hi List.mem_cons_self)
    rcases getElem?_concat_eq_some_iff.1 hi with hi' | ⟨rfl, rfl⟩ <;>
      rcases getElem?_concat_eq_some_iff.1 hj with hj' | ⟨rfl, rfl⟩
    · exact ih hi' hj' hown (hold hni) (hold hnj)
    · exact absurd hown (hnew_ne hi' hnj)
    · exact absurd hown.symm (hnew_ne hj' hni)
    · rfl

/-- Cancelling passes on to handles whose way to the root goes on with the way
of that which is cancelled. -/
theorem suffix (hb : Born births hs count)
    (hgov : Relation.ReflTransGen (Passes births) g i) (hi : hs[i]? = some k) :
    ∃ h, hs[g]? = some h ∧ h.path <:+ k.path := by
  induction hgov generalizing k with
  | refl => exact ⟨k, hi, List.suffix_rfl⟩
  | @tail a b _ hpass ih =>
    rcases hpass with hcopy | hcopy | hchild
    · exact ih ((hb.copy_eq hcopy).symm.trans hi)
    · exact ih ((hb.copy_eq hcopy).trans hi)
    · obtain ⟨p, c, hp, hc, hpath⟩ := hb.child_eq hchild
      obtain rfl := Option.some.inj (hc.symm.trans hi)
      obtain ⟨h, hg, hsuffix⟩ := ih hp
      refine ⟨h, hg, hsuffix.trans ?_⟩
      rw [← hpath]
      exact List.suffix_cons _ _

/-- Cancelling reaches a handle if that knows the signal. -/
theorem governs_of_mem (hb : Born births hs count) (hg : hs[g]? = some h)
    (hi : hs[i]? = some k) (hmem : h.own ∈ k.path) :
    Relation.ReflTransGen (Passes births) g i := by
  induction hb generalizing g i h k with
  | nobody => simp at hg
  | @bear births hs count _ b x hb hnew ih =>
    have hgrow {n : Nat} {c : Birth} (hn : births[n]? = some c) :
        (births ++ [b])[n]? = some c :=
      getElem?_of_grown (List.prefix_append _ _) hn
    have hmono {g i : Nat} (hgov : Relation.ReflTransGen (Passes births) g i) :
        Relation.ReflTransGen (Passes (births ++ [b])) g i :=
      Relation.ReflTransGen.mono (fun _ _ => Or.imp hgrow (Or.imp hgrow hgrow))
        _ _ hgov
    have hbirth : (births ++ [b])[hs.length]? = some b := by
      simp [← hb.length_eq]
    rcases getElem?_concat_eq_some_iff.1 hg with hg' | ⟨rfl, rfl⟩ <;>
      rcases getElem?_concat_eq_some_iff.1 hi with hi' | ⟨rfl, rfl⟩
    · exact hmono (ih hg' hi' hmem)
    · -- what reaches the newest handle reaches the one that it comes from
      have hlt := hb.lt hg' List.mem_cons_self
      cases hnew with
      | fresh => exact absurd (List.mem_singleton.1 hmem) (Nat.ne_of_lt hlt)
      | copy hp => exact (hmono (ih hg' hp hmem)).tail (.inl hbirth)
      | child hp =>
        rcases List.mem_cons.1 hmem with hown | hmem
        · exact absurd hown (Nat.ne_of_lt hlt)
        · exact (hmono (ih hg' hp hmem)).tail (.inr (.inr hbirth))
    · -- the newest handle reaches an older one only as a copy
      have hlt := hb.lt hi' hmem
      cases hnew with
      | fresh | child => exact absurd hlt (Nat.lt_irrefl _)
      | copy hp => exact .head (.inr (.inl hbirth)) (hmono (ih hp hi' hmem))
    · exact .refl

/-- A handle is on the way of another one to the root exactly when cancelling it
reaches that one. -/
theorem governs_iff (hb : Born births hs count) (hg : hs[g]? = some h)
    (hi : hs[i]? = some k) :
    Relation.ReflTransGen (Passes births) g i ↔ h.own ∈ k.path := by
  refine ⟨fun hgov => ?_, hb.governs_of_mem hg hi⟩
  obtain ⟨h', hg', hsuffix⟩ := hb.suffix hgov hi
  obtain rfl := Option.some.inj (hg.symm.trans hg')
  exact hsuffix.subset List.mem_cons_self

/-! ## What is not cancelled along -/

/-- Cancelling reaches only handles that were born. -/
theorem reached (hb : Born births hs count)
    (hgov : Relation.ReflTransGen (Passes births) g i) (hg : hs[g]? = some h) :
    ∃ k, hs[i]? = some k := by
  induction hgov with
  | refl => exact ⟨h, hg⟩
  | tail _ hpass ih =>
    obtain ⟨k, hk⟩ := ih
    rcases hpass with hcopy | hcopy | hchild
    · exact ⟨k, (hb.copy_eq hcopy).trans hk⟩
    · exact ⟨k, (hb.copy_eq hcopy).symm.trans hk⟩
    · obtain ⟨_, c, _, hc, _⟩ := hb.child_eq hchild
      exact ⟨c, hc⟩

/-- Cancelling a child does not reach what governs its parent. -/
theorem not_governs_ancestor (hb : Born births hs count)
    (hi : births[i]? = some (.child p))
    (hgov : Relation.ReflTransGen (Passes births) g p) :
    ¬Relation.ReflTransGen (Passes births) i g := by
  intro hup
  obtain ⟨parent, child, hp, hc, hpath⟩ := hb.child_eq hi
  obtain ⟨h, hg, hdown⟩ := hb.suffix hgov hp
  obtain ⟨child', hc', hup⟩ := hb.suffix hup hg
  obtain rfl := Option.some.inj (hc.symm.trans hc')
  have hle := (hup.trans hdown).length_le
  rw [Cancellation.path, hpath, List.length_cons] at hle
  exact Nat.lt_irrefl _ hle

/-- Cancelling a child does not reach another child of the same parent. -/
theorem not_governs_sibling (hb : Born births hs count)
    (hi : births[i]? = some (.child p)) (hj : births[j]? = some (.child q))
    (hne : i ≠ j) (hpq : Relation.ReflTransGen (Passes births) p q)
    (hqp : Relation.ReflTransGen (Passes births) q p) :
    ¬Relation.ReflTransGen (Passes births) i j := by
  intro hgov
  obtain ⟨hp, hi', hp', hhi, hpi⟩ := hb.child_eq hi
  obtain ⟨hq, hj', hq', hhj, hqj⟩ := hb.child_eq hj
  have hlen : hp.path.length = hq.path.length := by
    obtain ⟨x, hx, hsx⟩ := hb.suffix hpq hq'
    obtain ⟨y, hy, hsy⟩ := hb.suffix hqp hp'
    obtain rfl := Option.some.inj (hx.symm.trans hp')
    obtain rfl := Option.some.inj (hy.symm.trans hq')
    exact Nat.le_antisymm hsx.length_le hsy.length_le
  obtain ⟨z, hz, hsuffix⟩ := hb.suffix hgov hhj
  obtain rfl := Option.some.inj (hhi.symm.trans hz)
  have heq : hi'.path = hj'.path :=
    hsuffix.eq_of_length (by simpa [Cancellation.path, hpi, hqj] using hlen)
  exact hne (hb.own_inj hhi hhj (List.head_eq_of_cons_eq heq) (by simp [hi])
    (by simp [hj]))

/-- Cancelling does not reach what descends from another root. -/
theorem not_governs_unrelated {r s : Nat} (hb : Born births hs count)
    (hr : births[r]? = some .fresh) (hs' : births[s]? = some .fresh)
    (hne : r ≠ s) (hri : Relation.ReflTransGen (Passes births) r i)
    (hsj : Relation.ReflTransGen (Passes births) s j) :
    ¬Relation.ReflTransGen (Passes births) i j := by
  intro hgov
  obtain ⟨x, hx, hxnil⟩ := hb.fresh_eq hr
  obtain ⟨y, hy, hynil⟩ := hb.fresh_eq hs'
  obtain ⟨k, hk⟩ := hb.reached hsj hy
  obtain ⟨x', hx', hxk⟩ := hb.suffix (hri.trans hgov) hk
  obtain ⟨y', hy', hyk⟩ := hb.suffix hsj hk
  obtain rfl := Option.some.inj (hx.symm.trans hx')
  obtain rfl := Option.some.inj (hy.symm.trans hy')
  have hlen : x.path.length = y.path.length := by
    simp [Cancellation.path, hxnil, hynil]
  have heq : x.path = y.path :=
    (List.suffix_of_suffix_length_le hxk hyk (Nat.le_of_eq hlen)).eq_of_length
      hlen
  exact hne (hb.own_inj hx hy (List.head_eq_of_cons_eq heq) (by simp [hr])
    (by simp [hs']))

end Born

/-! ## Those who wait -/

namespace HandleTable

/-- Carries out some operations, unless one of them is on an empty slot. -/
def run (t : HandleTable) (ops : List HandleOp) : Option HandleTable :=
  ops.foldlM apply t

/-- Those waiters have been resumed whose handle is cancelled, and no other. -/
def Prompt (t : HandleTable) : Prop :=
  ∀ w ∈ t.waiters, w.resumed = w.handle.isCancelled t.signals

/-- A look at the signals tells a waiter whether its handle is cancelled.  The
waiter holds the handle, so that none of its signals is closed. -/
theorem resumed_poll {w : Waiter} (hw : w ∈ t.waiters)
    (hsound : w.resumed = true → w.handle.isCancelled t.signals = true) :
    (t.poll w).resumed = w.handle.isCancelled t.signals := by
  obtain ⟨h, _ | _⟩ := w
  · have hheld : ∀ n ∈ h.path, t.resumes n = t.signals.raised.contains n := by
      intro n hn
      have hholds : t.holds n = true := by
        unfold holds
        rw [Bool.or_eq_true, List.any_eq_true, List.any_eq_true]
        exact .inr ⟨_, hw, by simpa using hn⟩
      simp [resumes, hholds]
    show (false || h.path.any t.resumes) = h.path.any t.signals.raised.contains
    rw [Bool.false_or, Bool.eq_iff_iff, List.any_eq_true, List.any_eq_true]
    exact exists_congr fun n => and_congr_right fun hn => by rw [hheld n hn]
  · rw [hsound rfl]
    rfl

/-- Waiters are prompt after a change when each one whom it concerns is
woken. -/
theorem prompt_wake {signals : List Nat}
    (hsound : ∀ w ∈ t.waiters, w.resumed = true →
      w.handle.isCancelled t.signals = true)
    (hrest : ∀ w ∈ t.waiters, (∀ n ∈ signals, n ∉ w.handle.path) →
      w.resumed = w.handle.isCancelled t.signals) :
    (t.wake signals).Prompt := by
  intro w hw
  obtain ⟨v, hv, rfl⟩ := List.mem_map.1 hw
  show _ = (ite _ _ _ : Waiter).handle.isCancelled t.signals
  split
  · exact resumed_poll hv (hsound v hv)
  · rename_i hnone
    refine hrest v hv fun n hn hin => hnone ?_
    exact List.any_eq_true.2 ⟨n, hn, by simpa using hin⟩

/-- A handle that is gone resumes nobody. -/
theorem Prompt.closeAfter (hp : t.Prompt) (h : Cancellation) :
    (t.closeAfter h).Prompt :=
  prompt_wake (fun w hw hresumed => (hp w hw).symm.trans hresumed) fun w hw _ =>
    hp w hw

/-- Those who wait below the cancelled handle are resumed. -/
theorem Prompt.cancel (hp : t.Prompt) (h : Cancellation) :
    ({ t with signals := t.signals.cancel h }.wake [h.own]).Prompt := by
  refine prompt_wake (fun w hw hresumed => ?_) fun w hw hnot => ?_
  · exact Cancellation.isCancelled_cancel ((hp w hw).symm.trans hresumed)
  · have hown : h.own ∉ w.handle.path := hnot _ List.mem_cons_self
    rw [hp w hw, Bool.eq_iff_iff]
    show w.handle.path.any _ = true ↔ w.handle.path.any _ = true
    rw [List.any_eq_true, List.any_eq_true]
    refine exists_congr fun n => and_congr_right fun hn => ?_
    have hne : n ≠ h.own := fun heq => hown (heq ▸ hn)
    simp [Signals.mem_raised_cancel, hne]

/-- Who begins to wait goes on at once when the handle is cancelled already. -/
theorem Prompt.wait (hp : t.Prompt) (h : Cancellation) : (t.wait h).Prompt := by
  intro w hw
  rcases List.mem_append.1 hw with hw | hw
  · exact hp w hw
  · obtain rfl := List.mem_singleton.1 hw
    exact resumed_poll (by simp) fun hresumed => by cases hresumed

end HandleTable

/-! ## A table and its family -/

theorem map_getElem?_of_grown {α β : Type} {l m : List α} {is : List Nat}
    {bs : List β} {get : β → α} (hl : l <+: m)
    (his : is.map (l[·]?) = bs.map (some ∘ get)) :
    is.map (m[·]?) = bs.map (some ∘ get) := by
  rw [← his]
  refine List.map_congr_left fun i hi => ?_
  have hmem : l[i]? ∈ bs.map (some ∘ get) := his ▸ List.mem_map_of_mem hi
  obtain ⟨b, _, hb⟩ := List.mem_map.1 hmem
  rw [← hb]
  exact getElem?_of_grown hl hb.symm

/-- The handles of a table are those of a family. -/
structure Linked (t : HandleTable) (f : Family) (hs : List Cancellation) :
    Prop where
  born : Born f.births hs t.signals.count
  slots : f.slots.map (hs[·]?) = t.handles.map (some ∘ id)
  waiting : f.waiting.map (hs[·]?) = t.waiters.map (some ∘ (·.handle))
  called : ∀ g ∈ f.called, ∃ h, hs[g]? = some h
  raised : ∀ n, n ∈ t.signals.raised ↔
    ∃ g ∈ f.called, ∃ h, hs[g]? = some h ∧ h.own = n
  prompt : t.Prompt

namespace Linked

theorem start : Linked .start .start [⟨0, []⟩] where
  born := .bear .nobody .fresh
  slots := rfl
  waiting := rfl
  called := by simp [Family.start]
  raised := by simp [Family.start, HandleTable.start, Signals.newHandle]
  prompt := by simp [HandleTable.Prompt, HandleTable.start]

/-- The handles in the slots were born. -/
theorem born_slot {slot : Nat} (hl : Linked t f hs)
    (hi : f.slots[slot]? = some i) : ∃ h, hs[i]? = some h := by
  have hslot := congrArg (·[slot]?) hl.slots
  simp only [List.getElem?_map, hi, Option.map_some] at hslot
  obtain ⟨h, _, hh⟩ := Option.map_eq_some_iff.1 hslot.symm
  exact ⟨h, hh.symm⟩

/-- A handle is born, and is in no slot yet. -/
theorem grow {b : Birth} (hl : Linked t f hs) (signals : Signals)
    (hb : Bears hs t.signals.count b h signals.count)
    (hraised : signals.raised = t.signals.raised) :
    Linked { t with signals := signals } { f with births := f.births ++ [b] }
      (hs ++ [h]) where
  born := hl.born.bear hb
  slots := map_getElem?_of_grown (List.prefix_append _ _) hl.slots
  waiting := map_getElem?_of_grown (List.prefix_append _ _) hl.waiting
  called g hg := by
    obtain ⟨k, hk⟩ := hl.called g hg
    exact ⟨k, getElem?_of_grown (List.prefix_append _ _) hk⟩
  raised n := by
    show n ∈ signals.raised ↔ _
    rw [hraised, hl.raised]
    refine exists_congr fun g => and_congr_right fun hg => ?_
    obtain ⟨k, hk⟩ := hl.called g hg
    rw [hk, getElem?_of_grown (List.prefix_append _ _) hk]
  prompt w hw := by
    show w.resumed = w.handle.path.any signals.raised.contains
    rw [hraised]
    exact hl.prompt w hw

/-- Handles are put into slots, or taken out. -/
theorem place {handles : List Cancellation} {slots : List Nat}
    (hl : Linked t f hs)
    (hslots : slots.map (hs[·]?) = handles.map (some ∘ id)) :
    Linked { t with handles := handles } { f with slots := slots } hs :=
  { hl with slots := hslots }

theorem bear {b : Birth} (hl : Linked t f hs) (signals : Signals)
    (hb : Bears hs t.signals.count b h signals.count)
    (hraised : signals.raised = t.signals.raised) :
    Linked { t with signals := signals, handles := t.handles ++ [h] } (f.bear b)
      (hs ++ [h]) := by
  have hgrown := hl.grow signals hb hraised
  refine hgrown.place ?_
  rw [List.map_append, List.map_append, hgrown.slots]
  simp [hl.born.length_eq]

theorem map_handle_wake (t : HandleTable) (signals : List Nat) :
    (t.wake signals).waiters.map (some ∘ (·.handle)) =
      t.waiters.map (some ∘ (·.handle)) := by
  simp only [HandleTable.wake, List.map_map]
  refine List.map_congr_left fun w _ => ?_
  simp only [Function.comp_apply]
  split <;> rfl

theorem closeAfter (hl : Linked t f hs) (h : Cancellation) :
    Linked (t.closeAfter h) f hs :=
  { hl with
    waiting := hl.waiting.trans (map_handle_wake _ _).symm
    prompt := hl.prompt.closeAfter h }

theorem cancel (hl : Linked t f hs) (hi : hs[i]? = some h) :
    Linked ({ t with signals := t.signals.cancel h }.wake [h.own])
      { f with called := i :: f.called } hs where
  born := by
    have hcount : (t.signals.cancel h).count = t.signals.count := by
      unfold Signals.cancel
      split <;> rfl
    show Born f.births hs (t.signals.cancel h).count
    rw [hcount]
    exact hl.born
  slots := hl.slots
  waiting :=
    hl.waiting.trans (map_handle_wake
      { t with signals := t.signals.cancel h } _).symm
  called g hg := by
    rcases List.mem_cons.1 hg with rfl | hg
    · exact ⟨h, hi⟩
    · exact hl.called g hg
  raised n := by
    show n ∈ (t.signals.cancel h).raised ↔ _
    rw [Signals.mem_raised_cancel, hl.raised]
    simp [hi, eq_comm]
  prompt := hl.prompt.cancel h

theorem wait (hl : Linked t f hs) (hi : hs[i]? = some h) :
    Linked (t.wait h) { f with waiting := f.waiting ++ [i] } hs :=
  { hl with
    waiting := by
      show (f.waiting ++ [i]).map (hs[·]?) = (t.waiters ++ [_]).map _
      rw [List.map_append, List.map_append, hl.waiting]
      simp [hi, HandleTable.poll]
    prompt := hl.prompt.wait h }

/-- An operation on a slot is refused for the table where it is for the family,
and otherwise keeps them linked when it does so for the handle in the slot. -/
theorem at_slot {alter : Cancellation → HandleTable} {alter' : Nat → Family}
    (hl : Linked t f hs) (slot : Nat)
    (hkeep : ∀ h i, hs[i]? = some h →
      ∃ hs', hs <+: hs' ∧ Linked (alter h) (alter' i) hs') :
    (t.handles[slot]?.map alter = none ∧ f.slots[slot]?.map alter' = none) ∨
      ∃ t' f' hs', t.handles[slot]?.map alter = some t' ∧
        f.slots[slot]?.map alter' = some f' ∧
        hs <+: hs' ∧ Linked t' f' hs' := by
  have hslot := congrArg (·[slot]?) hl.slots
  simp only [List.getElem?_map] at hslot
  cases hh : t.handles[slot]? with
  | none => exact .inl ⟨rfl, by simpa [hh] using hslot⟩
  | some h =>
    rw [hh, Option.map_some, Option.map_eq_some_iff] at hslot
    obtain ⟨i, hi, hhi⟩ := hslot
    obtain ⟨hs', hpre, hkeep⟩ := hkeep h i hhi
    exact .inr ⟨_, _, hs', rfl, by rw [hi, Option.map_some], hpre, hkeep⟩

/-- A table and its family stay linked in every operation.  Handles that were
born stay what they are. -/
theorem apply (hl : Linked t f hs) (op : HandleOp) :
    (t.apply op = none ∧ f.apply op = none) ∨
      ∃ t' f' hs', t.apply op = some t' ∧ f.apply op = some f' ∧ hs <+: hs' ∧
        Linked t' f' hs' := by
  cases op with
  | create =>
    exact .inr ⟨_, _, _, rfl, rfl, List.prefix_append _ _,
      hl.bear t.signals.newHandle.2 .fresh rfl⟩
  | copy slot =>
    exact hl.at_slot slot fun h i hi =>
      ⟨_, List.prefix_append _ _, hl.bear t.signals (.copy hi) rfl⟩
  | derive slot =>
    exact hl.at_slot slot fun h i hi =>
      ⟨_, List.prefix_append _ _,
        hl.bear (t.signals.newChild h).2 (.child hi) rfl⟩
  | cancel slot =>
    exact hl.at_slot slot fun h i hi => ⟨hs, List.prefix_rfl, hl.cancel hi⟩
  | wait slot =>
    exact hl.at_slot slot fun h i hi => ⟨hs, List.prefix_rfl, hl.wait hi⟩
  | drop slot =>
    have hdropped : (f.slots.eraseIdx slot).map (hs[·]?) =
        (t.handles.eraseIdx slot).map (some ∘ id) := by
      rw [← List.eraseIdx_map, ← List.eraseIdx_map, hl.slots]
    exact hl.at_slot slot fun h i _ =>
      ⟨hs, List.prefix_rfl, (hl.place hdropped).closeAfter h⟩
  | check => exact .inr ⟨_, _, _, rfl, rfl, List.prefix_rfl, hl⟩
  | renewFirst =>
    have hgrown := hl.grow t.signals.newHandle.2 .fresh rfl
    have hset : (f.slots.set 0 f.births.length).map
          ((hs ++ [⟨t.signals.count, []⟩])[·]?) =
        (t.handles.set 0 ⟨t.signals.count, []⟩).map (some ∘ id) := by
      rw [List.map_set, List.map_set, hgrown.slots]
      simp [hl.born.length_eq]
    exact hl.at_slot 0 fun h i _ =>
      ⟨_, List.prefix_append _ _, (hgrown.place hset).closeAfter h⟩

/-- A table and its family stay linked in a run. -/
theorem run (hl : Linked t f hs) (ops : List HandleOp) :
    (t.run ops = none ∧ f.run ops = none) ∨
      ∃ t' f' hs', t.run ops = some t' ∧ f.run ops = some f' ∧
        Linked t' f' hs' := by
  induction ops generalizing t f hs with
  | nil => exact .inr ⟨t, f, hs, rfl, rfl, hl⟩
  | cons op ops ih =>
    show ((t.apply op).bind (·.run ops) = none ∧
      (f.apply op).bind (·.run ops) = none) ∨
      ∃ t' f' hs', (t.apply op).bind (·.run ops) = some t' ∧
        (f.apply op).bind (·.run ops) = some f' ∧ Linked t' f' hs'
    rcases hl.apply op with ⟨ht, hf⟩ | ⟨t', f', hs', ht, hf, _, hl'⟩
    · exact .inl ⟨by rw [ht, Option.bind_none], by rw [hf, Option.bind_none]⟩
    · rw [ht, hf, Option.bind_some, Option.bind_some]
      exact ih hl'

/-- A handle is cancelled when `cancel` was called on one that governs it. -/
theorem isCancelled_iff (hl : Linked t f hs) (hi : hs[i]? = some h) :
    h.isCancelled t.signals = true ↔ f.Cancelled i := by
  show h.path.any t.signals.raised.contains = true ↔ _
  simp only [List.any_eq_true, List.contains_eq_mem,
    decide_eq_true_eq, hl.raised]
  constructor
  · rintro ⟨n, hn, g, hg, k, hk, rfl⟩
    exact ⟨g, hg, (hl.born.governs_iff hk hi).2 hn⟩
  · rintro ⟨g, hg, hgov⟩
    obtain ⟨k, hk⟩ := hl.called g hg
    exact ⟨k.own, (hl.born.governs_iff hk hi).1 hgov, g, hg, k, hk, rfl⟩

/-- What is told of each of some handles is told of those of the family. -/
theorem told_iff {β : Type} {is : List Nat} {bs : List β}
    {get : β → Cancellation} {told : β → Bool} (hl : Linked t f hs)
    (his : is.map (hs[·]?) = bs.map (some ∘ get))
    (htold : ∀ x ∈ bs, told x = (get x).isCancelled t.signals) (slot : Nat)
    (b : Bool) :
    (bs.map told)[slot]? = some b ↔
      ∃ i, is[slot]? = some i ∧ (b = true ↔ f.Cancelled i) := by
  have hslot := congrArg (·[slot]?) his
  simp only [List.getElem?_map] at hslot ⊢
  have hcancelled {x : β} {i : Nat} (hx : bs[slot]? = some x)
      (hi : hs[i]? = some (get x)) : told x = true ↔ f.Cancelled i := by
    rw [htold x (List.mem_of_getElem? hx)]
    exact hl.isCancelled_iff hi
  constructor
  · intro hb
    obtain ⟨x, hx, rfl⟩ := Option.map_eq_some_iff.1 hb
    rw [hx, Option.map_some] at hslot
    obtain ⟨i, hi, hhi⟩ := Option.map_eq_some_iff.1 hslot
    exact ⟨i, hi, hcancelled hx hhi⟩
  · rintro ⟨i, hi, hb⟩
    rw [hi, Option.map_some] at hslot
    obtain ⟨x, hx, hhi⟩ := Option.map_eq_some_iff.1 hslot.symm
    rw [hx, Option.map_some, Option.some_inj, Bool.eq_iff_iff, hb]
    exact hcancelled hx hhi.symm

/-- An operation cancels handles only where it is a `cancel` on one that governs
them, and none is cancelled no longer. -/
theorem cancelled_apply {f' : Family} {op : HandleOp} (hl : Linked t f hs)
    (hf : f.apply op = some f') (hi : i < f.births.length) :
    (f.Cancelled i → f'.Cancelled i) ∧
      (f'.Cancelled i → f.Cancelled i ∨
        ∃ slot c, op = .cancel slot ∧ f.slots[slot]? = some c ∧
          f.Governs c i) := by
  rcases hl.apply op with ⟨_, hnone⟩ | ⟨t', f'', hs', _, hf'', hpre, hl'⟩
  · cases hf.symm.trans hnone
  obtain rfl := Option.some.inj (hf.symm.trans hf'')
  rw [hl.born.length_eq] at hi
  have hhi : hs[i]? = some hs[i] := List.getElem?_eq_getElem hi
  have hgoverns {g : Nat} {k : Cancellation} (hg : hs[g]? = some k) :
      f'.Governs g i ↔ f.Governs g i :=
    (hl'.born.governs_iff (getElem?_of_grown hpre hg)
      (getElem?_of_grown hpre hhi)).trans (hl.born.governs_iff hg hhi).symm
  constructor
  · rintro ⟨g, hg, hgov⟩
    obtain ⟨k, hk⟩ := hl.called g hg
    refine ⟨g, ?_, (hgoverns hk).2 hgov⟩
    rcases called_apply hf with hsame | ⟨_, _, _, _, hcons⟩
    · exact hsame ▸ hg
    · exact hcons ▸ List.mem_cons_of_mem _ hg
  · rintro ⟨g, hg, hgov⟩
    rcases called_apply hf with hsame | ⟨slot, c, rfl, hc, hcons⟩
    · rw [hsame] at hg
      obtain ⟨k, hk⟩ := hl.called g hg
      exact .inl ⟨g, hg, (hgoverns hk).1 hgov⟩
    · rw [hcons] at hg
      rcases List.mem_cons.1 hg with rfl | hg
      · obtain ⟨k, hk⟩ := hl.born_slot hc
        exact .inr ⟨slot, g, rfl, hc, (hgoverns hk).1 hgov⟩
      · obtain ⟨k, hk⟩ := hl.called g hg
        exact .inl ⟨g, hg, (hgoverns hk).1 hgov⟩

end Linked

/-! ## Every run of operations -/

/-- Whatever is done to the handles of a table, with operations that are refused
only on an empty slot:

* a handle in a slot is cancelled exactly when `cancel` was called on one that
  governs it, that is on the handle itself, on a copy of it, or on one from
  which it descends or a copy of that, whether those are still there or not;
* who waits has been resumed exactly when the handle waited on is cancelled;
* an operation cancels nothing except for a `cancel`, which cancels what the
  handle governs, and nothing is cancelled no longer;
* a child does not govern what governs its parent, nor another child of its
  parent, and no handle governs one of another root. -/
theorem cancellation_follows_descent (ops : List HandleOp) :
    (HandleTable.start.run ops).isSome = (Family.start.run ops).isSome ∧
    ∀ (t : HandleTable) (f : Family),
      HandleTable.start.run ops = some t → Family.start.run ops = some f →
      (∀ (slot : Nat) b, t.cancelled[slot]? = some b ↔
        ∃ i, f.slots[slot]? = some i ∧ (b = true ↔ f.Cancelled i)) ∧
      (∀ (k : Nat) b, t.resolved[k]? = some b ↔
        ∃ i, f.waiting[k]? = some i ∧ (b = true ↔ f.Cancelled i)) ∧
      (∀ op f' (i : Nat), f.apply op = some f' → i < f.births.length →
        (f.Cancelled i → f'.Cancelled i) ∧
        (f'.Cancelled i → f.Cancelled i ∨
          ∃ slot c, op = .cancel slot ∧ f.slots[slot]? = some c ∧
            f.Governs c i)) ∧
      (∀ (i p g : Nat), f.births[i]? = some (.child p) → f.Governs g p →
        ¬f.Governs i g) ∧
      (∀ (i j p q : Nat), f.births[i]? = some (.child p) →
        f.births[j]? = some (.child q) → i ≠ j →
        f.Governs p q → f.Governs q p → ¬f.Governs i j) ∧
      ∀ (r s i j : Nat), f.births[r]? = some .fresh →
        f.births[s]? = some .fresh → r ≠ s →
        f.Governs r i → f.Governs s j → ¬f.Governs i j := by
  rcases Linked.start.run ops with ⟨ht, hf⟩ | ⟨t, f, hs, ht, hf, hl⟩
  · refine ⟨by rw [ht, hf]; rfl, fun t f ht' => ?_⟩
    cases ht.symm.trans ht'
  · refine ⟨by rw [ht, hf]; rfl, fun t' f' ht' hf' => ?_⟩
    obtain rfl := Option.some.inj (ht.symm.trans ht')
    obtain rfl := Option.some.inj (hf.symm.trans hf')
    exact ⟨hl.told_iff hl.slots fun _ _ => rfl,
      hl.told_iff hl.waiting hl.prompt,
      fun op f' i => hl.cancelled_apply, fun i p g =>
      hl.born.not_governs_ancestor, fun i j p q => hl.born.not_governs_sibling,
      fun r s i j => hl.born.not_governs_unrelated⟩

/-- A handle is dropped while someone waits on its child, and a copy of it is
cancelled then. -/
def orphan : List HandleOp := [.derive 0, .copy 0, .wait 1, .drop 0, .cancel 1]

theorem cancellation_follows_descent_orphan :
    ∃ (t : HandleTable) (f : Family),
      HandleTable.start.run orphan = some t ∧ Family.start.run orphan = some f ∧
        t.cancelled = [true, true] ∧ t.resolved = [true] ∧
        f.slots = [1, 2] ∧ f.Cancelled 1 ∧ ¬f.Governs 1 0 := by
  obtain ⟨t, ht⟩ := Option.isSome_iff_exists.1
    (show (HandleTable.start.run orphan).isSome = true by decide)
  obtain ⟨f, hf⟩ := Option.isSome_iff_exists.1
    (show (Family.start.run orphan).isSome = true by decide)
  obtain ⟨hcancelled, _, _, hup, _⟩ :=
    (cancellation_follows_descent orphan).2 t f ht hf
  cases ht
  cases hf
  obtain ⟨i, hi, htold⟩ := (hcancelled 0 true).1 rfl
  cases hi
  exact ⟨_, _, rfl, rfl, rfl, rfl, rfl, htold.1 rfl, hup 1 0 0 rfl .refl⟩

end CloudAccess
