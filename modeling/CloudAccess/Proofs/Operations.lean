import CloudAccess.Ledger
import Mathlib.Data.List.Basic

/-!
# Operations and what a ledger says about them

A ledger says how many spans were opened for the operations of a kind, how many
operations were begun, and how many have returned a value or an error.

* `Operation` is an operation that was begun, with how it returned if it has.
* `Ledger.Dial` is what can be read off a ledger about a kind, and `reading`
  what it shows.  `reading_enter` and `reading_finish` say what moves it.
* `Ledger.Logs` compares two ledgers: what was added from the one to the other
  is what has become of operations.
* `Ledger.Balances` is what a ledger says when all of it is about the given
  operations, and `Logs.balances` derives it.
-/

namespace CloudAccess

/-- An operation that was begun: its kind, and whether it has returned a value
or an error.  One that has not was given up, has crashed or is still under
way. -/
structure Operation where
  kind : OpKind
  returned : Option Bool
  deriving DecidableEq, Repr

namespace Ledger

/-- What can be read off a ledger about a kind of operations: the number of
spans opened for them, and how often they had an outcome. -/
inductive Dial
  | spans
  | outcome (o : OpOutcome)
  deriving DecidableEq, Repr

/-- What a dial shows. -/
def reading (l : Ledger) (kind : OpKind) : Dial → Nat
  | .spans => l.spans.countP (·.kind = kind)
  | .outcome o => l.count kind o

end Ledger

/-- The dials that an operation moves. -/
def Operation.counted (op : Operation) (kind : OpKind) : Ledger.Dial → Bool
  | .spans | .outcome .attempt => op.kind = kind
  | .outcome .success => op = ⟨kind, some true⟩
  | .outcome .failure => op = ⟨kind, some false⟩

namespace Ledger

variable {l l' l'' : Ledger} {kind : OpKind} {ops ops' ops'' : List Operation}

/-- Nothing is read off an empty ledger. -/
@[simp] theorem reading_empty (kind : OpKind) (d : Dial) :
    ({} : Ledger).reading kind d = 0 := by
  cases d <;> rfl

/-- Entering an operation opens a span and counts an attempt. -/
@[simp] theorem reading_enter (l : Ledger) (other : OpKind) (stage : String)
    (kind : OpKind) (d : Dial) :
    (l.enter other stage).reading kind d =
      l.reading kind d +
        (decide (other = kind ∧
          (d = .spans ∨ d = .outcome .attempt))).toNat := by
  rcases d with _ | (_ | _ | _) <;> by_cases h : other = kind <;>
    simp [reading, enter, count, List.countP_append, List.count_append, h]

/-- Reporting how an operation returned counts one outcome. -/
@[simp] theorem reading_finish {ε α : Type} (l : Ledger) (other : OpKind)
    (result : Except ε α) (kind : OpKind) (d : Dial) :
    (l.finish other result).reading kind d =
      l.reading kind d + (decide (other = kind ∧
        d = .outcome (.of result))).toNat := by
  rcases d with _ | (_ | _ | _) <;> by_cases h : other = kind <;>
    cases result <;>
    simp [reading, finish, count, List.count_append, h, OpOutcome.of]

/-- Events move no dial. -/
@[simp] theorem reading_report (l : Ledger) (events : List Event)
    (kind : OpKind) (d : Dial) :
    (l.report events).reading kind d = l.reading kind d := by
  cases d <;> rfl

/-- An operation that was only begun moves the dials of its kind by its span and
its attempt. -/
theorem counted_begun (other kind : OpKind) (d : Dial) :
    (⟨other, none⟩ : Operation).counted kind d =
      decide (other = kind ∧ (d = .spans ∨ d = .outcome .attempt)) := by
  rcases d with _ | (_ | _ | _) <;> simp [Operation.counted]

/-- An operation that has returned moves one more. -/
theorem counted_returned {ε α : Type} (other : OpKind) (result : Except ε α)
    (kind : OpKind) (d : Dial) :
    ((⟨other, some result.isOk⟩ : Operation).counted kind d).toNat =
      ((⟨other, none⟩ : Operation).counted kind d).toNat +
        (decide (other = kind ∧ d = .outcome (.of result))).toNat := by
  rcases d with _ | (_ | _ | _) <;> by_cases h : other = kind <;>
    cases result <;>
    simp [Operation.counted, h, OpOutcome.of, Except.isOk, Except.toBool]

/-! ## What was added -/

theorem countP_cons_toNat {α : Type} (p : α → Bool) (x : α) (l : List α) :
    (x :: l).countP p = l.countP p + (p x).toNat := by
  rw [List.countP_cons]
  cases p x <;> rfl

/-- What was added from one ledger to another is what has become of operations:
of `ops` at the one and of `ops'` at the other. -/
def Logs (l l' : Ledger) (ops ops' : List Operation) : Prop :=
  ∀ kind d, l'.reading kind d + ops.countP (·.counted kind d) =
    l.reading kind d + ops'.countP (·.counted kind d)

theorem Logs.refl (l : Ledger) (ops : List Operation) : l.Logs l ops ops :=
  fun _ _ => rfl

theorem Logs.trans (h : l.Logs l' ops ops') (h' : l'.Logs l'' ops' ops'') :
    l.Logs l'' ops ops'' := fun kind d => by
  have hfirst := h kind d
  have hlast := h' kind d
  omega

/-- Other operations stay as they are. -/
theorem Logs.beside (h : l.Logs l' ops ops') (before after : List Operation) :
    l.Logs l' (before ++ ops ++ after) (before ++ ops' ++ after) :=
      fun kind d => by
  have hsame := h kind d
  simp only [List.countP_append]
  omega

/-- An operation is entered. -/
theorem logs_enter (l : Ledger) (kind : OpKind) (stage : String) :
    l.Logs (l.enter kind stage) [] [⟨kind, none⟩] := fun other d => by
  rw [reading_enter, ← counted_begun, countP_cons_toNat, List.countP_nil]
  omega

/-- Events add nothing. -/
theorem logs_report (l : Ledger) (events : List Event) (ops : List Operation) :
    l.Logs (l.report events) ops ops := fun kind d => by
  rw [reading_report]

/-- An operation returns. -/
theorem logs_finish {ε α : Type} (l : Ledger) (kind : OpKind)
    (result : Except ε α) :
    l.Logs (l.finish kind result) [⟨kind, none⟩] [⟨kind, some result.isOk⟩] :=
  fun other d => by
    have hmove := counted_returned kind result other d
    rw [reading_finish]
    simp only [countP_cons_toNat, List.countP_nil]
    omega

/-! ## The balance -/

/-- What a ledger says about a kind when all of it is about the given
operations: a span was opened for each operation that was begun, and each was
counted as an attempt; as a success and as a failure count those that returned a
value and an error; and what is missing from the attempts are the operations
that have not returned. -/
structure Balances (l : Ledger) (kind : OpKind) (ops : List Operation) :
    Prop where
  spans : l.spans.countP (·.kind = kind) = l.count kind .attempt
  attempts : l.count kind .attempt = ops.countP (·.kind = kind)
  successes : l.count kind .success = ops.count ⟨kind, some true⟩
  failures : l.count kind .failure = ops.count ⟨kind, some false⟩
  total : l.count kind .attempt =
    l.count kind .success + l.count kind .failure + ops.count ⟨kind, none⟩

/-- The operations of a kind have returned a value or an error or not at all. -/
theorem countP_kind (kind : OpKind) (ops : List Operation) :
    ops.countP (·.kind = kind) =
      ops.count ⟨kind, some true⟩ + ops.count ⟨kind, some false⟩ + ops.count
        ⟨kind, none⟩ := by
  induction ops with
  | nil => rfl
  | cons op ops ih =>
    rw [List.countP_cons, ih, List.count_cons, List.count_cons, List.count_cons]
    obtain ⟨other, returned⟩ := op
    by_cases h : other = kind
    · subst h
      rcases returned with _ | _ | _ <;> simp <;> omega
    · simp [h]

theorem Logs.balances (h : ({} : Ledger).Logs l [] ops) (kind : OpKind) :
    l.Balances kind ops := by
  have hread (d : Dial) : l.reading kind d = ops.countP (·.counted kind d) := by
    have hsame := h kind d
    rwa [reading_empty, Nat.zero_add] at hsame
  have hspans : l.spans.countP (·.kind = kind) = ops.countP (·.kind = kind) :=
    hread .spans
  have hattempts : l.count kind .attempt = ops.countP (·.kind = kind) :=
    hread (.outcome .attempt)
  have hsuccesses : l.count kind .success = ops.count ⟨kind, some true⟩ :=
    hread (.outcome .success)
  have hfailures : l.count kind .failure = ops.count ⟨kind, some false⟩ :=
    hread (.outcome .failure)
  refine ⟨hspans.trans hattempts.symm, hattempts, hsuccesses, hfailures, ?_⟩
  rw [hattempts, hsuccesses, hfailures, countP_kind]

end Ledger

end CloudAccess
