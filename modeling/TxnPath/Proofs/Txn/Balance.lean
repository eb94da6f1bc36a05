import TxnPath.Proofs.Outcome
import TxnPath.Proofs.Txn.RoundSteps

/-!
# `TxnPath.Proofs.Txn.Balance`: the books of a round agree

A round keeps its dependencies in five places: two counters, the queue of fragments that
owe a result, the entries, and the latch. This module relates the first four.

* A `Tally` counts from outside, per statement and dependency, the fragments registered
  and the results accepted. `Round.Balanced` says that the books agree with it.
* Adding tasks keeps the balance with the fragments counted (`Balanced.addTask`).
* `Round.Settles r r'` says what taking in results does to the books: whatever leaves
  the queue arrives in an entry. One result does it (`accept_settles`), hence any number
  of them (`foldlM_accept_settles`), and it keeps the balance (`Balanced.settles`).
* In a balanced round a result is refused for one reason only (`Balanced.accept_error`).
-/

set_option autoImplicit false

namespace TxnPath

/-- What has happened in a round, counted per statement and dependency. -/
structure Tally where
  /-- How many fragments that produce the dependency were registered. -/
  registered : Nat → DependencyId → Nat
  /-- How many results were accepted for it. -/
  accepted : Nat → DependencyId → Nat

/-- Nothing has happened yet. -/
def Tally.zero : Tally := ⟨fun _ _ => 0, fun _ _ => 0⟩

namespace Round

variable {r r' r'' : Round} {txn : TxnId} {x : Delivery} {c : Tally}

/-- How many fragments in the queue owe their result to the record of `i` and `d`. -/
def pending (r : Round) (i : Nat) (d : DependencyId) : Nat :=
  r.awaited.countP (Awaited.isFor i d)

/-- How many results the record of `i` and `d` holds. -/
def held (r : Round) (i : Nat) (d : DependencyId) : Nat := (r.entry i d).results.length

/-- The books of the round agree with each other and with a tally. This is the invariant that makes
it impossible for a result to come unregistered or to be one too many. -/
structure Balanced (r : Round) (c : Tally) : Prop where
  /-- What is expected has been received, or is still owed. -/
  counters : r.expected = r.received + r.awaited.length
  /-- A record lists a producer for every fragment that was registered for it. -/
  registered : ∀ i d, (r.entry i d).producers.length = c.registered i d
  /-- Of the fragments registered for a record, each has been accepted or is still owed. -/
  accounted : ∀ i d, c.registered i d = c.accepted i d + r.pending i d
  /-- A fragment is owed from a partition that its record lists as a producer. -/
  owed : ∀ a ∈ r.awaited, a.partition ∈ (r.entry a.statement a.dependency).producers

/-- Before any fragment is registered everything is zero. -/
theorem balanced_empty : empty.Balanced .zero where
  counters := rfl
  registered := fun _ _ => rfl
  accounted := fun _ _ => rfl
  owed := fun _ h => absurd h List.not_mem_nil

/-- Once the counters agree nothing is owed any more. -/
theorem Balanced.awaited_eq_nil (hbal : r.Balanced c) (h : r.expected = r.received) :
    r.awaited = [] := by
  have hcounters := hbal.counters
  exact List.length_eq_zero_iff.mp (by omega)

/-! ### Adding tasks -/

/-- What a task owes to the record of `i` and `d` is what its fragments produce for it. -/
theorem countP_owed (t : Task) (i : Nat) (d : DependencyId) :
    t.owed.countP (Awaited.isFor i d)
      = t.fragments.countP fun f => f.index == i && f.output == some d := by
  unfold Task.owed Fragment.owed
  induction t.fragments with
  | nil => rfl
  | cons f rest ih =>
    cases hf : f.output with
    | none => simp [hf, ih]
    | some c => simp [hf, ih, List.countP_cons, Awaited.isFor]

/-- Adding a task keeps the balance, with its fragments registered. What a task owes is counted by
the tally in the form of its fragments and by the queue in the form of what is awaited;
`countP_owed` says that the two are the same. -/
theorem Balanced.addTask {t : Task} {isBlocked : Bool} (hbal : r.Balanced c)
    (h : r.addTask t = .ok (r', isBlocked)) :
    r'.Balanced { c with
      registered := fun i d => c.registered i d
        + t.fragments.countP fun f => f.index == i && f.output == some d } := by
  obtain ⟨hbooks, _, hentry⟩ := addTask_ok h
  have hproducers : ∀ i d, (r'.entry i d).producers = (r.entry i d).producers
      ++ (t.owed.filter (Awaited.isFor i d)).map Awaited.partition := by
    intro i d
    rw [hentry]
  have hawaited : r'.awaited = r.awaited ++ t.owed := by rw [hbooks]
  -- The task's fragments are counted four times over: by the counters, in the queue, by the tally,
  -- and as producers of their entries.
  refine ⟨?_, fun i d => ?_, fun i d => ?_, fun a ha => ?_⟩
  · have hexpected : r'.expected = r.expected + t.owed.length := by rw [hbooks]
    have hreceived : r'.received = r.received := by rw [hbooks]
    rw [hexpected, hreceived, hawaited, hbal.counters, List.length_append, Nat.add_assoc]
  · rw [hproducers, List.length_append, List.length_map, ← List.countP_eq_length_filter,
      countP_owed, hbal.registered]
  · show _ = c.accepted i d + r'.awaited.countP (Awaited.isFor i d)
    rw [hawaited, List.countP_append, countP_owed]
    show c.registered i d + _ = _
    rw [hbal.accounted i d, pending, Nat.add_assoc]
  · rw [hproducers]
    rw [hawaited] at ha
    -- A fragment that owed before is a producer already; one of the task has just become one.
    rcases List.mem_append.mp ha with hold | hnew
    · exact List.mem_append_left _ (hbal.owed a hold)
    · refine List.mem_append_right _ (List.mem_map_of_mem (List.mem_filter.mpr ⟨hnew, ?_⟩))
      exact Awaited.isFor_iff.mpr ⟨rfl, rfl⟩

/-! ### Taking in results -/

/-- The second round comes from the first by taking in results: whatever leaves the
queue arrives in an entry, and nothing else of the books moves. -/
structure Settles (r r' : Round) : Prop where
  expected : r'.expected = r.expected
  order : r'.order = r.order
  queued : r'.queued = r.queued
  counters : r'.received + r'.awaited.length = r.received + r.awaited.length
  producers : ∀ i d, (r'.entry i d).producers = (r.entry i d).producers
  conserved : ∀ i d, r'.held i d + r'.pending i d = r.held i d + r.pending i d
  gained : ∀ i d, r.held i d ≤ r'.held i d
  awaited : ∀ a ∈ r'.awaited, a ∈ r.awaited
  unarmed : r.latch = none → r'.latch = none

namespace Settles

/-- Taking in nothing settles nothing. -/
theorem refl (r : Round) : r.Settles r :=
  ⟨rfl, rfl, rfl, rfl, fun _ _ => rfl, fun _ _ => rfl, fun _ _ => Nat.le_refl _, fun _ h => h, id⟩

/-- Two runs of results taken in after each other are one. -/
theorem trans (h : r.Settles r') (h' : r'.Settles r'') : r.Settles r'' where
  expected := h'.expected.trans h.expected
  order := h'.order.trans h.order
  queued := h'.queued.trans h.queued
  counters := h'.counters.trans h.counters
  producers := fun i d => (h'.producers i d).trans (h.producers i d)
  conserved := fun i d => (h'.conserved i d).trans (h.conserved i d)
  gained := fun i d => Nat.le_trans (h.gained i d) (h'.gained i d)
  awaited := fun a ha => h.awaited a (h'.awaited a ha)
  unarmed := fun hnone => h'.unarmed (h.unarmed hnone)

end Settles

/-- One result that is taken in leaves the queue at one place and arrives there. The counter goes up
as the queue gets shorter, so that their sum is kept for the round, and it is kept for each record
too since queue and record change at one key. -/
theorem accept_settles (h : r.accept txn x = .ok r') : r.Settles r' := by
  obtain ⟨a, hfind, hbooks, _, hentry⟩ := accept_ok h
  have hmem := List.mem_of_find?_eq_some hfind
  have haccepts : a.accepts x = true := List.find?_some (p := fun a : Awaited => a.accepts x) hfind
  rw [Awaited.accepts_iff] at haccepts
  have hawaited : r'.awaited = r.awaited.erase a := by rw [hbooks]
  have hreceived : r'.received = r.received + 1 := by rw [hbooks]
  have hlatch : r'.latch = r.latch.map Latch.countDown := by rw [hbooks]
  have hpos : 0 < r.awaited.length := List.length_pos_of_mem hmem
  -- The entry gains the result under the key under which the queue loses its fragment.
  have hheld : ∀ i d, r'.held i d
      = r.held i d + if i = a.statement ∧ d = x.dependency then 1 else 0 := by
    intro i d
    rw [held, hentry]
    by_cases hkey : i = a.statement ∧ d = x.dependency
    · simp [held, hkey]
    · simp [held, hkey]
  refine ⟨by rw [hbooks], by rw [hbooks], by rw [hbooks], ?_, fun i d => ?_, fun i d => ?_,
    fun i d => ?_, fun b hb => ?_, fun hnone => ?_⟩
  · rw [hreceived, hawaited, List.length_erase_of_mem hmem]
    omega
  · rw [hentry]
  · have hkey : (i = a.statement ∧ d = x.dependency) ↔ a.isFor i d = true := by
      rw [Awaited.isFor_iff, haccepts.2]
      exact and_congr eq_comm eq_comm
    have hqueue := (List.perm_cons_erase hmem).countP_eq (Awaited.isFor i d)
    rw [List.countP_cons] at hqueue
    have hpending : r'.pending i d = (r.awaited.erase a).countP (Awaited.isFor i d) := by
      rw [pending, hawaited]
    rw [hheld, hpending, pending, hqueue]
    simp only [hkey]
    omega
  · rw [hheld]
    exact Nat.le_add_right _ _
  · rw [hawaited] at hb
    exact List.mem_of_mem_erase hb
  · rw [hlatch, hnone]
    rfl

/-- Any number of results that are taken in leave the queue and arrive in entries. -/
theorem foldlM_accept_settles {queue : List Delivery}
    (h : queue.foldlM (accept txn) r = .ok r') : r.Settles r' := by
  induction queue generalizing r with
  | nil =>
    cases h
    exact .refl _
  | cons x rest ih =>
    obtain ⟨m, hm, hrest⟩ := Outcome.foldlM_cons_ok h
    exact (accept_settles hm).trans (ih hrest)

/-- Taking in results keeps the balance, with the results accepted that the entries have
gained. -/
theorem Balanced.settles (hbal : r.Balanced c) (h : r.Settles r') :
    r'.Balanced { c with
      accepted := fun i d => c.accepted i d + (r'.held i d - r.held i d) } := by
  refine ⟨?_, fun i d => ?_, fun i d => ?_, fun a ha => ?_⟩
  · rw [h.expected, hbal.counters, h.counters]
  · rw [h.producers, hbal.registered]
  · have haccounted := hbal.accounted i d
    have hconserved := h.conserved i d
    have hgained := h.gained i d
    show c.registered i d = c.accepted i d + (r'.held i d - r.held i d) + r'.pending i d
    omega
  · rw [h.producers]
    exact hbal.owed a (h.awaited a ha)

/-- Taking inputs empties results that were accepted before; none of them comes back. The balance is
about what has been owed and accepted, so that it does not matter where results are kept. -/
theorem Balanced.takeInputs {base : Nat} {task : TaskId} {fs : List Fragment}
    {taken taken' : List (DependencyId × List ResultTable)} (hbal : r.Balanced c)
    (h : takeInputs txn base task r taken fs = .ok (r', taken')) : r'.Balanced c := by
  obtain ⟨hbooks, hentry⟩ := takeInputs_ok h
  have hproducers : ∀ i d, (r'.entry i d).producers = (r.entry i d).producers := by
    intro i d
    rcases hentry i d with hsame | hempty
    · rw [hsame]
    · rw [hempty]
  have hawaited : r'.awaited = r.awaited := by rw [hbooks]
  -- Only results are taken out of entries, and the balance does not speak of results.
  refine ⟨?_, fun i d => ?_, fun i d => ?_, fun a ha => ?_⟩
  · have hexpected : r'.expected = r.expected := by rw [hbooks]
    have hreceived : r'.received = r.received := by rw [hbooks]
    rw [hexpected, hreceived, hawaited, hbal.counters]
  · rw [hproducers, hbal.registered]
  · rw [pending, hawaited]
    exact hbal.accounted i d
  · rw [hproducers]
    exact hbal.owed a (hawaited ▸ ha)

/-- Setting the order of the outputs and emptying the queue leave the books as they are. -/
theorem Balanced.ordered (hbal : r.Balanced c) :
    ({ r with order := r.outputs, queued := [] } : Round).Balanced c :=
  ⟨hbal.counters, hbal.registered, hbal.accounted, hbal.owed⟩

/-- In a balanced round a result is refused only because no fragment owes one like it. -/
theorem Balanced.accept_error {f : Fault} (hbal : r.Balanced c)
    (h : r.accept txn x = .error f) :
    f = .round txn (.unexpectedResult x.partition x.dependency) :=
  Round.accept_error h hbal.owed

/-- Starting from a balanced round, queued results are refused for that reason only. -/
theorem Balanced.foldlM_accept_error {f : Fault} {queue : List Delivery} (hbal : r.Balanced c)
    (h : queue.foldlM (accept txn) r = .error f) :
    ∃ p d, f = .round txn (.unexpectedResult p d) := by
  induction queue generalizing r c with
  | nil => cases h
  | cons x rest ih =>
    rcases Outcome.foldlM_cons_error h with hx | ⟨m, hm, hrest⟩
    · exact ⟨_, _, hbal.accept_error hx⟩
    · exact ih (hbal.settles (accept_settles hm)) hrest

end Round

end TxnPath
