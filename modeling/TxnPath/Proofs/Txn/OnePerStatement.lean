import TxnPath.Proofs.Txn.Filing
import TxnPath.Proofs.Txn.HandingOut
import TxnPath.Proofs.Txn.Outputs

/-!
# `TxnPath.Proofs.Txn.OnePerStatement`: when a batch has its results

Reading the results of a batch takes the output at each position of the order for the statement at
this position. A round that starts has as many outputs as statements, but they need not be spread
over the statements one by one: a batch of two statements starts if the first has two outputs and
the second has none.

`Docket.OneEach` says that every statement has one output, in terms of the tasks that were added.
`results_iff_one_each` follows a round from its beginning over its start to the moment when no
result is outstanding: the results can be read if and only if every statement has one output, and
the table at each position then is the first result that came for the output of this statement.
-/

set_option autoImplicit false

namespace TxnPath

open Transaction

namespace Docket

/-- Some task produces the dependency of the statement, and no task consumes the dependency. -/
def Output (s : Docket) (i : Nat) (d : DependencyId) : Prop :=
  (∃ task ∈ s.tasks, task.Produces i d) ∧ ∀ task ∈ s.tasks, ∀ j, ¬ task.Consumes j d

/-- Each of the first `n` statements has exactly one output. -/
def OneEach (s : Docket) (n : Nat) : Prop :=
  ∀ i < n, ∃ d, s.Output i d ∧ ∀ d', s.Output i d' → d' = d

variable {s s' : Docket} {i : Nat} {d : DependencyId}

/-- What the outputs are follows from the tasks that were added. -/
theorem output_congr (h : s'.tasks = s.tasks) : s'.Output i d ↔ s.Output i d := by
  rw [Output, Output, h]

/-- A list that holds an output of every statement at its position holds its only one there. -/
theorem OneEach.iff_only {l : List DependencyId}
    (h : s.OneEach l.length ↔ ∀ i d, l[i]? = some d → s.Output i d) :
    s.OneEach l.length
      ↔ ∀ i d, l[i]? = some d → s.Output i d ∧ ∀ d', s.Output i d' → d' = d := by
  constructor
  · intro heach i d hd
    have hout := h.mp heach i d hd
    obtain ⟨hlt, _⟩ := List.getElem?_eq_some_iff.mp hd
    obtain ⟨e, _, honly⟩ := heach i hlt
    exact ⟨hout, fun d' hother => (honly d' hother).trans (honly d hout).symm⟩
  · intro honly
    exact h.mpr fun i d hd => (honly i d hd).1

/-- Something is owed to a record if and only if some task produces it. -/
theorem owed_pos_iff :
    0 < s.owed.countP (Awaited.isFor i d) ↔ ∃ task ∈ s.tasks, task.Produces i d := by
  rw [List.countP_pos_iff]
  simp only [owed, List.mem_flatMap, Task.produces_iff]
  constructor
  · rintro ⟨a, ⟨task, htask, ha⟩, hfor⟩
    exact ⟨task, htask, a, ha, hfor⟩
  · rintro ⟨task, htask, a, ha, hfor⟩
    exact ⟨a, ⟨task, htask, ha⟩, hfor⟩

end Docket

/-- The ordered candidates of a round are the outputs of its statements. -/
theorem Round.Registers.mem_ordered {r : Round} {s : Docket} (h : r.Registers s.tasks) {i : Nat}
    {d : DependencyId} : (i, d) ∈ r.ordered ↔ i < r.batchSize ∧ s.Output i d := by
  rw [Round.mem_ordered, h.keys, h.internal]
  constructor
  · rintro ⟨⟨task, htask, hproduces | hconsumes⟩, hi, hfree⟩
    · refine ⟨hi, ⟨task, htask, hproduces⟩, ?_⟩
      intro task' htask' j hconsumes
      exact hfree ⟨task', htask', j, hconsumes⟩
    · exact absurd ⟨task, htask, i, hconsumes⟩ hfree
  · rintro ⟨hi, ⟨task, htask, hproduces⟩, hfree⟩
    refine ⟨⟨task, htask, .inl hproduces⟩, hi, ?_⟩
    rintro ⟨task', htask', j, hconsumes⟩
    exact hfree task' htask' j hconsumes

namespace Course

variable {rule : Docket → Operation → Prop} {k m : Course} {i : Nat} {d : DependencyId}

/-! ### Reading the results -/

/-- The result of a statement is the first one that its record holds. -/
theorem resultAt_ok_iff {txn : TxnId} {r : Round} {table : ResultTable} :
    r.resultAt txn (d, i) = .ok table
      ↔ ∃ p rest, (r.entry i d).results = (p, table) :: rest ∧ (r.record? i d).isSome = true := by
  rw [Round.resultAt, Round.entry]
  cases hrecord : r.record? i d with
  | none => simp
  | some e =>
    simp only [Option.getD_some, DependencyRecord.firstResult?]
    cases hresults : e.results with
    | nil => simp
    | cons row rest =>
      obtain ⟨p, first⟩ := row
      simp

/-- The results of a batch can be read if and only if the result at each position of the order can,
and they stand in this order. -/
theorem results_eq_ok_iff {t : Transaction} {tables : List ResultTable} :
    t.results = .ok tables ↔ tables.length = t.round.order.length
      ∧ ∀ i d table, t.round.order[i]? = some d → tables[i]? = some table →
        t.round.resultAt t.admission.txn (d, i) = .ok table := by
  rw [Transaction.results, Round.results]
  constructor
  · intro h
    refine ⟨by rw [Outcome.length_mapM h, List.length_zipIdx], fun i d table hd htable => ?_⟩
    obtain ⟨⟨d', j⟩, hget, hresult⟩ := Outcome.mapM_ok h htable
    rw [List.getElem?_zipIdx, hd] at hget
    cases hget
    simpa using hresult
  · rintro ⟨hlength, hall⟩
    -- Every position is read at its number, beyond the tables by a value that is never asked for.
    let read : DependencyId × Nat → ResultTable := fun x => tables[x.2]?.getD default
    have hread : ∀ x ∈ t.round.order.zipIdx,
        t.round.resultAt t.admission.txn x = .ok (read x) := by
      rintro ⟨d, i⟩ hx
      have hd := List.mem_zipIdx_iff_getElem?.mp hx
      obtain ⟨hlt, _⟩ := List.getElem?_eq_some_iff.mp hd
      have htable := List.getElem?_eq_getElem (l := tables) (by omega : i < tables.length)
      rw [hall i d _ hd htable]
      simp [read, htable]
    rw [Outcome.mapM_eq_ok hread]
    refine congrArg _ (List.ext_getElem? fun i => ?_)
    rw [List.getElem?_map, List.getElem?_zipIdx]
    by_cases hlt : i < tables.length
    · have hlt' : i < t.round.order.length := by omega
      simp [read, hlt, hlt']
    · have hge : t.round.order.length ≤ i := by omega
      simp [hge, Nat.le_of_not_lt hlt]

/-- What the record of an output holds once no result is outstanding: its first result is the first
that was stored there. The record is not empty since somebody produces the output, and nobody has
emptied it since no task consumes it. -/
theorem Sound.results_of_output (h : k.Sound) (hnone : k.txn.round.awaited = [])
    (hserved : ∀ task ∈ k.docket.served, task ∈ k.docket.tasks) (hout : k.docket.Output i d) :
    (k.txn.round.record? i d).isSome = true
      ∧ ∃ p table rest, (k.txn.round.entry i d).results = (p, table) :: rest
        ∧ (k.docket.stored i d).head? = some (p, table) := by
  -- No task has drawn on an output, since none consumes it.
  have hunspent : ¬ k.docket.Spent i d := by
    rintro ⟨task, htask, hdraws⟩
    exact hout.2 task (hserved task htask) i (Task.consumes_of_mem_draws hdraws)
  have hpos := Docket.owed_pos_iff.mpr hout.1
  have hdelivered := (h.delivered_of_none_awaited hnone).mpr hpos
  have hstored : 0 < (k.docket.stored i d).length := by
    rw [hdelivered.2]
    exact hpos
  have hproducers : (k.txn.round.entry i d).producers ≠ [] := by
    rw [h.producers]
    intro hempty
    have hlength := congrArg List.length hempty
    rw [List.length_map, ← List.countP_eq_length_filter] at hlength
    simp only [List.length_nil] at hlength
    omega
  obtain ⟨p, hp⟩ := List.exists_mem_of_ne_nil _ hproducers
  refine ⟨by rw [Round.record?_of_mem_producers hp]; rfl, ?_⟩
  rw [h.unspent i d hunspent]
  cases hrows : k.docket.stored i d with
  | nil => simp [hrows] at hstored
  | cons row rest => exact ⟨row.1, row.2, rest, rfl, rfl⟩

/-- A record that holds a result is produced by some task. -/
theorem Sound.produced_of_results (h : k.Sound) {row : Nat × ResultTable}
    {rest : List (Nat × ResultTable)} (hrows : (k.txn.round.entry i d).results = row :: rest) :
    ∃ task ∈ k.docket.tasks, task.Produces i d := by
  rw [← Docket.owed_pos_iff, ← h.stored_add_pending i d]
  have hlength := (h.holds i d).length_le
  rw [hrows, List.length_cons] at hlength
  omega

/-- Where no result is outstanding and no task consumes an entry of the order, the results can be
read if and only if the entry at each position is an output of the statement at this position. -/
theorem Sound.results_ok_iff (h : k.Sound) (hnone : k.txn.round.awaited = [])
    (hserved : ∀ task ∈ k.docket.served, task ∈ k.docket.tasks)
    (hfree : ∀ d ∈ k.txn.round.order, ∀ task ∈ k.docket.tasks, ∀ j, ¬ task.Consumes j d) :
    (∃ tables, k.txn.results = .ok tables)
      ↔ ∀ i d, k.txn.round.order[i]? = some d → k.docket.Output i d := by
  constructor
  · -- A position that can be read has a record with results, which some task produces.
    rintro ⟨tables, hresults⟩ i d hd
    obtain ⟨hcount, hat⟩ := results_eq_ok_iff.mp hresults
    obtain ⟨hlt, _⟩ := List.getElem?_eq_some_iff.mp hd
    have hlt' : i < tables.length := by omega
    have htable := List.getElem?_eq_getElem hlt'
    obtain ⟨p, rest, hrows, _⟩ := resultAt_ok_iff.mp (hat i d _ hd htable)
    exact ⟨h.produced_of_results hrows, hfree d (List.mem_of_getElem? hd)⟩
  · -- The table for each position is the first one in the record of its output.
    intro hdiagonal
    let first : DependencyId × Nat → ResultTable := fun x =>
      ((k.docket.stored x.2 x.1).head?.map Prod.snd).getD default
    refine ⟨k.txn.round.order.zipIdx.map first, results_eq_ok_iff.mpr ⟨by simp, ?_⟩⟩
    intro i d table hd htable
    rw [List.getElem?_map, List.getElem?_zipIdx, hd] at htable
    cases htable
    obtain ⟨hrecord, p, table, rest, hrows, hhead⟩ :=
      h.results_of_output hnone hserved (hdiagonal i d hd)
    rw [resultAt_ok_iff]
    exact ⟨p, rest, by simp [first, hhead, hrows], hrecord⟩

/-- The results that can be read then are the first ones that came for these outputs. Those of a
record are in the order in which they came, and reading takes the first. -/
theorem Sound.results_are_first (h : k.Sound) (hnone : k.txn.round.awaited = [])
    (hserved : ∀ task ∈ k.docket.served, task ∈ k.docket.tasks)
    (hdiagonal : ∀ i d, k.txn.round.order[i]? = some d → k.docket.Output i d)
    {tables : List ResultTable} (hresults : k.txn.results = .ok tables) :
    tables.length = k.txn.round.order.length ∧ ∀ i table, tables[i]? = some table →
      ∃ d p, k.docket.Output i d ∧ (k.docket.stored i d).head? = some (p, table) := by
  obtain ⟨hcount, hat⟩ := results_eq_ok_iff.mp hresults
  refine ⟨hcount, fun i table htable => ?_⟩
  obtain ⟨hlt, _⟩ := List.getElem?_eq_some_iff.mp htable
  have hlt' : i < k.txn.round.order.length := by omega
  have hd := List.getElem?_eq_getElem hlt'
  obtain ⟨p, rest, hrows, _⟩ := resultAt_ok_iff.mp (hat i _ table hd htable)
  have hout := hdiagonal i _ hd
  obtain ⟨_, _, _, _, hrows', hhead⟩ := h.results_of_output hnone hserved hout
  rw [hrows] at hrows'
  cases hrows'
  exact ⟨_, p, hout, hhead⟩

/-- Once the round has started and no result is outstanding, no fragment owes one. -/
theorem Logged.awaited_eq_nil {log : List Filing} (h : Logged log k) (hstarted : ¬ k.Collecting)
    (hall : ∀ x, ¬ k.docket.Expects x) : k.txn.round.awaited = [] := by
  rw [List.eq_nil_iff_forall_not_mem]
  intro a ha
  have hcount := h.delivered_add_awaited hstarted a.partition a.dependency
  have hone : 0 < k.txn.round.awaited.countP (Awaited.isUnder a.partition a.dependency) :=
    List.countP_pos_iff.mpr ⟨a, ha, Awaited.isUnder_iff.mpr ⟨rfl, rfl⟩⟩
  refine hall ⟨a.partition, a.dependency, default⟩ ?_
  show k.docket.delivered.countP (Delivery.isUnder a.partition a.dependency)
    < k.docket.owed.countP (Awaited.isUnder a.partition a.dependency)
  omega

/-! ### From the beginning of a round to its results -/

/-- The order of outputs once the round has started. It is as long as the batch and has outputs
only; whether each statement finds an output of its own at its position is the question that the
last part answers. -/
theorem order_of_startRound {t t₁ : Transaction} {s : Docket} (hregisters : t.round.Registers s.tasks)
    (hstart : t.startRound t.admission.base = .ok t₁) :
    t₁.round.order.length = t.round.batchSize
      ∧ (∀ d ∈ t₁.round.order, ∀ task ∈ s.tasks, ∀ j, ¬ task.Consumes j d)
      ∧ (s.OneEach t.round.batchSize ↔ ∀ i d, t₁.round.order[i]? = some d → s.Output i d) := by
  obtain ⟨_, ⟨hbase, _⟩ | ⟨_, r, hr, rfl⟩⟩ := startRound_ok hstart
  · exact absurd rfl hbase
  obtain ⟨m, hfold, _, _, hlength, rfl⟩ := Round.start_ok hr
  have horder : m.order = t.round.outputs := (Round.foldlM_accept_settles hfold).order
  show m.order.length = _ ∧ (∀ d ∈ m.order, _) ∧ (_ ↔ ∀ i d, m.order[i]? = some d → _)
  rw [horder]
  refine ⟨hlength, fun d hd => ?_, ?_⟩
  · rw [Round.outputs_eq] at hd
    obtain ⟨⟨i, _⟩, hi, rfl⟩ := List.mem_map.mp hd
    exact (hregisters.mem_ordered.mp hi).2.2
  -- There are as many outputs as statements, so one each is the same as each at its own position.
  · have hdiagonal := Round.diagonal_iff hregisters.distinct hlength
    simp only [hregisters.mem_ordered] at hdiagonal
    have hone : s.OneEach t.round.batchSize ↔ ∀ i < t.round.batchSize, ∃ d,
        (i < t.round.batchSize ∧ s.Output i d)
          ∧ ∀ d', i < t.round.batchSize ∧ s.Output i d' → d' = d := by
      refine forall₂_congr fun i hi => exists_congr fun d => ?_
      simp only [hi, true_and]
    rw [hone, hdiagonal]
    refine forall₃_congr fun i d hd => ?_
    obtain ⟨hlt, _⟩ := List.getElem?_eq_some_iff.mp hd
    simp only [hlength ▸ hlt, true_and]

/-- A round in which tasks are added in any way, started at the base partition, and followed to a
moment when no result is outstanding and inputs have been taken for its own tasks only:

- the order of outputs has one entry per statement of the batch;
- every statement has exactly one output if and only if the entry at each position is the output of
  the statement at this position, and its only one;
- the results can be read if and only if every statement has exactly one output. There is one
  table per statement then, which is the first result that came for the output of this statement.

Outputs that are as many as the statements without being spread over them one by one start a
round that has no results. -/
theorem results_iff_one_each {t₀ t t₁ t₂ : Transaction} {s s₂ : Docket} (hbegun : t₀.round = .empty)
    (hrun : Run (fun _ _ => True) ⟨t₀, .empty⟩ ⟨t, s⟩)
    (hstart : t.startRound t.admission.base = .ok t₁)
    (hrest : Run (fun _ _ => True) ⟨t₁, s.gain t.round t₁.round⟩ ⟨t₂, s₂⟩)
    (hall : ∀ x, ¬ s₂.Expects x) (hserved : ∀ task ∈ s₂.served, task ∈ s.tasks) :
    t₁.round.order.length = t.round.batchSize
      ∧ (s.OneEach t.round.batchSize ↔ ∀ i d, t₁.round.order[i]? = some d →
          s.Output i d ∧ ∀ d', s.Output i d' → d' = d)
      ∧ ((∃ tables, t₂.results = .ok tables) ↔ s.OneEach t.round.batchSize)
      ∧ ∀ tables, t₂.results = .ok tables → tables.length = t.round.batchSize
        ∧ ∀ i table, tables[i]? = some table →
          ∃ d p, s.Output i d ∧ (s₂.stored i d).head? = some (p, table) := by
  -- The whole round is one run, so that its invariants hold at the end.
  have hstep : Step (fun _ _ => True) ⟨t, s⟩ ⟨t₁, s.gain t.round t₁.round⟩ :=
    .run (.startRound t.admission.base) rfl trivial hstart
  have hwhole := (hrun.tail hstep).trans hrest
  have hsound : Sound ⟨t₂, s₂⟩ := (sound_begin hbegun).run hwhole
  obtain ⟨log, hlogged⟩ := logged_of_run (logged_begin hbegun) hwhole
  -- The books before the start say what the order is, and it stays the order to the end.
  have hregisters : t.round.Registers s.tasks := by
    refine registers_of_run (fun _ => ?_) hrun (startRound_ok hstart).1
    rw [hbegun]
    exact Round.registers_empty
  have hstarted : ¬ Collecting ⟨t₁, s.gain t.round t₁.round⟩ := by
    obtain ⟨hphase, ⟨hbase, _⟩ | ⟨_, r, _, rfl⟩⟩ := startRound_ok hstart
    · exact absurd rfl hbase
    · exact not_collecting_of_started (phase_setPhase_self hphase .started)
  obtain ⟨hstarted₂, htasks, horder⟩ := fixed_of_run hstarted hrest
  have htasks : s₂.tasks = s.tasks := htasks
  have horder : t₂.round.order = t₁.round.order := horder
  have hnone : t₂.round.awaited = [] := hlogged.awaited_eq_nil hstarted₂ hall
  have hserved₂ : ∀ task ∈ s₂.served, task ∈ s₂.tasks := fun task htask =>
    htasks ▸ hserved task htask
  obtain ⟨hlength, hfree, hone⟩ := order_of_startRound hregisters hstart
  have hread := hsound.results_ok_iff hnone hserved₂ (by
    show ∀ d ∈ t₂.round.order, ∀ task ∈ s₂.tasks, _
    rw [horder, htasks]
    exact hfree)
  simp only [horder, Docket.output_congr htasks, ← hone] at hread
  have honly : s.OneEach t.round.batchSize ↔ ∀ i d, t₁.round.order[i]? = some d →
      s.Output i d ∧ ∀ d', s.Output i d' → d' = d := by
    rw [← hlength] at hone ⊢
    exact Docket.OneEach.iff_only hone
  refine ⟨hlength, honly, hread, fun tables hresults => ?_⟩
  have hdiagonal := hone.mp (hread.mp ⟨tables, hresults⟩)
  have hfirst := hsound.results_are_first hnone hserved₂ (fun i d hd =>
    (Docket.output_congr htasks).mpr (hdiagonal i d (horder ▸ hd))) hresults
  simp only [horder, hlength, Docket.output_congr htasks] at hfirst
  exact hfirst

/-- A statement with one table for a reader, and one that is its result. -/
theorem results_iff_one_each_one_reader :
    ∃ t₁ t₀ t u t₂ s s₂, Transaction.start soloAdmission 0 = .ok t₁ ∧ t₁.initRound 0 1 = .ok t₀
      ∧ Run (fun _ _ => True) ⟨t₀, .empty⟩ ⟨t, s⟩ ∧ t.startRound 0 = .ok u
      ∧ Run (fun _ _ => True) ⟨u, s.gain t.round u.round⟩ ⟨t₂, s₂⟩
      ∧ s.tasks = [tableMaker, tableReader 2] ∧ s₂.served = [tableReader 2]
      ∧ u.round.order = [10] ∧ t₂.results = .ok [⟨["m"], []⟩] ∧ s.OneEach 1 := by
  obtain ⟨t₁, t₀, t, u, t₂, s, s₂, hstart, hinit, hbegun, hrun, hstarted, hrest, htasks, hserved,
      hbase, horder, hsize, hdelivered, hresults⟩ :
      ∃ t₁ t₀ t u t₂ s s₂, Transaction.start soloAdmission 0 = .ok t₁
        ∧ t₁.initRound 0 1 = .ok t₀ ∧ t₀.round = .empty
        ∧ Run (fun _ _ => True) ⟨t₀, .empty⟩ ⟨t, s⟩ ∧ t.startRound 0 = .ok u
        ∧ Run (fun _ _ => True) ⟨u, s.gain t.round u.round⟩ ⟨t₂, s₂⟩
        ∧ s.tasks = [tableMaker, tableReader 2] ∧ s₂.served = [tableReader 2]
        ∧ t.admission.base = 0 ∧ u.round.order = [10] ∧ t.round.batchSize = 1
        ∧ (s₂.owed = [⟨0, 9, 0⟩, ⟨0, 10, 0⟩]
          ∧ s₂.delivered = [⟨0, 9, ⟨["n"], []⟩⟩, ⟨0, 10, ⟨["m"], []⟩⟩])
        ∧ t₂.results = .ok [⟨["m"], []⟩] :=
    ⟨_, _, _, _, _, _, _, rfl, rfl, rfl,
      .tail (.tail (.tail .refl
        (.run (.setBatchSize 1) rfl trivial rfl))
        (.run (.addTask tableMaker) rfl trivial rfl))
        (.run (.addTask (tableReader 2)) rfl trivial rfl),
      rfl,
      .tail (.tail (.tail (.tail .refl
        (.run (.addResult ⟨0, 9, ⟨["n"], []⟩⟩) rfl trivial rfl))
        (.run (.addResult ⟨0, 10, ⟨["m"], []⟩⟩) rfl trivial rfl))
        (.run .takeUnblocked rfl trivial rfl))
        (.run (.takeInputs (tableReader 2)) rfl trivial rfl),
      rfl, rfl, rfl, rfl, rfl, ⟨rfl, rfl⟩, rfl⟩
  -- Two fragments owe a result each, and both results have come.
  have hall : ∀ x, ¬ s₂.Expects x := by
    intro x
    rw [Docket.Expects, hdelivered.1, hdelivered.2]
    simp [List.countP_cons, Awaited.isUnder, Delivery.isUnder]
  have hown : ∀ task ∈ s₂.served, task ∈ s.tasks := by
    rw [hserved, htasks]
    simp
  obtain ⟨_, _, hread, _⟩ :=
    results_iff_one_each hbegun hrun (by rw [hbase]; exact hstarted) hrest hall hown
  have heach := hread.mp ⟨_, hresults⟩
  rw [hsize] at heach
  exact ⟨t₁, t₀, t, u, t₂, s, s₂, hstart, hinit, hrun, hstarted, hrest, htasks, hserved, horder,
    hresults, heach⟩

/-- A task that produces two tables for the first statement. -/
def doubleTask : Task := ⟨1, 1, 0, [⟨100, 0, 0, none, some 5, []⟩, ⟨101, 0, 0, none, some 6, []⟩]⟩

/-- A batch of two statements with two outputs of the first and none of the second: the round starts
and takes both results, and there is nothing to read for the second statement. -/
theorem two_outputs_of_one_statement :
    ∃ t₁ t₀ t u t₂ s s₂, Transaction.start soloAdmission 0 = .ok t₁ ∧ t₁.initRound 0 1 = .ok t₀
      ∧ Run (fun _ _ => True) ⟨t₀, .empty⟩ ⟨t, s⟩ ∧ t.startRound 0 = .ok u
      ∧ Run (fun _ _ => True) ⟨u, s.gain t.round u.round⟩ ⟨t₂, s₂⟩
      ∧ t.round.batchSize = 2 ∧ u.round.order = [5, 6] ∧ s.tasks = [doubleTask]
      ∧ s.Output 0 6 ∧ ¬ s.Output 1 6
      ∧ t₂.hasFailed = false ∧ t₂.round.awaited = []
      ∧ t₂.results = .error (t₂.fault (.missingOutput 6 1)) := by
  obtain ⟨t₁, t₀, t, u, t₂, s, s₂, hstart, hinit, hrun, hstarted, hrest, hsize, horder, htasks,
      hfailed, hawaited, hresults⟩ :
      ∃ t₁ t₀ t u t₂ s s₂, Transaction.start soloAdmission 0 = .ok t₁
        ∧ t₁.initRound 0 1 = .ok t₀
        ∧ Run (fun _ _ => True) ⟨t₀, .empty⟩ ⟨t, s⟩ ∧ t.startRound 0 = .ok u
        ∧ Run (fun _ _ => True) ⟨u, s.gain t.round u.round⟩ ⟨t₂, s₂⟩
        ∧ t.round.batchSize = 2 ∧ u.round.order = [5, 6] ∧ s.tasks = [doubleTask]
        ∧ t₂.hasFailed = false ∧ t₂.round.awaited = []
        ∧ t₂.results = .error (t₂.fault (.missingOutput 6 1)) :=
    ⟨_, _, _, _, _, _, _, rfl, rfl,
      .tail (.tail .refl
        (.run (.setBatchSize 2) rfl trivial rfl))
        (.run (.addTask doubleTask) rfl trivial rfl),
      rfl,
      .tail (.tail .refl
        (.run (.addResult ⟨0, 5, ⟨["n"], []⟩⟩) rfl trivial rfl))
        (.run (.addResult ⟨0, 6, ⟨["m"], []⟩⟩) rfl trivial rfl),
      rfl, rfl, rfl, rfl, rfl, rfl⟩
  refine ⟨t₁, t₀, t, u, t₂, s, s₂, hstart, hinit, hrun, hstarted, hrest, hsize, horder, htasks,
    ?_, ?_, hfailed, hawaited, hresults⟩
  -- Dependency 6 is an output of the first statement, and not of the second.
  · simp [Docket.Output, htasks, doubleTask, Task.Produces, Task.Consumes]
  · simp [Docket.Output, htasks, doubleTask, Task.Produces]

end Course

end TxnPath
