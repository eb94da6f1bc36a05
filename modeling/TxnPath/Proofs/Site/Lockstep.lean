import Mathlib.Logic.Relation
import TxnPath.Proofs.Site.Endings

/-!
# `TxnPath.Proofs.Site.Lockstep`: between two batches every round is over

A batch takes the rounds of the partitions that take part through four phases, the base
partition somewhere among them. `phase_atEach` says for all of these passes what they do to
the phases: they move those of the partitions passed, and no others.

`AtRest` is what a batch leaves behind unless it records an error: no round is under way at
any hosted partition, nothing is queued and no latch is armed. `Between.execute` is the
step from one batch to the next, `rounds_in_lockstep` the run. What it is for is
`initEach_total`: at rest, a round can begin at any hosted partitions, in any order.
-/

set_option autoImplicit false

namespace TxnPath.Site

open Transaction

variable {R : Type} {s s' : Site R} {t t' t₁ : Transaction} {token : Nat} {ps : List Nat}
  {tasks : List Task} {sent : Except TxnError Unit}

/-- No round is under way at a hosted partition, nothing is queued, and no latch is armed. A batch
that records no error leaves it behind. -/
structure AtRest (t : Transaction) : Prop where
  idle : ∀ p, t.isLocal p = true → ∃ phase, t.phase p = .ok phase ∧ phase.isIdle = true
  queued : t.round.queued = []
  unarmed : t.round.latch = none

/-! ### Passes over partitions -/

/-- A pass moves the partitions that it comes to into one phase, and no others. Beginning, starting
and ending a round are such passes, with three different steps. -/
theorem phase_atEach {step : Transaction → Nat → Except Fault Transaction} {new : Phase}
    (hstep : ∀ {t p t'}, step t p = .ok t' →
      ∀ q, t'.phase q = if q = p then .ok new else t.phase q)
    (h : atEach step t ps = .ok t') (q : Nat) :
    t'.phase q = if q ∈ ps then .ok new else t.phase q := by
  induction ps generalizing t with
  | nil => cases h; rfl
  | cons p rest ih =>
    obtain ⟨m, hm, hrest⟩ := Outcome.foldlM_cons_ok h
    rw [ih hrest, hstep hm]
    by_cases hlater : q ∈ rest
    · rw [if_pos hlater, if_pos (List.mem_cons_of_mem _ hlater)]
    · rw [if_neg hlater]
      by_cases hp : q = p
      · rw [if_pos hp, if_pos (hp ▸ List.mem_cons_self)]
      · rw [if_neg hp, if_neg fun hq => (List.mem_cons.mp hq).elim hp hlater]

/-- Beginning a round moves the phase of its partition only. -/
theorem phase_initRound {p : Nat} (h : t.initRound p token = .ok t') (q : Nat) :
    t'.phase q = if q = p then .ok .initialized else t.phase q := by
  obtain ⟨_, hp, _, _, ⟨_, rfl⟩ | ⟨_, rfl⟩⟩ := initRound_ok h
  · exact phase_setPhase hp .initialized q
  · exact phase_setPhase (t := t.setRound .empty) hp .initialized q

/-- So does starting it. -/
theorem phase_startRound {p : Nat} (h : t.startRound p = .ok t') (q : Nat) :
    t'.phase q = if q = p then .ok .started else t.phase q := by
  obtain ⟨hp, ⟨_, rfl⟩ | ⟨_, _, _, rfl⟩⟩ := startRound_ok h
  · exact phase_setPhase hp .started q
  · exact phase_setPhase hp .started q

/-- So does finishing it. -/
theorem phase_finishRound {p : Nat} (h : t.finishRound p = .ok t') (q : Nat) :
    t'.phase q = if q = p then .ok .finished else t.phase q := by
  obtain ⟨hp, _, _, ⟨_, rfl⟩ | ⟨_, rfl⟩⟩ := finishRound_ok h
  · exact phase_setPhase hp .finished q
  · exact phase_setPhase hp .finished q

/-- Ending the rounds puts the latch away once the base partition has been passed. -/
theorem finishEach_unarmed (h : atEach finishRound t ps = .ok t')
    (hbase : t.admission.base ∈ ps ∨ t.round.latch = none) : t'.round.latch = none := by
  induction ps generalizing t with
  | nil => cases h; exact hbase.resolve_left List.not_mem_nil
  | cons p rest ih =>
    obtain ⟨m, hm, hrest⟩ := Outcome.foldlM_cons_ok h
    -- The base partition may be anywhere in the list, before or after other ones.
    obtain ⟨_, _, _, ⟨hne, rfl⟩ | ⟨_, rfl⟩⟩ := finishRound_ok hm
    · refine ih hrest (hbase.imp_left fun hmem => ?_)
      exact (List.mem_cons.mp hmem).resolve_left (Ne.symm hne)
    · exact ih hrest (.inr rfl)

/-- Finishing a round at several partitions takes in no results. -/
theorem finishEach_queued (h : atEach finishRound t ps = .ok t') :
    t'.round.queued = t.round.queued := by
  refine Outcome.foldlM_rel (fun t t' : Transaction => t'.round.queued = t.round.queued)
    (fun _ => rfl) (fun h h' => h'.trans h) (fun hstep => ?_) h
  obtain ⟨_, _, _, ⟨_, rfl⟩ | ⟨_, rfl⟩⟩ := finishRound_ok hstep <;> rfl

/-! ### Beginning a round at rest -/

/-- A round begins at a partition that is idle. -/
theorem initRound_total {p : Nat} {phase : Phase} (hphase : t.phase p = .ok phase)
    (hidle : phase.isIdle = true) (hqueued : t.round.queued = []) (token : Nat) :
    ∃ t', t.initRound p token = .ok t' ∧ t'.round.queued = [] := by
  unfold initRound
  rw [hphase, hqueued]
  simp only [List.isEmpty_nil, Bool.not_true, Bool.false_eq_true, if_false, hidle]
  refine ⟨_, rfl, ?_⟩
  split
  · rfl
  · exact hqueued

/-- At rest a round can begin at any hosted partitions, in any order. Each must be there once, as a
round that has begun cannot begin again. -/
theorem initEach_total (hqueued : t.round.queued = [])
    (hidle : ∀ p ∈ ps, ∃ phase, t.phase p = .ok phase ∧ phase.isIdle = true) (hnodup : ps.Nodup)
    (token : Nat) : ∃ t', atEach (fun t p => t.initRound p token) t ps = .ok t' := by
  induction ps generalizing t with
  | nil => exact ⟨t, rfl⟩
  | cons p rest ih =>
    obtain ⟨hp, hrest⟩ := List.nodup_cons.mp hnodup
    obtain ⟨phase, hphase, hpidle⟩ := hidle p List.mem_cons_self
    obtain ⟨m, hm, hmqueued⟩ := initRound_total hphase hpidle hqueued token
    -- The partitions still to come are other ones, so that they stay idle.
    have hlater : ∀ q ∈ rest, ∃ phase, m.phase q = .ok phase ∧ phase.isIdle = true := by
      intro q hq
      rw [phase_initRound hm, if_neg fun heq : q = p => hp (heq ▸ hq)]
      exact hidle q (List.mem_cons_of_mem _ hq)
    obtain ⟨t', ht'⟩ := ih hmqueued hlater hrest
    exact ⟨t', Outcome.foldlM_cons_iff.mpr ⟨m, hm, ht'⟩⟩

/-- The partitions that take part in a batch are listed once each. -/
theorem nodup_participants (base : Nat) (tasks : List Task) : (participants base tasks).Nodup :=
  ((PartitionSet.ofList (tasks.map Task.destination)).insert base).ascending.imp Nat.ne_of_lt

/-- A batch comes to the base partition and to those of its tasks. -/
theorem isLocal_of_mem_participants {base p : Nat} (hbase : t.isLocal base = true)
    (htasks : ∀ task ∈ tasks, t.isLocal task.destination = true)
    (hp : p ∈ participants base tasks) : t.isLocal p = true := by
  rcases PartitionSet.mem_insert.mp hp with rfl | hmem
  · exact hbase
  · obtain ⟨task, htask, rfl⟩ := List.mem_map.mp (PartitionSet.mem_ofList.mp hmem)
    exact htasks task htask

/-! ### One batch -/

/-- Registering tasks moves no phase. So a round that has begun still collects tasks. -/
theorem phase_addTasks {ready : List Task} (h : addTasks t tasks = .ok (t', ready)) (q : Nat) :
    t'.phase q = t.phase q := by
  induction tasks generalizing t ready with
  | nil => cases h; rfl
  | cons task rest ih =>
    unfold addTasks at h
    split at h
    · cases h
    · next m isBlocked hm =>
      split at h
      · cases h
      · next hothers =>
        cases h
        obtain ⟨_, _, _, _, _, rfl⟩ := addTask_ok hm
        rw [ih hothers]
        rfl

/-- An open round has started at the partitions that take part, and all others are as they
were. -/
theorem phase_openRound {ready : List Task} (h : openRound t tasks token = .ok (t', ready))
    (q : Nat) :
    t'.phase q = if q ∈ participants t.admission.base tasks then .ok .started else t.phase q := by
  obtain ⟨m, n, hinit, hadd, hstart, _⟩ := openRound_split h
  rw [phase_atEach phase_startRound hstart]
  split
  · rfl
  · next hq =>
    rw [phase_addTasks hadd]
    have hm := phase_atEach phase_initRound hinit q
    rwa [if_neg hq] at hm

/-- A round that is closed is over at the partitions that take part. A partition that does not take
part in this batch is at the phase in which the batch found it. -/
theorem atRest_closeRound {a t₂ t₃ : Transaction} {timeout : Option Nat} {ready : List Task}
    {results : List ResultTable} (hrest : AtRest a)
    (hopened : openRound a tasks token = .ok (t, ready)) (hunderway : Underway tasks t t₁ sent)
    (hwait : t₁.wait timeout = (t₂, .ready)) (hclose : closeRound t₂ tasks = .ok (t₃, results)) :
    AtRest t₃ := by
  obtain rfl := eq_of_wait_ready hwait
  have hadmission : t.admission = a.admission := (openRound_ok hopened).1.admission
  have hbase : t₁.takeError.1.admission.base = a.admission.base := by
    show t₁.admission.base = _
    rw [hunderway.admission, hadmission]
  have hfinish := (closeRound_ok hclose).2
  have hsame := sameWork_closeRound hclose
  rw [hbase] at hfinish
  refine ⟨fun p hp => ?_, (finishEach_queued hfinish).trans hunderway.queued,
    finishEach_unarmed hfinish (.inl (hbase ▸ base_mem_participants _ tasks))⟩
  rw [phase_atEach phase_finishRound hfinish]
  split
  · exact ⟨.finished, rfl, rfl⟩
  · next hother =>
    -- No pass of this batch has come to the partition.
    have hlocal : a.isLocal p = true := by
      rw [isLocal, ← hadmission, ← hunderway.admission]
      have hadmission₃ : t₃.admission = t₁.admission := hsame.admission
      rw [← hadmission₃]
      exact hp
    have hphase : t₁.takeError.1.phase p = a.phase p := by
      show t₁.phase p = _
      rw [phase_congr hunderway.phases hunderway.admission, phase_openRound hopened,
        if_neg hother]
    rw [hphase]
    exact hrest.idle p hlocal

variable [Scalar R] {a a' : Admitted R} {answer : Except TxnError (List ResultTable)}

/-- What holds between two batches: the error to report is the one that was recorded, and
without one no round is under way. -/
structure Between (t : Transaction) : Prop where
  reported : t.Reported
  rest : t.abortReason = none → AtRest t

/-- A batch leads from one rest to the next, unless it records an error. It goes by the ways in
which a batch can end, two of which come before the round is closed. -/
theorem Between.execute (h : Between a.txn) (hok : s.execute a tasks = .ok (s', a', answer)) :
    Between a'.txn := by
  refine ⟨stepsKeep_reported.execute hok h.reported, fun hopen => ?_⟩
  rcases execute_cases hok with ⟨_, rfl, _⟩ | ⟨t, ready, s₁, t₁, sent, habort, hopened, hwaves,
    hends, _⟩
  · exact h.rest hopen
  · have hunderway := underway_waves h.reported habort hopened hwaves
    generalize a'.txn = t' at hopen hends
    -- Where the batch ends before its round is closed, it has recorded an error.
    cases hends with
    | stopped e => exact nomatch hopen.symm.trans (hunderway.failed e rfl)
    | unanswered hwait =>
      exact nomatch hopen.symm.trans
        (abortReason_wait_failed hunderway.reported (hunderway.sound rfl) hwait)
    | unrecorded hwait hclose =>
      exact atRest_closeRound (h.rest habort) hopened hunderway hwait hclose
    | answered hwait hclose =>
      have hrest := atRest_closeRound (h.rest habort) hopened hunderway hwait hclose
      exact ⟨hrest.idle, hrest.queued, hrest.unarmed⟩

/-- A transaction that has just started is at rest. -/
theorem between_start {admission : Admission} {poolIdle : Nat}
    (h : Transaction.start admission poolIdle = .ok t) : Between t := by
  obtain ⟨hround, hidle, _, _⟩ := start_ok h
  refine ⟨reported_start h, fun _ => ⟨fun p hp => ?_, by rw [hround]; rfl, by rw [hround]; rfl⟩⟩
  obtain ⟨phase, hphase⟩ := (hosts_start h).phase hp
  obtain rfl := phase_of_uninitialized hidle hphase
  exact ⟨_, hphase, rfl⟩

/-! ### Any number of batches -/

/-- A site has run a batch of the transaction, whatever it answered. The site may have done
anything else since the last one. -/
def RunsBatch (a a' : Admitted R) : Prop :=
  ∃ (s s' : Site R) (tasks : List Task) (answer : Except TxnError (List ResultTable)),
    s.execute a tasks = .ok (s', a', answer)

/-- Along any number of batches the transaction is at rest between them, or has failed. -/
theorem between_of_runs {a₀ : Admitted R} (h : Between a₀.txn) (hosts : a₀.txn.Hosts)
    (hruns : Relation.ReflTransGen RunsBatch a₀ a) : Between a.txn ∧ a.txn.Hosts := by
  induction hruns with
  | refl => exact ⟨h, hosts⟩
  | tail _ hbatch ih =>
    obtain ⟨s, s', tasks, answer, hok⟩ := hbatch
    exact ⟨ih.1.execute hok, ih.2.continues (stepsKeep_continues.execute hok)⟩

/-- After any batches of a transaction that have recorded no error, whatever they answered:
the round of every hosted partition is over or has never begun, nothing is queued and no
latch is armed. The next round can begin at any hosted partitions in any order, so at those
of the next batch. -/
theorem rounds_in_lockstep {admission : Admission} {poolIdle : Nat} {t₀ : Transaction}
    {forecast : Option (Forecast R)} (hstart : Transaction.start admission poolIdle = .ok t₀)
    (hruns : Relation.ReflTransGen RunsBatch ⟨t₀, forecast⟩ a)
    (hopen : a.txn.hasFailed = false) :
    (∀ p, a.txn.isLocal p = true →
        a.txn.phase p = .ok .uninitialized ∨ a.txn.phase p = .ok .finished)
      ∧ a.txn.round.queued = [] ∧ a.txn.round.latch = none
      ∧ (∀ (ps : List Nat) (token : Nat), ps.Nodup → (∀ p ∈ ps, a.txn.isLocal p = true) →
          ∃ t', atEach (fun t p => t.initRound p token) a.txn ps = .ok t')
      ∧ ∀ (tasks : List Task) (token : Nat),
          (∀ task ∈ tasks, a.txn.isLocal task.destination = true) →
          ∃ t', atEach (fun t p => t.initRound p token) a.txn
            (participants a.txn.admission.base tasks) = .ok t' := by
  obtain ⟨hbetween, hosts⟩ := between_of_runs (between_start hstart) (hosts_start hstart) hruns
  -- Between batches an open transaction is at rest, and from there every round can begin.
  have hrest := hbetween.rest (Option.isNone_iff_eq_none.mp (by simpa [hasFailed] using hopen))
  have hbegins : ∀ (ps : List Nat) (token : Nat), ps.Nodup →
      (∀ p ∈ ps, a.txn.isLocal p = true) →
      ∃ t', atEach (fun t p => t.initRound p token) a.txn ps = .ok t' :=
    fun ps token hnodup hlocal =>
      initEach_total hrest.queued (fun p hp => hrest.idle p (hlocal p hp)) hnodup token
  refine ⟨fun p hp => ?_, hrest.queued, hrest.unarmed, hbegins, fun tasks token htasks => ?_⟩
  · obtain ⟨phase, hphase, hidle⟩ := hrest.idle p hp
    cases phase with
    | uninitialized => exact .inl hphase
    | finished => exact .inr hphase
    | initialized => cases hidle
    | started => cases hidle
  · exact hbegins _ token (nodup_participants _ tasks)
      fun p hp => isLocal_of_mem_participants hosts.base htasks hp

/-- A transaction at the second of two partitions. -/
def secondAdmission : Admission := ⟨1, 1, 0, false, 1, [0, 1], 2, .single 1⟩

/-- A task of one statement at a partition. -/
def taskAt (id : TaskId) (p : Nat) (d : DependencyId) : Task :=
  ⟨id, 1, p, [⟨100 * id, 0, 0, none, some d, []⟩]⟩

/-- A batch at the base partition alone, and one at the partition before it. -/
theorem rounds_in_lockstep_two_batches :
    ∃ (t₀ : Transaction) (a : Admitted Rat), Transaction.start secondAdmission 0 = .ok t₀
      ∧ Relation.ReflTransGen RunsBatch ⟨t₀, none⟩ a ∧ a.txn.touched.values = [0, 1]
      ∧ (a.txn.phase 0 = .ok .uninitialized ∨ a.txn.phase 0 = .ok .finished)
      ∧ ∃ t', atEach (fun t p => t.initRound p 3) a.txn [1, 0] = .ok t' := by
  obtain ⟨t₀, a, hstart, hruns, htouched, hlocal, hopen⟩ :
      ∃ (t₀ : Transaction) (a : Admitted Rat), Transaction.start secondAdmission 0 = .ok t₀
        ∧ Relation.ReflTransGen RunsBatch ⟨t₀, none⟩ a ∧ a.txn.touched.values = [0, 1]
        ∧ (∀ p ∈ [1, 0], a.txn.isLocal p = true) ∧ a.txn.hasFailed = false :=
    ⟨_, _, rfl, (Relation.ReflTransGen.single ⟨soloSite, _, [taskAt 1 1 10], _, rfl⟩).tail
      ⟨soloSite, _, [taskAt 2 0 20], _, rfl⟩, by decide, by decide, rfl⟩
  have h := rounds_in_lockstep hstart hruns hopen
  exact ⟨t₀, a, hstart, hruns, htouched, h.1 0 (hlocal 0 (by decide)),
    h.2.2.2.1 [1, 0] 3 (by decide) hlocal⟩

end TxnPath.Site
