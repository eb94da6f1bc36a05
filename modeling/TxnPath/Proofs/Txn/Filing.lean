import TxnPath.Proofs.Txn.Course

/-!
# `TxnPath.Proofs.Txn.Filing`: results go to statements in the order of registration

Several statements of a batch may register fragments under one partition and dependency. A
round then takes the results that come under these two one after the other, whether they come
before it starts or afterwards, and gives them to the statements in the order in which the
fragments were registered.

`Course.Logged` is the invariant beside `Course.Sound`: a log of results, each with the
statement that it was given to, accounts for what was delivered and is not queued, for what
the records have gained, and for the fragments that owe no result any more. Every operation
extends the log and keeps it (`Logged.step`, `logged_of_run`).

`results_filed_in_order` reads the result off, and says what becomes of a result for which
no fragment is left.
-/

set_option autoImplicit false

namespace TxnPath

open Transaction

/-- More fragments are registered under the partition and the dependency of a result than
results have come under them. -/
def Docket.Expects (s : Docket) (x : Delivery) : Prop :=
  s.delivered.countP (Delivery.isUnder x.partition x.dependency)
    < s.owed.countP (Awaited.isUnder x.partition x.dependency)

namespace Course

variable {rule : Docket → Operation → Prop} {k m : Course} {log : List Filing}

/-- The results in the log have been filed, and those that are queued have not:

* together they are the results delivered;
* under each partition and dependency, the statements of the log are followed by those that
  still wait, and together they are those registered;
* a record has gained the results that the log gives to its statement. -/
structure Logged (log : List Filing) (k : Course) : Prop where
  delivered : log.map Filing.result ++ k.txn.round.queued = k.docket.delivered
  started : ¬ k.Collecting → k.txn.round.queued = []
  statements : ∀ p d, (log.filter (Filing.isUnder p d)).map Filing.statement
      ++ (k.txn.round.awaited.filter (Awaited.isUnder p d)).map Awaited.statement
    = (k.docket.owed.filter (Awaited.isUnder p d)).map Awaited.statement
  stored : ∀ i d, k.docket.stored i d = (log.filter (Filing.isFor i d)).map Filing.row

/-- Nothing has been delivered yet. -/
theorem logged_begin {t : Transaction} (h : t.round = .empty) : Logged [] ⟨t, .empty⟩ where
  delivered := by rw [h]; rfl
  started := fun _ => by rw [h]; rfl
  statements := fun p d => by rw [h]; rfl
  stored := fun _ _ => rfl

namespace Logged

variable {t t' : Transaction} {s : Docket}

/-- The queue of results stays empty once the round does not collect tasks. -/
theorem queued_eq_nil (h : Logged log k) (hproceeds : Proceeds k m)
    (hqueued : m.txn.round.queued = k.txn.round.queued) (hstarted : ¬ m.Collecting) :
    m.txn.round.queued = [] := by
  by_cases hcollecting : k.Collecting
  · exact (hproceeds.queue_empty hcollecting).resolve_left hstarted
  · exact hqueued.trans (h.started hcollecting)

/-- Nothing is delivered, and the queues stay. So it is for an operation that hands out tasks or
takes inputs. -/
theorem same {handed served : List Task} (h : Logged log ⟨t, s⟩)
    (hawaited : t'.round.awaited = t.round.awaited) (hqueued : t'.round.queued = t.round.queued)
    (hproceeds : Proceeds ⟨t, s⟩ ⟨t', { s with handed := handed, served := served }⟩) :
    Logged log ⟨t', { s with handed := handed, served := served }⟩ where
  delivered := by
    show _ ++ t'.round.queued = s.delivered
    rw [hqueued]
    exact h.delivered
  started := h.queued_eq_nil hproceeds hqueued
  statements := fun p d => by
    show _ ++ (t'.round.awaited.filter _).map _ = (s.owed.filter _).map _
    rw [hawaited]
    exact h.statements p d
  stored := h.stored

/-- A task is added: what it owes is awaited last, as it is registered last. -/
theorem added {task : Task} {isBlocked : Bool} (h : Logged log ⟨t, s⟩)
    (hround : t.round.addTask task = .ok (t'.round, isBlocked))
    (hproceeds : Proceeds ⟨t, s⟩ ⟨t', { s with tasks := s.tasks ++ [task] }⟩) :
    Logged log ⟨t', { s with tasks := s.tasks ++ [task] }⟩ := by
  obtain ⟨hbooks, _, _⟩ := Round.addTask_ok hround
  have hawaited : t'.round.awaited = t.round.awaited ++ task.owed := by rw [hbooks]
  have hqueued : t'.round.queued = t.round.queued := by rw [hbooks]
  refine ⟨?_, h.queued_eq_nil hproceeds hqueued, fun p d => ?_, h.stored⟩
  · show _ ++ t'.round.queued = s.delivered
    rw [hqueued]
    exact h.delivered
  · rw [Docket.owed_addTask, List.filter_append, List.map_append, ← h.statements p d]
    show _ ++ (t'.round.awaited.filter _).map _ = _
    rw [hawaited, List.filter_append, List.map_append, List.append_assoc]

/-- A result is queued before the round starts. It counts as delivered, and is filed when the round
starts. -/
theorem queued {x : Delivery} (h : Logged log ⟨t, s⟩) (hcollecting : Collecting ⟨t, s⟩)
    (hround : t'.round = { t.round with queued := t.round.queued ++ [x] })
    (hproceeds : Proceeds ⟨t, s⟩ ⟨t', { s with delivered := s.delivered ++ [x] }⟩) :
    Logged log ⟨t', { s with delivered := s.delivered ++ [x] }⟩ where
  delivered := by
    show log.map Filing.result ++ t'.round.queued = s.delivered ++ [x]
    rw [hround, ← List.append_assoc]
    exact congrArg (· ++ [x]) h.delivered
  started := (hproceeds.queue_empty hcollecting).resolve_left
  statements := fun p d => by
    show _ ++ (t'.round.awaited.filter _).map _ = (s.owed.filter _).map _
    rw [hround]
    exact h.statements p d
  stored := h.stored

/-- Results are filed, behind those filed before. These are the queued ones if the round starts, and
the one that has come otherwise. -/
theorem filed {more : List Filing} {xs : List Delivery} (h : Logged log ⟨t, s⟩)
    (hfiles : t.round.Files more t'.round) (hqueued : t'.round.queued = [])
    (hresults : more.map Filing.result = t.round.queued ++ xs) :
    Logged (log ++ more)
      ⟨t', { s.gain t.round t'.round with delivered := s.delivered ++ xs }⟩ where
  delivered := by
    show (log ++ more).map Filing.result ++ t'.round.queued = s.delivered ++ xs
    -- What was queued and what comes are logged behind what was logged before.
    rw [hqueued, List.append_nil, List.map_append, hresults, ← List.append_assoc]
    exact congrArg (· ++ xs) h.delivered
  started := fun _ => hqueued
  statements := fun p d => by
    show _ = (s.owed.filter _).map _
    have hbefore : _ ++ (t.round.awaited.filter _).map _ = (s.owed.filter _).map _ :=
      h.statements p d
    rw [← hbefore, hfiles.statements, List.filter_append, List.map_append, List.append_assoc]
  stored := fun i d => by
    rw [List.filter_append, List.map_append, ← h.stored i d]
    exact Docket.stored_gain hfiles i d

/-- Every operation keeps the invariant, with a log that goes on. Two kinds of turns make it longer:
a result that is accepted, by one entry, and the start of the round, by the whole queue. -/
theorem step (h : Logged log k) (hstep : Step rule k m) :
    ∃ more, Logged (log ++ more) m := by
  obtain ⟨hturn, hproceeds⟩ := hstep.turn
  -- The other turns leave the log as it is.
  have still : Logged log m → ∃ more, Logged (log ++ more) m :=
    fun hm => ⟨[], (List.append_nil log).symm ▸ hm⟩
  cases hturn with
  | idle hbooks hqueued => exact still (h.same hbooks.awaited hqueued hproceeds)
  | added _ hround => exact still (h.added hround hproceeds)
  | queued hcollecting hround => exact still (h.queued hcollecting hround hproceeds)
  | @accepted t t' s x hstarted hround =>
    -- Nothing is queued any more, so that the log goes on with the result itself.
    obtain ⟨i, _, hfiles⟩ := Round.accept_files hround
    have hempty : t.round.queued = [] := h.started hstarted
    refine ⟨[⟨i, x⟩], h.filed hfiles ?_ ?_⟩
    · rw [(Round.accept_settles hround).queued]
      exact hempty
    · rw [hempty]
      rfl
  | @started t t' s m latch _ hfold hround _ =>
    -- The log goes on with the queue.
    obtain ⟨more, hresults, hfiles⟩ := Round.foldlM_accept_files hfold
    have hqueued : t'.round.queued = [] := by
      rw [hround]
      exact (Round.foldlM_accept_settles hfold).queued
    refine ⟨more, ?_⟩
    have hm := h.filed (hfiles.congr rfl rfl (by rw [hround]) (by rw [hround])) hqueued
      (hresults.trans (List.append_nil _).symm)
    rw [List.append_nil] at hm
    exact hm
  | handed hround =>
    refine still (h.same ?_ ?_ hproceeds) <;> rw [hround]
  | served _ hround =>
    have hbooks := (Round.takeInputs_ok hround).1
    refine still (h.same ?_ ?_ hproceeds) <;> rw [hbooks]

end Logged

/-- So every run extends the log and keeps it. -/
theorem logged_of_run (h : Logged log k) (hrun : Run rule k m) :
    ∃ more, Logged (log ++ more) m := by
  induction hrun with
  | refl => exact ⟨[], (List.append_nil log).symm ▸ h⟩
  | tail _ hstep ih =>
    obtain ⟨more, hmore⟩ := ih
    obtain ⟨rest, hrest⟩ := hmore.step hstep
    exact ⟨more ++ rest, List.append_assoc log more rest ▸ hrest⟩

/-! ### Results for which no fragment is left -/

namespace Logged

variable {t t' : Transaction} {s : Docket} {x : Delivery}

/-- Once the round has started, a fragment waits for every result that has not come. Before the
start results may be delivered that are still queued, so that the two do not add up then. -/
theorem delivered_add_awaited (h : Logged log k) (hstarted : ¬ k.Collecting) (p : Nat)
    (d : DependencyId) :
    k.docket.delivered.countP (Delivery.isUnder p d)
        + k.txn.round.awaited.countP (Awaited.isUnder p d)
      = k.docket.owed.countP (Awaited.isUnder p d) := by
  have hfiled : k.docket.delivered.countP (Delivery.isUnder p d)
      = log.countP (Filing.isUnder p d) := by
    rw [← h.delivered, h.started hstarted, List.append_nil, List.countP_map]
    rfl
  -- Filed or awaited: of the registered fragments each is one of the two.
  have hlength := congrArg List.length (h.statements p d)
  rw [List.length_append, List.length_map, List.length_map, List.length_map,
    ← List.countP_eq_length_filter, ← List.countP_eq_length_filter,
    ← List.countP_eq_length_filter] at hlength
  rw [hfiled, hlength]

/-- Once the round has started, a result is expected if some fragment waits for it. -/
theorem expects_iff (h : Logged log ⟨t, s⟩) (hstarted : ¬ Collecting ⟨t, s⟩) :
    s.Expects x ↔ 0 < t.round.awaited.countP (Awaited.isUnder x.partition x.dependency) := by
  have hcount : s.delivered.countP (Delivery.isUnder x.partition x.dependency)
        + t.round.awaited.countP (Awaited.isUnder x.partition x.dependency)
      = s.owed.countP (Awaited.isUnder x.partition x.dependency) :=
    h.delivered_add_awaited hstarted x.partition x.dependency
  unfold Docket.Expects
  omega

/-- A round under way takes a result in if and only if it expects one, and stops otherwise. What it
expects is told by counting results and fragments under the key. -/
theorem addResult_of_accepting (h : Logged log ⟨t, s⟩) (hsound : Sound ⟨t, s⟩)
    (haccepting : t.Accepting) :
    (s.Expects x → ∃ t', t.addResult x = .ok t')
      ∧ (¬ s.Expects x →
        t.addResult x = .error (t.fault (.unexpectedResult x.partition x.dependency))) := by
  have hstarted : ¬ Collecting ⟨t, s⟩ := not_collecting_of_started haccepting.started
  have hopen : (t.isFinished || t.hasFailed) = false := by
    rw [haccepting.unfinished, haccepting.unfailed]
    rfl
  -- The transaction accepts, so a result goes straight to the round. Whether it can be taken in
  -- depends on whether a fragment is left that owes one like it.
  have hrun : t.addResult x = (t.round.accept t.admission.txn x).map t.setRound := by
    rw [Transaction.addResult, haccepting.started]
    simp only [hopen]
    rfl
  rw [hrun, h.expects_iff hstarted, Nat.pos_iff_ne_zero, not_ne_iff]
  constructor
  · intro hawaited
    obtain ⟨r, hr⟩ := Round.accept_of_awaited hsound.owed (Nat.pos_of_ne_zero hawaited)
    exact ⟨t.setRound r, by rw [hr]; rfl⟩
  · intro hnone
    rw [Round.accept_unexpected hnone]
    rfl

/-- A result that is not expected changes no record. -/
theorem results_of_unexpected (h : Logged log ⟨t, s⟩) (hfull : ¬ s.Expects x)
    (hok : t.addResult x = .ok t') (i : Nat) (d : DependencyId) :
    (t'.round.entry i d).results = (t.round.entry i d).results := by
  rcases addResult_ok hok with ⟨_, rfl⟩ | ⟨_, ⟨_, r, hr, rfl⟩ | ⟨hphase, r, hr, rfl⟩⟩
  · rfl
  · rw [Round.enqueue_ok hr]
    rfl
  · have hstarted : ¬ Collecting ⟨t, s⟩ := not_collecting_of_started hphase
    rw [h.expects_iff hstarted, Nat.pos_iff_ne_zero, not_ne_iff] at hfull
    rw [Round.accept_unexpected hfull] at hr
    cases hr

/-- A round does not start with more results than fragments under some partition and
dependency. -/
theorem startRound_of_surplus (h : Logged log ⟨t, s⟩) {p : Nat} {d : DependencyId}
    (hsurplus : s.owed.countP (Awaited.isUnder p d) < s.delivered.countP (Delivery.isUnder p d)) :
    ∀ t', t.startRound t.admission.base ≠ .ok t' := by
  intro t' hok
  have hstep : Step (fun _ _ => True) ⟨t, s⟩ ⟨t', s.gain t.round t'.round⟩ :=
    .run (.startRound t.admission.base) rfl trivial hok
  obtain ⟨more, hlogged⟩ := h.step hstep
  have hstarted : ¬ Collecting ⟨t', s.gain t.round t'.round⟩ := by
    obtain ⟨hphase, ⟨hbase, _⟩ | ⟨_, r, _, rfl⟩⟩ := startRound_ok hok
    · exact absurd rfl hbase
    · exact not_collecting_of_started (phase_setPhase_self hphase .started)
  have hcount : s.delivered.countP _ + _ = s.owed.countP _ :=
    hlogged.delivered_add_awaited hstarted p d
  omega

end Logged

/-! ### The order of results -/

/-- In the course of every round, whatever is done in it, there is a log of results, each
with the statement that it was given to, such that:

- it lists the results delivered, in order, up to those that are queued, and none is queued
  once the round has started;
- under each partition and dependency, its first results are given to the statements of the
  first fragments registered under these two, one each, in order;
- what a record has gained is what the log gives to its statement, in order; the record holds
  the end of it, and all of it as long as no task has drawn on it.

A result under a partition and dependency under which as many results have come as fragments
are registered changes no record. Once the round has started it is refused, and one that is
expected is taken in; a round in which there are more results than fragments does not
start. -/
theorem results_filed_in_order {t₀ t : Transaction} {s : Docket} (hbegun : t₀.round = .empty)
    (hrun : Run rule ⟨t₀, .empty⟩ ⟨t, s⟩) :
    (∃ log : List Filing,
      log.map Filing.result ++ t.round.queued = s.delivered
      ∧ (¬ Collecting ⟨t, s⟩ → t.round.queued = [])
      ∧ (∀ p d, (log.filter (Filing.isUnder p d)).map Filing.statement
          <+: (s.owed.filter (Awaited.isUnder p d)).map Awaited.statement)
      ∧ ∀ i d, s.stored i d = (log.filter (Filing.isFor i d)).map Filing.row
          ∧ (t.round.entry i d).results <:+ s.stored i d
          ∧ (¬ s.Spent i d → (t.round.entry i d).results = s.stored i d))
      ∧ (∀ x, ¬ s.Expects x → ∀ t', t.addResult x = .ok t' →
          ∀ i d, (t'.round.entry i d).results = (t.round.entry i d).results)
      ∧ (t.Accepting → ∀ x, (s.Expects x → ∃ t', t.addResult x = .ok t')
          ∧ (¬ s.Expects x →
            t.addResult x = .error (t.fault (.unexpectedResult x.partition x.dependency))))
      ∧ ∀ p d, s.owed.countP (Awaited.isUnder p d) < s.delivered.countP (Delivery.isUnder p d) →
          ∀ t', t.startRound t.admission.base ≠ .ok t' := by
  have hsound : Sound ⟨t, s⟩ := (sound_begin hbegun).run hrun
  -- All of it is read off the invariant and the log that the course has led to.
  obtain ⟨log, hlogged⟩ := logged_of_run (logged_begin hbegun) hrun
  refine ⟨⟨_, hlogged.delivered, hlogged.started, fun p d => ?_, fun i d =>
      ⟨hlogged.stored i d, hsound.holds i d, hsound.unspent i d⟩⟩,
    fun x hfull t' hok => hlogged.results_of_unexpected hfull hok,
    fun haccepting x => hlogged.addResult_of_accepting hsound haccepting,
    fun p d hsurplus => hlogged.startRound_of_surplus hsurplus⟩
  exact ⟨_, hlogged.statements p d⟩

/-- Two statements register a fragment under one partition and dependency. The first result comes
before the round starts and the second one afterwards. A third one is refused. -/
theorem results_filed_in_order_twin :
    ∃ t₁ t₀ t s, Transaction.start soloAdmission 0 = .ok t₁ ∧ t₁.initRound 0 1 = .ok t₀
      ∧ Run (fun _ _ => True) ⟨t₀, .empty⟩ ⟨t, s⟩
      ∧ s.delivered = [⟨0, 5, ⟨["first"], []⟩⟩, ⟨0, 5, ⟨["second"], []⟩⟩]
      ∧ s.stored 0 5 = [(0, ⟨["first"], []⟩)] ∧ s.stored 1 5 = [(0, ⟨["second"], []⟩)]
      ∧ (∃ log : List Filing, log.map Filing.result ++ t.round.queued = s.delivered
        ∧ ∀ p d, (log.filter (Filing.isUnder p d)).map Filing.statement
          <+: (s.owed.filter (Awaited.isUnder p d)).map Awaited.statement)
      ∧ t.addResult ⟨0, 5, ⟨["third"], []⟩⟩ = .error (t.fault (.unexpectedResult 0 5)) := by
  obtain ⟨t₁, t₀, t, s, hstart, hinit, hbegun, hrun, hdelivered, hfirst, hsecond, haccepting,
      hfull⟩ : ∃ t₁ t₀ t s, Transaction.start soloAdmission 0 = .ok t₁
        ∧ t₁.initRound 0 1 = .ok t₀ ∧ t₀.round = .empty
        ∧ Run (fun _ _ => True) ⟨t₀, .empty⟩ ⟨t, s⟩
        ∧ s.delivered = [⟨0, 5, ⟨["first"], []⟩⟩, ⟨0, 5, ⟨["second"], []⟩⟩]
        ∧ s.stored 0 5 = [(0, ⟨["first"], []⟩)] ∧ s.stored 1 5 = [(0, ⟨["second"], []⟩)]
        ∧ t.Accepting ∧ ¬ s.Expects ⟨0, 5, ⟨["third"], []⟩⟩ :=
    ⟨_, _, _, _, rfl, rfl, rfl,
      .tail (.tail (.tail (.tail (.tail .refl
        (.run (.setBatchSize 2) rfl trivial rfl))
        (.run (.addTask (pairTask 5 5)) rfl trivial rfl))
        (.run (.addResult ⟨0, 5, ⟨["first"], []⟩⟩) rfl trivial rfl))
        (.run (.startRound 0) rfl trivial rfl))
        (.run (.addResult ⟨0, 5, ⟨["second"], []⟩⟩) rfl trivial rfl),
      rfl, rfl, rfl, ⟨rfl, rfl, rfl⟩, Nat.lt_irrefl 2⟩
  -- The first result came early and went to statement 0, the second late to statement 1; nobody is
  -- left who owes a third.
  obtain ⟨⟨log, hlog, _, horder, _⟩, _, hopen, _⟩ := results_filed_in_order hbegun hrun
  exact ⟨t₁, t₀, t, s, hstart, hinit, hrun, hdelivered, hfirst, hsecond, ⟨log, hlog, horder⟩,
    (hopen haccepting _).2 hfull⟩

end Course

end TxnPath
