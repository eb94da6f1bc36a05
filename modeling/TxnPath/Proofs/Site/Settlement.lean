import TxnPath.Proofs.Histogram.Dense
import TxnPath.Proofs.Site.Dispatch

/-!
# `TxnPath.Proofs.Site.Settlement`: which work is settled at the end

Every batch runs its tasks under a new undo token, and a transaction remembers the last
one only. When it finishes, the partitions that it ran fragments at are asked to make the
work under that token permanent, or to roll it back.

A `Session` is what happens to one transaction from its admission on, with all calls of
executors that were made for it. Its invariant is `Session.Accounted`: every call runs a
batch at a hosted partition that is counted as touched.

`settled_iff_last_token` reads off what finishing settles. Work under the last token is
settled exactly once and in the right way, and work under any other token never is. So
everything is settled exactly when all work carries the last token, and
`first_batch_left_behind` is a transaction of two batches where it does not.
-/

set_option autoImplicit false

namespace TxnPath

/-- A list of fragments has fewer than `2 ^ 63` members, as every list in memory does. -/
def Task.Addressable (t : Task) : Prop := t.fragments.length < wordLimit / 2

/-- The partition that a call runs a batch at, and the undo token of that batch. -/
def EngineCall.work? : EngineCall → Option (Nat × Nat)
  | .execute p b => some (p, b.undoToken)
  | _ => none

/-- The work that calls have done: partitions with undo tokens, in order. -/
def EngineCall.work (calls : List EngineCall) : List (Nat × Nat) := calls.filterMap work?

/-- The call that settles the work under a token at a partition the way a client is
told. -/
def Response.settles (r : Response) (p token : Nat) : EngineCall :=
  match r with
  | .committed .. => .release p token
  | .aborted .. => .undo p token

/-- The call that would settle the work the other way. -/
def Response.contradicts (r : Response) (p token : Nat) : EngineCall :=
  match r with
  | .committed .. => .undo p token
  | .aborted .. => .release p token

namespace Response

variable {r : Response} {p q token k : Nat}

/-- A settling call names its partition and its token. -/
theorem settles_inj : r.settles p token = r.settles q k ↔ p = q ∧ token = k := by
  cases r <;> simp [settles]

/-- Making permanent is not rolling back. -/
theorem settles_ne_contradicts : r.settles p token ≠ r.contradicts q k := by
  cases r <;> simp [settles, contradicts]

/-- Settling work is not running it. -/
theorem settles_ne_execute {b : Batch} : r.settles p token ≠ .execute q b := by
  cases r <;> simp [settles]

/-- Nor is settling it the wrong way. -/
theorem contradicts_ne_execute {b : Batch} : r.contradicts p token ≠ .execute q b := by
  cases r <;> simp [contradicts]

end Response

namespace Site

open Transaction

/-! ### What finishing settles -/

section Finish

variable {t t' : Transaction}

/-- Marking partitions as done does no work. -/
theorem sameWork_markDone (ps : List Nat) (t : Transaction) :
    SameWork t (ps.foldl markDone t) := by
  induction ps generalizing t with
  | nil => exact .refl t
  | cons p rest ih =>
    have hfirst : SameWork t (t.markDone p) := ⟨rfl, rfl, rfl⟩
    exact hfirst.trans (ih _)

/-- Acknowledging a prepare does no work. -/
theorem sameWork_acknowledgePrepare {partitions : PartitionSet}
    (h : t.acknowledgePrepare partitions = .ok t') : SameWork t t' := by
  unfold acknowledgePrepare at h
  split at h
  · cases h
    exact .refl _
  · obtain ⟨_, _, rfl⟩ := Outcome.map_ok h
    exact ⟨rfl, rfl, rfl⟩

/-- The whole prepare does no work. It marks partitions as done and collects their answers, and
neither touches what was executed. -/
theorem sameWork_prepare {outcome : Except TxnError PrepareOutcome}
    (h : prepare t = .ok (t', outcome)) : SameWork t t' := by
  have hexpect : SameWork t (t.expectPrepare (executedPartitions t)) := ⟨rfl, rfl, rfl⟩
  unfold prepare at h
  simp only at h
  split at h
  · cases h
    exact hexpect
  · next c _ =>
    split at h
    · cases h
    · next m hm =>
      have hacknowledge := (hexpect.trans (sameWork_markDone _ _)).trans
        (sameWork_acknowledgePrepare hm)
      split at h
      · cases h
        exact hacknowledge
      · cases h
        exact hacknowledge

/-- Nor does the verdict, which prepares if it has to and reports what stands against committing. -/
theorem sameWork_verdict {commit : Bool} {reason : Option String}
    (h : verdict t commit = .ok (t', reason)) : SameWork t t' := by
  unfold verdict at h
  split at h
  · split at h
    · cases h
    · next hprepare => cases h; exact sameWork_prepare hprepare
    · next hprepare => cases h; exact sameWork_prepare hprepare
  · cases h
    exact .refl t

/-- The hosted partitions at which a transaction ran fragments, or which it is based at. -/
def settledPartitions (t : Transaction) : PartitionSet := (executedPartitions t).filter t.isLocal

/-- Which partitions are settled is a matter of the work that was done. -/
theorem settledPartitions_sameWork (h : SameWork t t') :
    settledPartitions t' = settledPartitions t := by
  unfold settledPartitions executedPartitions touchedPartitions isLocal
  rw [h.admission, h.touched]

variable {R : Type} [Scalar R] {s s' : Site R} {a a' : Admitted R} {response : Response}

/-- Closing the forecast calls no executor. -/
theorem closeForecast_journal {forecast : Option (Forecast R)} {committed : Bool}
    (h : s.closeForecast forecast committed = .ok s') : s'.journal = s.journal := by
  unfold closeForecast at h
  split at h
  · obtain ⟨_, _, rfl⟩ := Outcome.map_ok h
    rfl
  · cases h
    rfl

/-- Finishing settles the last undo token at every settled partition, the way the client
is told. -/
theorem finish_ok {commit : Bool} (h : s.finish a commit = .ok (s', a', response)) :
    s'.journal = s.journal ++ a.txn.undoToken.toList.flatMap fun token =>
      (settledPartitions a.txn).toList.map fun p => response.settles p token := by
  unfold finish at h
  split at h
  · cases h
  · next t reason hverdict =>
    have hwork := sameWork_verdict hverdict
    simp only at h
    split at h
    · cases h
    · next s₁ hclose =>
      cases h
      -- What is settled is read off the transaction after the verdict, which has done no work
      -- since.
      rw [closeForecast_journal hclose, ← hwork.undoToken, ← settledPartitions_sameWork hwork]
      show s.journal ++ settlement t _ = _
      congr 1
      unfold settlement settledPartitions
      cases t.undoToken with
      | none => rfl
      | some token =>
        simp only [Option.toList_some, List.flatMap_singleton]
        refine List.map_congr_left fun p _ => ?_
        cases hcommitted : (commit && reason.isNone) <;> simp [Response.settles]

/-- Every partition is asked once to settle the last token, and nothing else is asked. Calls are
counted, because a call that is made twice would be in the journal twice. -/
theorem count_settles {token : Nat} {ps : PartitionSet} (p k : Nat) :
    (ps.toList.map fun p => response.settles p token).count (response.settles p k)
      = if p ∈ ps ∧ k = token then 1 else 0 := by
  -- A set lists its members in ascending order, so that no call is made twice.
  have hnodup : (ps.toList.map fun p => response.settles p token).Nodup := by
    refine List.pairwise_map.mpr (ps.ascending.imp fun hlt heq => ?_)
    have := (Response.settles_inj.mp heq).1
    omega
  have hmem : response.settles p k ∈ ps.toList.map (fun p => response.settles p token)
      ↔ p ∈ ps ∧ k = token := by
    rw [List.mem_map]
    constructor
    · rintro ⟨q, hq, heq⟩
      obtain ⟨rfl, rfl⟩ := Response.settles_inj.mp heq
      exact ⟨hq, rfl⟩
    · rintro ⟨hp, rfl⟩
      exact ⟨p, hp, rfl⟩
  rw [hnodup.count]
  simp only [hmem]

end Finish

/-! ### What batches do -/

section Batches

variable {R : Type} {s s' : Site R} {a a' : Admitted R} {tasks : List Task}

/-- Counting tasks lists their partitions, and leaves listed what was. Tasks have fewer fragments
than a count can take, so that no count comes out as the mark of a slot never used. -/
theorem countTasks_ok {h h' : DenseHistogram} (hcount : h.Countable)
    (htasks : ∀ task ∈ tasks, task.Addressable) (hok : countTasks h tasks = .ok h') :
    h'.Countable ∧ (∀ p ∈ h.values, p ∈ h'.values)
      ∧ ∀ task ∈ tasks, task.destination ∈ h'.values := by
  induction tasks generalizing h with
  | nil => cases hok; exact ⟨hcount, fun _ hp => hp, fun _ h => absurd h List.not_mem_nil⟩
  | cons task rest ih =>
    obtain ⟨m, hm, hrest⟩ := Outcome.foldlM_cons_ok hok
    have hsmall : task.fragments.length < wordLimit / 2 := htasks task List.mem_cons_self
    obtain ⟨hfinal, hkept, hlater⟩ := ih (hcount.add? hsmall hm)
      (fun x hx => htasks x (List.mem_cons_of_mem _ hx)) hrest
    refine ⟨hfinal, fun p hp => hkept p (DenseHistogram.values_subset_add? hcount hsmall hm p hp),
      fun x hx => ?_⟩
    rcases List.mem_cons.mp hx with rfl | hx
    · exact hkept _ (DenseHistogram.mem_values_add? hcount hsmall hm)
    · exact hlater x hx

/-- The tasks of a batch are being sent since the site was `s` and the transaction `t`. Whatever was
journaled since is a call that sends one of the tasks, and bears the token of the batch. -/
structure Sending (tasks : List Task) (token : Nat) (s : Site R) (t : Transaction)
    (s' : Site R) (t' : Transaction) : Prop where
  work : SameWork t t'
  waiting : ∀ task ∈ t'.round.waiting, task ∈ tasks
  nextToken : s'.nextToken = s.nextToken
  calls : ∃ calls, s'.journal = s.journal ++ calls ∧ ∀ call ∈ calls, ∃ task ∈ tasks,
    ∃ b, call = .execute task.destination b ∧ b.undoToken = token

/-- Sending one more task of the batch makes one more call, under the token of the batch. It comes
last in the journal, whether the executor answers it or fails. -/
theorem Sending.dispatch {token : Nat} {s₁ s₂ : Site R} {t t₁ t₂ : Transaction} {task : Task}
    {sent : Except TxnError Unit} (h : Sending tasks token s t s₁ t₁) (htask : task ∈ tasks)
    (hdispatch : s₁.dispatch t₁ task token = .ok (s₂, t₂, sent)) :
    Sending tasks token s t s₂ t₂ := by
  obtain ⟨calls, hcalls, hall⟩ := h.calls
  obtain ⟨_, inputs, _, rfl, _⟩ := dispatch_ok hdispatch
  let batch := task.toBatch inputs s₁.lastCommitted? token
  refine ⟨h.work.trans (sameWork_dispatch hdispatch),
    fun x hx => h.waiting x (waiting_dispatch hdispatch x hx), h.nextToken,
    calls ++ [.execute task.destination batch], ?_, fun call hcall => ?_⟩
  · show s₁.journal ++ _ = _
    rw [hcalls, List.append_assoc]
  · rcases List.mem_append.mp hcall with hold | hnew
    · exact hall call hold
    · exact ⟨task, htask, batch, List.mem_singleton.mp hnew, rfl⟩

/-- Taking up the next wave makes no call. -/
theorem Sending.wave {token : Nat} {s₁ : Site R} {t t₁ : Transaction}
    (h : Sending tasks token s t s₁ t₁) : Sending tasks token s t s₁ t₁.takeUnblocked.1 := by
  refine ⟨h.work.trans ⟨rfl, rfl, rfl⟩, fun x hx => h.waiting x ?_, h.nextToken, h.calls⟩
  exact List.mem_append_left _ (by simpa [Round.waiting, takeUnblocked] using hx)

variable [Scalar R]

/-- A batch is refused and does no work. Or it takes a new undo token, counts its tasks,
and each of its calls runs one of them under that token. -/
theorem execute_work {answer : Except TxnError (List ResultTable)}
    (h : s.execute a tasks = .ok (s', a', answer)) :
    ∃ calls, s'.journal = s.journal ++ calls
      ∧ ((calls = [] ∧ s' = s ∧ a' = a)
        ∨ (s'.nextToken = s.nextToken + 1
          ∧ a'.txn.admission = a.txn.admission ∧ a'.txn.undoToken = some s.nextToken
          ∧ countTasks a.txn.touched tasks = .ok a'.txn.touched
          ∧ ∀ call ∈ calls, ∃ task ∈ tasks, a.txn.isLocal task.destination = true
            ∧ ∃ b, call = .execute task.destination b ∧ b.undoToken = s.nextToken)) := by
  rcases execute_ok h with ⟨rfl, rfl, _⟩ | ⟨t, ready, s₁, t₁, sent, _, hlocal, hopen, hwaves,
    hjournal, htoken, hconcluded, _⟩
  · exact ⟨[], by simp, .inl ⟨rfl, rfl, rfl⟩⟩
  -- The calls are those of the waves: opening the round and concluding it make none.
  · have hwork := hconcluded.sameWork
    obtain ⟨hopened, hready⟩ := openRound_ok hopen
    have hsending : Sending tasks s.nextToken { s with nextToken := s.nextToken + 1 } t s₁ t₁ :=
      dispatchWaves_keeps tasks (P := fun s₁ t₁ _ => Sending tasks s.nextToken _ t s₁ t₁)
        Sending.dispatch Sending.wave Sending.waiting hready
        ⟨.refl t, hopened.waiting, rfl, [], by simp, by simp⟩ hwaves
    obtain ⟨hsame, _, hnext, calls, hcalls, hall⟩ := hsending
    refine ⟨calls, hjournal.trans hcalls, .inr ⟨htoken.trans hnext, ?_, ?_, ?_, ?_⟩⟩
    · exact hwork.admission.trans (hsame.admission.trans hopened.admission)
    · exact hwork.undoToken.trans (hsame.undoToken.trans hopened.undoToken)
    · rw [hwork.touched, hsame.touched]
      exact hopened.touched
    · intro call hcall
      obtain ⟨task, htask, b, hb, htok⟩ := hall call hcall
      exact ⟨task, htask, hlocal task htask, b, hb, htok⟩

end Batches

/-! ### A transaction from its admission on -/

section Sessions

variable {R : Type} [Scalar R] {s s' s'' : Site R} {a a' : Admitted R} {response : Response}
  {calls : List EngineCall}

/-- What can have happened to a transaction at a site, with the calls of executors that
were made for it. -/
inductive Session : Site R → Admitted R → List EngineCall → Prop
  /-- The transaction is admitted. -/
  | begin {s s' : Site R} {a : Admitted R} {procedure : String} {args : List Value}
      {client : ClientHandle} (h : s.begin procedure args client = .ok (s', .ok a)) :
      Session s' a []
  /-- The site works for others, which takes undo tokens and gives none back. -/
  | elsewhere {s s' : Site R} {a : Admitted R} {calls : List EngineCall} (h : Session s a calls)
      (htoken : s.nextToken ≤ s'.nextToken) : Session s' a calls
  /-- The transaction runs a batch, which may fail. -/
  | batch {s s' : Site R} {a a' : Admitted R} {tasks : List Task}
      {answer : Except TxnError (List ResultTable)} {calls more : List EngineCall}
      (h : Session s a calls) (htasks : ∀ task ∈ tasks, task.Addressable)
      (hbatch : s.execute a tasks = .ok (s', a', answer))
      (hmore : s'.journal = s.journal ++ more) : Session s' a' (calls ++ more)

/-- A transaction that was admitted has just started. With what admission, and how many records idle
in its pool, is left open. -/
theorem begin_ok {procedure : String} {args : List Value} {client : ClientHandle}
    (h : s.begin procedure args client = .ok (s', .ok a)) :
    ∃ admission poolIdle, Transaction.start admission poolIdle = .ok a.txn := by
  unfold Site.begin at h
  split at h
  · cases h
  · split at h
    · cases h
    · split at h
      · cases h
      · simp only at h
        split at h
        · cases h
        · cases h
        · obtain ⟨t, ht, hpair⟩ := Outcome.map_ok h
          cases hpair
          exact ⟨_, _, ht⟩

/-- The calls made for a transaction run batches at partitions that it will settle, under
undo tokens that are taken. -/
structure Accounted (s : Site R) (a : Admitted R) (calls : List EngineCall) : Prop where
  executes : ∀ call ∈ calls, ∃ p b, call = .execute p b
  settled : ∀ q ∈ EngineCall.work calls, q.1 ∈ settledPartitions a.txn
  countable : a.txn.touched.Countable
  tokens : ∀ q ∈ EngineCall.work calls, q.2 < s.nextToken

/-- Settled are the partitions hosted here at which the transaction ran fragments, and its base. -/
theorem mem_settledPartitions {t : Transaction} {p : Nat} :
    p ∈ settledPartitions t
      ↔ (p = t.admission.base ∨ p ∈ t.touched.values) ∧ t.isLocal p = true := by
  simp [settledPartitions, executedPartitions, touchedPartitions]

/-- Work that calls have done comes from one of the calls. -/
theorem mem_work {q : Nat × Nat} :
    q ∈ EngineCall.work calls ↔ ∃ b, .execute q.1 b ∈ calls ∧ b.undoToken = q.2 := by
  rw [EngineCall.work, List.mem_filterMap]
  constructor
  · rintro ⟨call, hcall, hwork⟩
    cases call with
    | execute p b =>
      obtain rfl := Option.some.inj hwork
      exact ⟨b, hcall, rfl⟩
    | release p token => cases hwork
    | undo p token => cases hwork
  · rintro ⟨b, hcall, htoken⟩
    exact ⟨_, hcall, by rw [EngineCall.work?, htoken]⟩

/-- A batch leaves what was done before to be settled, and adds its own work. The partitions that
the transaction has touched grow by those of the tasks, and its calls do work at no others; the
token of the new calls is the one that the batch took. -/
theorem Accounted.batch {tasks : List Task} {answer : Except TxnError (List ResultTable)}
    {more : List EngineCall} (h : Accounted s a calls)
    (htasks : ∀ task ∈ tasks, task.Addressable)
    (hbatch : s.execute a tasks = .ok (s', a', answer))
    (hmore : s'.journal = s.journal ++ more) : Accounted s' a' (calls ++ more) := by
  obtain ⟨calls', hcalls', hcases⟩ := execute_work hbatch
  obtain rfl : more = calls' := List.append_cancel_left (hmore.symm.trans hcalls')
  rcases hcases with ⟨rfl, rfl, rfl⟩ | ⟨hnext, hadmission, _, htouched, hall⟩
  · rw [List.append_nil]
    exact h
  · obtain ⟨hcountable, hkept, hcounted⟩ := countTasks_ok h.countable htasks htouched
    have hlocal : ∀ p, a'.txn.isLocal p = a.txn.isLocal p := by
      intro p
      rw [isLocal, isLocal, hadmission]
    -- Old calls stay at partitions that are settled; a new one runs a task of the batch.
    refine ⟨fun call hcall => ?_, fun q hq => ?_, hcountable, fun q hq => ?_⟩
    · rcases List.mem_append.mp hcall with hold | hnew
      · exact h.executes call hold
      · obtain ⟨task, _, _, b, rfl, _⟩ := hall call hnew
        exact ⟨_, b, rfl⟩
    · rw [mem_settledPartitions, hadmission, hlocal]
      obtain ⟨b, hcall, _⟩ := mem_work.mp hq
      rcases List.mem_append.mp hcall with hold | hnew
      · have hbefore := mem_settledPartitions.mp (h.settled q (mem_work.mpr ⟨b, hold, ‹_›⟩))
        exact ⟨hbefore.1.imp_right (hkept q.1), hbefore.2⟩
      · obtain ⟨task, htask, htaskLocal, b', heq, _⟩ := hall _ hnew
        obtain ⟨hp, _⟩ := EngineCall.execute.inj heq
        rw [hp]
        exact ⟨.inr (hcounted task htask), htaskLocal⟩
    · rw [hnext]
      obtain ⟨b, hcall, htoken⟩ := mem_work.mp hq
      rcases List.mem_append.mp hcall with hold | hnew
      · exact Nat.lt_succ_of_lt (h.tokens q (mem_work.mpr ⟨b, hold, htoken⟩))
      · obtain ⟨task, _, _, b', heq, htoken'⟩ := hall _ hnew
        obtain ⟨_, rfl⟩ := EngineCall.execute.inj heq
        omega

/-- Every call of a session runs a batch at a hosted partition that is counted as touched. -/
theorem Session.accounted (h : Session s a calls) : Accounted s a calls := by
  induction h with
  | begin h =>
    obtain ⟨admission, poolIdle, hstart⟩ := begin_ok h
    refine ⟨fun _ h => absurd h List.not_mem_nil, fun _ h => absurd h List.not_mem_nil, ?_,
      fun _ h => absurd h List.not_mem_nil⟩
    rw [(start_ok hstart).2.2.2]
    exact DenseHistogram.countable_empty admission.partitions
  | elsewhere _ htoken ih =>
    exact ⟨ih.executes, ih.settled, ih.countable,
      fun q hq => Nat.lt_of_lt_of_le (ih.tokens q hq) htoken⟩
  | batch _ htasks hbatch hmore ih => exact ih.batch htasks hbatch hmore

/-- How often work is settled: once if it was done under the last token, else never; and
never the other way. -/
theorem Accounted.count_settled {commit : Bool} {settled : List EngineCall}
    (h : Accounted s a calls) (hfinish : s.finish a commit = .ok (s', a', response))
    (hsettled : s'.journal = s.journal ++ settled) {q : Nat × Nat}
    (hq : q ∈ EngineCall.work calls) :
    (calls ++ settled).count (response.settles q.1 q.2)
        = (if a.txn.undoToken = some q.2 then 1 else 0)
      ∧ (calls ++ settled).count (response.contradicts q.1 q.2) = 0 := by
  have hcalls := List.append_cancel_left (hsettled.symm.trans (finish_ok hfinish))
  -- All calls before the end run batches, so that none of them settles anything.
  have hbefore : calls.count (response.settles q.1 q.2) = 0 := by
    refine List.count_eq_zero.mpr fun hmem => ?_
    obtain ⟨p, b, heq⟩ := h.executes _ hmem
    exact Response.settles_ne_execute heq
  have hnever : calls.count (response.contradicts q.1 q.2) = 0 := by
    refine List.count_eq_zero.mpr fun hmem => ?_
    obtain ⟨p, b, heq⟩ := h.executes _ hmem
    exact Response.contradicts_ne_execute heq
  have hsettles := h.settled q hq
  rw [List.count_append, List.count_append, hbefore, hnever, hcalls]
  cases htoken : a.txn.undoToken with
  | none => exact ⟨rfl, rfl⟩
  | some token =>
    simp only [Option.toList_some, List.flatMap_singleton, Nat.zero_add, count_settles, hsettles,
      true_and, Option.some.injEq, eq_comm (a := token)]
    refine List.count_eq_zero.mpr fun hmem => ?_
    obtain ⟨p, _, heq⟩ := List.mem_map.mp hmem
    exact Response.settles_ne_contradicts heq

/-- When a transaction finishes, the work that it did under its last undo token is settled
exactly once, the way the client is told. Work under any other token is not settled. So
all work is settled exactly once if and only if all of it carries the last token. -/
theorem settled_iff_last_token {commit : Bool} {settled : List EngineCall}
    (h : Session s a calls) (hfinish : s.finish a commit = .ok (s', a', response))
    (hsettled : s'.journal = s.journal ++ settled) :
    (∀ q ∈ EngineCall.work calls,
        (calls ++ settled).count (response.settles q.1 q.2)
            = (if a.txn.undoToken = some q.2 then 1 else 0)
          ∧ (calls ++ settled).count (response.contradicts q.1 q.2) = 0)
      ∧ ((∀ q ∈ EngineCall.work calls,
            (calls ++ settled).count (response.settles q.1 q.2) = 1)
          ↔ ∀ q ∈ EngineCall.work calls, a.txn.undoToken = some q.2) := by
  have hcount := fun q hq => h.accounted.count_settled hfinish hsettled (q := q) hq
  refine ⟨hcount, fun hall q hq => ?_, fun hlast q hq => ?_⟩
  · have hone := (hcount q hq).1.symm.trans (hall q hq)
    -- Work under another token would have been settled no time.
    by_cases htoken : a.txn.undoToken = some q.2
    · exact htoken
    · rw [if_neg htoken] at hone
      cases hone
  · rw [(hcount q hq).1, if_pos (hlast q hq)]

/-- The work of two batches is never settled together: when a batch has done work after
another one, finishing leaves the work of the first behind. -/
theorem two_batches_left_behind {tasks : List Task}
    {answer : Except TxnError (List ResultTable)} {s₁ : Site R} {a₁ : Admitted R}
    {more settled : List EngineCall} {commit : Bool} {q : Nat × Nat} (h : Session s a calls)
    (htasks : ∀ task ∈ tasks, task.Addressable)
    (hbatch : s.execute a tasks = .ok (s₁, a₁, answer)) (hmore : s₁.journal = s.journal ++ more)
    (hworked : more ≠ []) (hfinish : s₁.finish a₁ commit = .ok (s', a', response))
    (hsettled : s'.journal = s₁.journal ++ settled) (hq : q ∈ EngineCall.work calls) :
    (calls ++ more ++ settled).count (response.settles q.1 q.2) = 0 := by
  have hafter := h.accounted.batch htasks hbatch hmore
  have hmem : q ∈ EngineCall.work (calls ++ more) := by
    rw [EngineCall.work, List.filterMap_append]
    exact List.mem_append_left _ hq
  obtain ⟨calls', hcalls', ⟨rfl, _⟩ | ⟨_, _, htoken, _⟩⟩ := execute_work hbatch
  · exact absurd (List.append_cancel_left (hmore.symm.trans hcalls')) hworked
  -- The second batch has taken a token of its own, which is greater than that of the first.
  · have hearlier := h.accounted.tokens q hq
    rw [(hafter.count_settled hfinish hsettled hmem).1, if_neg]
    rw [htoken, Option.some.injEq]
    omega

/-! ### A transaction of two batches -/

/-- The task of each batch: one fragment at the only partition. -/
def transferTask (id : TaskId) (d : DependencyId) : Task :=
  ⟨id, 1, 0, [⟨100 * id, 0, 0, none, some d, []⟩]⟩

/-- The tasks of the transfer are sent where they can be. -/
theorem addressable_transferTask (id : TaskId) (d : DependencyId) :
    ∀ task ∈ [transferTask id d], task.Addressable := by
  intro task htask
  obtain rfl := List.mem_singleton.mp htask
  show 1 < wordLimit / 2
  decide

/-- A transaction of the small site that is rolled back after one batch: all work carries
the last token, and is undone once. -/
theorem settled_iff_last_token_one_batch :
    ∃ (s s' : Site Rat) (a a' : Admitted Rat) (calls : List EngineCall) (response : Response),
      Session s a calls ∧ s.finish a false = .ok (s', a', response)
        ∧ s'.journal = s.journal ++ [.undo 0 1] ∧ EngineCall.work calls = [(0, 1)]
        ∧ (calls ++ [EngineCall.undo 0 1]).count (response.settles 0 1) = 1 := by
  have hbegin := Session.begin (show soloSite.begin "transfer" [] 1 = .ok (_, .ok _) from rfl)
  have hbatch := hbegin.batch (addressable_transferTask 1 10) rfl (show _ = _ ++ [_] from rfl)
  have hsettled := settled_iff_last_token hbatch (show Site.finish _ _ false = _ from rfl)
    (show _ = _ ++ [EngineCall.undo 0 1] from rfl)
  exact ⟨_, _, _, _, _, _, hbatch, rfl, rfl, rfl, hsettled.2.mpr (by decide) (0, 1) (by decide)⟩

/-- A transaction of the small site that is rolled back after two batches: the work of the
first one is not undone. -/
theorem first_batch_left_behind :
    ∃ (s s' : Site Rat) (a a' : Admitted Rat) (calls : List EngineCall) (response : Response),
      Session s a calls ∧ s.finish a false = .ok (s', a', response)
        ∧ s'.journal = s.journal ++ [.undo 0 2] ∧ EngineCall.work calls = [(0, 1), (0, 2)]
        ∧ ¬ ∀ q ∈ EngineCall.work calls,
          (calls ++ [EngineCall.undo 0 2]).count (response.settles q.1 q.2) = 1 := by
  have hbegin := Session.begin (show soloSite.begin "transfer" [] 1 = .ok (_, .ok _) from rfl)
  have hfirst := hbegin.batch (addressable_transferTask 1 10) rfl (show _ = _ ++ [_] from rfl)
  have hsecond := hfirst.batch (addressable_transferTask 2 20) rfl (show _ = _ ++ [_] from rfl)
  refine ⟨_, _, _, _, _, _, hsecond, rfl, rfl, rfl, fun hall => ?_⟩
  exact absurd (hall (0, 1) (by decide)) (by decide)

end Sessions

end Site

end TxnPath
