import TxnPath.Proofs.Forecast.Upkeep
import TxnPath.Proofs.Site.Endings
import TxnPath.Proofs.Site.Settlement

/-!
# `TxnPath.Proofs.Site.Service`: a site and all its transactions

A `Service` is a site with its transactions. A `Request` admits another one or hands one in, teaches
the forecaster, or demands something of one transaction: an act, a batch, a PREPARE, its end, or
that it be given up (`Demand`). `Service.run` is what any sequence of requests does.

`Service.Sound` is the invariant: transactions list the partitions that the site hosts and report
only errors that they have recorded (`Sound.step`). `Service.Minded` adds that the forecaster minds
all open forecasts (`Minded.step`); it needs sealed graphs to begin with. `step_txn` says what
becomes of one transaction when a request is served.
-/

set_option autoImplicit false

namespace TxnPath

open Transaction Site

variable {R : Type}

/-- A site with its transactions, in the order in which they came. -/
structure Service (R : Type) where
  site : Site R
  txns : List (Admitted R)

/-- What can be demanded of one transaction. -/
inductive Demand where
  /-- An act of the transaction itself. -/
  | act (deed : Act)
  /-- A batch of tasks. -/
  | execute (tasks : List Task)
  /-- That all partitions that take part acknowledge. -/
  | prepare
  /-- That it commits or is rolled back. -/
  | finish (commit : Bool)
  /-- That it is given up. -/
  | abandon

/-- What can be asked of a site. A transaction is named by its position. -/
inductive Request where
  /-- A procedure is called. -/
  | begin (procedure : String) (args : List Value) (client : ClientHandle)
  /-- A transaction that was not begun here is handed in. -/
  | adopt (admission : Admission) (poolIdle : Nat)
  /-- Something is demanded of a transaction. -/
  | demand (i : Nat) (d : Demand)
  /-- The forecaster learns traces. -/
  | train (traces : List Trace)
  /-- The forecaster recomputes all graphs. -/
  | recompute

/-- Whether an act ends the transaction, which hands out its forecast. -/
def Transaction.Act.finishes : Act → Bool
  | .booked .finish => true
  | _ => false

namespace Demand

variable [Scalar R]

/-- The site and the transaction after a demand. -/
def run (s : Site R) (a : Admitted R) : Demand → Except Fault (Site R × Admitted R)
  | .act deed => (deed.run a.txn).map fun t => (s, ⟨t, if deed.finishes then none else a.forecast⟩)
  | .execute tasks => (s.execute a tasks).map fun (s, a, _) => (s, a)
  | .prepare => (Site.prepare a.txn).map fun (t, _) => (s, ⟨t, a.forecast⟩)
  | .finish commit => (s.finish a commit).map fun (s, a, _) => (s, a)
  | .abandon => (s.abandon a).map fun s => (s, ⟨a.txn, none⟩)

/-- The demand is an act that records the error or a wait that ends with it, or a batch that answers
it. -/
def Raises (s : Site R) (a : Admitted R) (d : Demand) (e : TxnError) : Prop :=
  (∃ deed, d = .act deed ∧ deed.Records a.txn e)
    ∨ ∃ tasks s' a', d = .execute tasks ∧ s.execute a tasks = .ok (s', a', .error e)

end Demand

namespace Service

variable [Scalar R]

/-- The service after a request. A demand of a transaction that does not exist does nothing. -/
def step (v : Service R) : Request → Except Fault (Service R)
  | .begin procedure args client =>
    (v.site.begin procedure args client).map fun (s, answer) =>
      ⟨s, v.txns ++ answer.toOption.toList⟩
  | .adopt admission poolIdle =>
    (Transaction.start admission poolIdle).map fun t => ⟨v.site, v.txns ++ [⟨t, none⟩]⟩
  | .demand i d =>
    match v.txns[i]? with
    | none => .ok v
    | some a => (d.run v.site a).map fun (s, a) => ⟨s, v.txns.set i a⟩
  | .train traces =>
    match v.site.forecaster with
    | none => .ok v
    | some f => (f.train traces).map fun (f, _) => ⟨{ v.site with forecaster := some f }, v.txns⟩
  | .recompute =>
    match v.site.forecaster with
    | none => .ok v
    | some f => f.recomputeAll.map fun f => ⟨{ v.site with forecaster := some f }, v.txns⟩

/-- The service after requests. -/
def run (v : Service R) (requests : List Request) : Except Fault (Service R) :=
  requests.foldlM step v

end Service

/-! ### What a demand does to its transaction -/

section Demands

variable {t t' : Transaction}

/-- A partition that acknowledges changes only the callback of the transaction. -/
theorem passes_markDone (ps : List Nat) (t : Transaction) : Passes t (ps.foldl markDone t) := by
  induction ps generalizing t with
  | nil => exact .refl t
  | cons p rest ih =>
    have hfirst : Passes t (t.markDone p) := ⟨rfl, rfl, rfl, .inl rfl⟩
    exact hfirst.trans (ih _)

/-- Preparing goes through the callback alone, whichever way it ends. The error fields of the
transaction are out of its reach. -/
theorem passes_prepare {outcome : Except TxnError PrepareOutcome}
    (h : Site.prepare t = .ok (t', outcome)) : Passes t t' := by
  have hexpect : Passes t (t.expectPrepare (executedPartitions t)) := ⟨rfl, rfl, rfl, .inl rfl⟩
  unfold Site.prepare at h
  simp only at h
  split at h
  -- Without a callback nobody is asked.
  · cases h
    exact hexpect
  · split at h
    · cases h
    · next m hm =>
      have hacknowledge := (hexpect.trans (passes_markDone _ _)).trans
        (passes_acknowledgePrepare hm)
      split at h
      · cases h
        exact hacknowledge
      · cases h
        exact hacknowledge

/-- Deciding on a commit may ask for acknowledgements, but opens no round and records no result. -/
theorem passes_verdict {commit : Bool} {reason : Option String}
    (h : verdict t commit = .ok (t', reason)) : Passes t t' := by
  unfold verdict at h
  split at h
  · split at h
    · cases h
    · next hprepare => cases h; exact passes_prepare hprepare
    · next hprepare => cases h; exact passes_prepare hprepare
  · cases h
    exact .refl t

variable [Scalar R] {s s' : Site R} {a a' : Admitted R} {d : Demand}

/-- Finishing leaves the records of the transaction as they are: there is no round to it. -/
theorem passes_siteFinish {commit : Bool} {response : Response}
    (h : s.finish a commit = .ok (s', a', response)) : Passes a.txn a'.txn := by
  unfold Site.finish at h
  split at h
  · cases h
  · next t reason hverdict =>
    simp only at h
    split at h
    · cases h
    · cases h
      have htaken : Passes t t.takeLastResults.1 := ⟨rfl, rfl, rfl, .inl rfl⟩
      exact (passes_verdict hverdict).trans (htaken.trans (passes_finish _))

/-- A demand passes over the transaction, or it is an act or a batch. With this what is proved of
acts and batches carries over to all that can be demanded of a transaction. -/
theorem Demand.run_cases (h : d.run s a = .ok (s', a')) :
    Passes a.txn a'.txn
      ∨ (∃ deed, d = .act deed ∧ deed.run a.txn = .ok a'.txn)
      ∨ ∃ tasks answer, d = .execute tasks ∧ s.execute a tasks = .ok (s', a', answer) := by
  -- Only an act and a batch reach the records; the other demands leave all but the callback and the
  -- undo tokens alone.
  cases d with
  | act deed =>
    obtain ⟨t, ht, hpair⟩ := Outcome.map_ok h
    cases hpair
    exact .inr (.inl ⟨deed, rfl, ht⟩)
  | execute tasks =>
    obtain ⟨⟨s₁, a₁, answer⟩, hrun, hpair⟩ := Outcome.map_ok h
    cases hpair
    exact .inr (.inr ⟨tasks, answer, rfl, hrun⟩)
  | prepare =>
    obtain ⟨⟨t, outcome⟩, hrun, hpair⟩ := Outcome.map_ok h
    cases hpair
    exact .inl (passes_prepare hrun)
  | finish commit =>
    obtain ⟨⟨s₁, a₁, response⟩, hrun, hpair⟩ := Outcome.map_ok h
    cases hpair
    exact .inl (passes_siteFinish hrun)
  | abandon =>
    obtain ⟨s₁, _, hpair⟩ := Outcome.map_ok h
    cases hpair
    exact .inl (.refl a.txn)

/-- Whatever is demanded of a transaction continues it: its admission stays, and errors once
recorded stay. -/
theorem Demand.continues (h : d.run s a = .ok (s', a')) : Continues a.txn a'.txn := by
  rcases d.run_cases h with hpasses | ⟨deed, _, hact⟩ | ⟨tasks, answer, _, hbatch⟩
  · exact hpasses.continues
  · exact deed.continues hact
  · exact stepsKeep_continues.execute hbatch

/-- No demand makes a transaction report an error that it has not recorded. -/
theorem Demand.reported (h : d.run s a = .ok (s', a')) (hreported : a.txn.Reported) :
    a'.txn.Reported := by
  rcases d.run_cases h with hpasses | ⟨deed, _, hact⟩ | ⟨tasks, answer, _, hbatch⟩
  · exact hreported.passes hpasses
  · exact hreported.act hact
  · exact stepsKeep_reported.execute hbatch hreported

/-- Where a demand records the first error, it raises this error. -/
theorem Demand.raises {reason : String} (h : d.run s a = .ok (s', a')) (hreported : a.txn.Reported)
    (hopen : a.txn.abortReason = none) (hfailed : a'.txn.abortReason = some reason) :
    ∃ e, d.Raises s a e ∧ reason = e.message := by
  rcases d.run_cases h with hpasses | ⟨deed, rfl, hact⟩ | ⟨tasks, answer, rfl, hbatch⟩
  · exact nomatch (hpasses.abortReason.trans hopen).symm.trans hfailed
  · rcases deed.run_cases hact with hpasses | ⟨e, hrecords, hfails⟩
    · exact nomatch (hpasses.abortReason.trans hopen).symm.trans hfailed
    · exact ⟨e, .inl ⟨deed, rfl, hrecords⟩,
        Option.some.inj (hfailed.symm.trans hfails.abortReason)⟩
  · rcases execute_errors hreported hopen hbatch with hnone | ⟨e, rfl, he⟩
    · exact nomatch hnone.symm.trans hfailed
    · exact ⟨e, .inr ⟨tasks, s', a', rfl, hbatch⟩, Option.some.inj (hfailed.symm.trans he)⟩

end Demands

namespace Service

variable [Scalar R] {v v' : Service R} {q : Request} {requests : List Request} {i : Nat}
  {a a' : Admitted R}

/-! ### What a request does -/

/-- A request does nothing, or the forecaster learns, or a call is admitted or refused, or a
transaction joins, or something is done to one transaction. -/
theorem step_cases (h : v.step q = .ok v') :
    v' = v
      ∨ (∃ f f', v.site.forecaster = some f ∧ v' = ⟨{ v.site with forecaster := some f' }, v.txns⟩
        ∧ ((∃ traces result, f.train traces = .ok (f', result)) ∨ f.recomputeAll = .ok f'))
      ∨ (∃ procedure args client answer, v.site.begin procedure args client = .ok (v'.site, answer)
        ∧ v'.txns = v.txns ++ answer.toOption.toList)
      ∨ (∃ admission poolIdle t, Transaction.start admission poolIdle = .ok t
        ∧ v' = ⟨v.site, v.txns ++ [⟨t, none⟩]⟩)
      ∨ ∃ i d a a', q = .demand i d ∧ v.txns[i]? = some a ∧ d.run v.site a = .ok (v'.site, a')
        ∧ v'.txns = v.txns.set i a' := by
  -- The requests in the order of their constructors; one that names no transaction, or teaches a
  -- site without a forecaster, changes nothing.
  cases q with
  | begin procedure args client =>
    obtain ⟨⟨s, answer⟩, hbegin, rfl⟩ := Outcome.map_ok h
    exact .inr (.inr (.inl ⟨procedure, args, client, answer, hbegin, rfl⟩))
  | adopt admission poolIdle =>
    obtain ⟨t, hstart, rfl⟩ := Outcome.map_ok h
    exact .inr (.inr (.inr (.inl ⟨admission, poolIdle, t, hstart, rfl⟩)))
  | demand i d =>
    rw [step] at h
    split at h
    · cases h
      exact .inl rfl
    · next a ha =>
      obtain ⟨⟨s, a'⟩, hrun, rfl⟩ := Outcome.map_ok h
      exact .inr (.inr (.inr (.inr ⟨i, d, a, a', rfl, ha, hrun, rfl⟩)))
  | train traces =>
    rw [step] at h
    split at h
    · cases h
      exact .inl rfl
    · next f hf =>
      obtain ⟨⟨f', result⟩, htrain, rfl⟩ := Outcome.map_ok h
      exact .inr (.inl ⟨f, f', hf, rfl, .inl ⟨traces, result, htrain⟩⟩)
  | recompute =>
    rw [step] at h
    split at h
    · cases h
      exact .inl rfl
    · next f hf =>
      obtain ⟨f', hrecompute, rfl⟩ := Outcome.map_ok h
      exact .inr (.inl ⟨f, f', hf, rfl, .inr hrecompute⟩)

/-- A request leaves a transaction alone, or it is a demand of this transaction. Transactions are
never dropped from the list, so that a position keeps its meaning. -/
theorem step_txn (h : v.step q = .ok v') (ha : v.txns[i]? = some a) :
    ∃ a', v'.txns[i]? = some a'
      ∧ (a' = a ∨ ∃ d, q = .demand i d ∧ d.run v.site a = .ok (v'.site, a')) := by
  obtain ⟨hi, _⟩ := List.getElem?_eq_some_iff.mp ha
  rcases step_cases h with rfl | ⟨_, _, _, rfl, _⟩ | ⟨_, _, _, _, _, htxns⟩ | ⟨_, _, _, _, rfl⟩
    | ⟨j, d, b, b', rfl, hb, hrun, htxns⟩
  · exact ⟨a, ha, .inl rfl⟩
  · exact ⟨a, ha, .inl rfl⟩
  · rw [htxns]
    exact ⟨a, (List.getElem?_append_left hi).trans ha, .inl rfl⟩
  · exact ⟨a, (List.getElem?_append_left hi).trans ha, .inl rfl⟩
  · rw [htxns]
    by_cases hij : j = i
    · subst hij
      obtain rfl := Option.some.inj (hb.symm.trans ha)
      exact ⟨b', List.getElem?_set_self hi, .inr ⟨d, rfl, hrun⟩⟩
    · exact ⟨a, (List.getElem?_set_ne hij).trans ha, .inl rfl⟩

/-- Serving a request continues each of the transactions, the one it is about and the others, and
none loses its number. -/
theorem continues_step (h : v.step q = .ok v') (ha : v.txns[i]? = some a) :
    ∃ a', v'.txns[i]? = some a' ∧ Continues a.txn a'.txn := by
  obtain ⟨a', ha', rfl | ⟨d, _, hd⟩⟩ := step_txn h ha
  · exact ⟨a', ha', .refl _⟩
  · exact ⟨a', ha', d.continues hd⟩

/-- Whatever is asked of the site, a transaction that is once admitted goes on. -/
theorem continues_run (h : v.run requests = .ok v') (ha : v.txns[i]? = some a) :
    ∃ a', v'.txns[i]? = some a' ∧ Continues a.txn a'.txn := by
  induction requests generalizing v a with
  | nil =>
    cases h
    exact ⟨a, ha, .refl _⟩
  | cons q rest ih =>
    obtain ⟨m, hm, hrest⟩ := Outcome.foldlM_cons_ok h
    obtain ⟨b, hb, hfirst⟩ := continues_step hm ha
    obtain ⟨a', ha', hlater⟩ := ih hrest hb
    exact ⟨a', ha', hfirst.trans hlater⟩

/-! ### What holds of all transactions -/

/-- A transaction lists the partitions that the site hosts, and reports only errors that it has
recorded. -/
structure Orderly (a : Admitted R) : Prop where
  hosts : a.txn.Hosts
  reported : a.txn.Reported

/-- All transactions of a service are orderly. -/
def Sound (v : Service R) : Prop := ∀ a ∈ v.txns, Orderly a

omit [Scalar R] in
/-- A site without transactions is sound. -/
theorem sound_nil (s : Site R) : Sound ⟨s, []⟩ := fun _ ha => absurd ha List.not_mem_nil

/-- A transaction stays orderly whatever is demanded of it. -/
theorem Orderly.demand {s s' : Site R} {d : Demand} (h : Orderly a)
    (hrun : d.run s a = .ok (s', a')) : Orderly a' :=
  ⟨h.hosts.continues (d.continues hrun), d.reported hrun h.reported⟩

/-- Serving one request keeps the service sound: the transactions that were there before are handed
on or served, and one that comes in is orderly from the start. -/
theorem Sound.step (h : v.Sound) (hstep : v.step q = .ok v') : v'.Sound := by
  rcases step_cases hstep with rfl | ⟨_, _, _, rfl, _⟩ | ⟨_, _, _, answer, hbegin, htxns⟩
    | ⟨_, _, t, hstart, rfl⟩ | ⟨_, d, b, b', _, hb, hrun, htxns⟩
  · exact h
  · exact h
  -- A transaction was admitted, or refused; only the former adds one.
  · intro a ha
    rw [htxns] at ha
    rcases List.mem_append.mp ha with hold | hnew
    · exact h a hold
    · cases answer with
      | error e => cases hnew
      | ok b =>
        obtain rfl := List.mem_singleton.mp hnew
        obtain ⟨_, _, hstart⟩ := begin_ok hbegin
        exact ⟨hosts_start hstart, reported_start hstart⟩
  · intro a ha
    rcases List.mem_append.mp ha with hold | hnew
    · exact h a hold
    · obtain rfl := List.mem_singleton.mp hnew
      exact ⟨hosts_start hstart, reported_start hstart⟩
  -- A transaction took the place of the one that something was demanded of.
  · intro a ha
    rw [htxns] at ha
    rcases List.mem_or_eq_of_mem_set ha with hold | rfl
    · exact h a hold
    · exact (h b (List.mem_of_getElem? hb)).demand hrun

/-- So does serving any number of them. -/
theorem Sound.run (h : v.Sound) (hrun : v.run requests = .ok v') : v'.Sound :=
  Outcome.foldlM_rel (fun v v' : Service R => v.Sound → v'.Sound) (fun _ h => h)
    (fun h h' hv => h' (h hv)) (fun hstep hv => hv.step hstep) hrun h

end Service

/-! ### What the forecaster minds -/

section Forecasts

variable [Scalar R] {s s' : Site R} {a a' : Admitted R} {xs : List (Forecast R)} {d : Demand}

/-- The forecaster of a site, if there is one, minds the open forecasts. -/
def Site.Minds (s : Site R) (xs : List (Forecast R)) : Prop :=
  ∀ f, s.forecaster = some f → f.Minds xs

omit [Scalar R] in
/-- In which order the open forecasts are listed does not matter to the forecaster. -/
theorem Site.Minds.perm {ys : List (Forecast R)} (h : s.Minds xs) (hperm : xs.Perm ys) :
    s.Minds ys := fun f hf => (h f hf).perm hperm

/-- A prediction opens at most one forecast, and the forecaster minds it along with those that were
open. -/
theorem minds_predict {txn : TxnId} {p : Procedure} {args : List Value} {base : Nat}
    {answer : Except TxnError (Prediction × Option (Forecast R))} (h : s.Minds xs)
    (hrun : s.predict txn p args base = .ok (s', answer)) :
    s'.Minds ((answer.toOption.bind Prod.snd).toList ++ xs) := by
  unfold predict at hrun
  split at hrun
  · cases hrun
    exact h
  -- The forecaster starts a forecast, or answers why it does not.
  · next f hf =>
    have hf : s.forecaster = some f := (Option.filter_eq_some_iff.mp hf).1
    split at hrun
    · cases hrun
    · next hstart =>
      cases hrun
      rintro _ ⟨⟩
      exact (h f hf).start hstart
    · next hstart =>
      cases hrun
      rintro _ ⟨⟩
      exact (h f hf).start hstart

/-- A call that is admitted has its forecast, if the site makes any. A call that is refused has
none: the procedure is not known, or the partition is hosted elsewhere. -/
theorem minds_begin {procedure : String} {args : List Value} {client : ClientHandle}
    {answer : Except TxnError (Admitted R)} (h : s.Minds xs)
    (hrun : s.begin procedure args client = .ok (s', answer)) :
    s'.Minds ((answer.toOption.bind Admitted.forecast).toList ++ xs) := by
  unfold Site.begin at hrun
  split at hrun
  · cases hrun
    exact h
  · split at hrun
    · cases hrun
      exact h
    -- The site hosts the partition: what follows is a prediction.
    · split at hrun
      · cases hrun
        exact h
      · -- The number of the next transaction is no business of the forecaster.
        have hcounted : Site.Minds { s with nextTxn := s.nextTxn + 1 } xs := h
        simp only at hrun
        split at hrun
        · cases hrun
        · next hpredict =>
          cases hrun
          exact minds_predict hcounted hpredict
        · next hpredict =>
          obtain ⟨t, _, hpair⟩ := Outcome.map_ok hrun
          cases hpair
          exact minds_predict hcounted hpredict

/-- A batch makes the forecast of its transaction longer. It is led on after the batch has run, so
that a batch that fails leaves it where it was. -/
theorem minds_execute {tasks : List Task} {answer : Except TxnError (List ResultTable)}
    (h : s.Minds (a.forecast.toList ++ xs)) (hrun : s.execute a tasks = .ok (s', a', answer)) :
    s'.Minds (a'.forecast.toList ++ xs) := by
  rcases execute_cases hrun with ⟨rfl, rfl, _⟩ | ⟨t, ready, s₁, t₁, sent, _, hopened, hwaves, _,
    hrecord⟩
  · exact h
  · obtain ⟨hopen, hready⟩ := openRound_ok hopened
    obtain ⟨journal, rfl⟩ := waves_site hopen.waiting hready hwaves
    have h₁ : Site.Minds { s with nextToken := s.nextToken + 1, journal := journal }
        (a.forecast.toList ++ xs) := h
    rcases hrecord with ⟨rfl, hforecast⟩ | ⟨recorded, hrecord⟩
    -- The batch failed, so nothing of it is recorded.
    · rw [hforecast]
      exact h₁
    · generalize a'.forecast = later at hrecord ⊢
      unfold recordBatch at hrecord
      split at hrecord
      · next f x hf hx =>
        rw [hx] at h₁
        split at hrecord
        · cases hrecord
        -- The forecast has moved on by the batch, and still lends the same path and walker.
        · next f' x' result hadvance =>
          cases hrecord
          rintro _ ⟨⟩
          exact (h₁ f hf).advance hadvance
      · cases hrecord
        exact h₁

/-- A forecast that is closed is given back; the others stay minded. A site without a forecaster has
no forecasts to mind. -/
theorem minds_closeForecast {last : Option (Forecast R)} {committed : Bool}
    (h : s.Minds (last.toList ++ xs)) (hrun : s.closeForecast last committed = .ok s') :
    s'.Minds xs := by
  unfold closeForecast at hrun
  split at hrun
  · next f x hf =>
    obtain ⟨⟨f', drifted⟩, hclose, rfl⟩ := Outcome.map_ok hrun
    -- Closing gives one result, so it is the one that keeps the others open.
    obtain ⟨f₁, drifted₁, hclose₁, hminds⟩ := (h f hf).close_total committed
    obtain ⟨rfl, -⟩ := Prod.mk.inj (Except.ok.inj (hclose.symm.trans hclose₁))
    rintro _ ⟨⟩
    exact hminds
  · next last _ _ hnone =>
    cases hrun
    intro f hf
    cases last with
    | none => exact h f hf
    | some x => exact absurd rfl (hnone f x hf)

/-- The open forecast of a transaction can be closed. -/
theorem closeForecast_total {last : Option (Forecast R)} (h : s.Minds (last.toList ++ xs))
    (committed : Bool) : ∃ s', s.closeForecast last committed = .ok s' := by
  unfold closeForecast
  split
  · next f x hf =>
    obtain ⟨f', drifted, hclose, _⟩ := (h f hf).close_total committed
    rw [hclose]
    exact ⟨_, rfl⟩
  · exact ⟨s, rfl⟩

/-- Finishing closes the forecast of the transaction, and only that one. -/
theorem minds_finish {commit : Bool} {response : Response}
    (h : s.Minds (a.forecast.toList ++ xs)) (hrun : s.finish a commit = .ok (s', a', response)) :
    s'.Minds (a'.forecast.toList ++ xs) := by
  unfold Site.finish at hrun
  split at hrun
  · cases hrun
  · simp only at hrun
    split at hrun
    · cases hrun
    · next hclose =>
      cases hrun
      refine minds_closeForecast ?_ hclose
      exact h

omit [Scalar R] in
/-- So does giving the transaction up. Its forecast is discarded, and what it has recorded stays in
the graph. -/
theorem minds_abandon (h : s.Minds (a.forecast.toList ++ xs)) (hrun : s.abandon a = .ok s') :
    s'.Minds xs := by
  unfold abandon at hrun
  split at hrun
  · next f x hf hx =>
    obtain ⟨f', hdiscard, rfl⟩ := Outcome.map_ok hrun
    rw [hx] at h
    rintro _ ⟨⟩
    exact (h f hf).discard hdiscard
  · next hnone =>
    cases hrun
    intro f hf
    cases hx : a.forecast with
    | none =>
      rw [hx] at h
      exact h f hf
    | some x => exact absurd hx (hnone f x hf)

omit [Scalar R] in
/-- A forecast that nobody closes leaves its path behind. -/
theorem minds_drop {last : Option (Forecast R)} (h : s.Minds (last.toList ++ xs)) :
    s.Minds xs := by
  cases last with
  | none => exact h
  | some x => exact fun f hf => (h f hf).drop

/-- Whatever is demanded of a transaction, the forecaster minds its forecast, if it still has one,
and all the others. -/
theorem minds_demand (h : s.Minds (a.forecast.toList ++ xs)) (hrun : d.run s a = .ok (s', a')) :
    s'.Minds (a'.forecast.toList ++ xs) := by
  cases d with
  | act deed =>
    obtain ⟨t, _, hpair⟩ := Outcome.map_ok hrun
    cases hpair
    -- An act that ends the transaction drops the forecast without closing it.
    cases deed.finishes with
    | true => exact minds_drop h
    | false => exact h
  | execute tasks =>
    obtain ⟨⟨s₁, a₁, answer⟩, hrun, hpair⟩ := Outcome.map_ok hrun
    cases hpair
    exact minds_execute h hrun
  | prepare =>
    obtain ⟨⟨t, outcome⟩, _, hpair⟩ := Outcome.map_ok hrun
    cases hpair
    exact h
  | finish commit =>
    obtain ⟨⟨s₁, a₁, response⟩, hrun, hpair⟩ := Outcome.map_ok hrun
    cases hpair
    exact minds_finish h hrun
  | abandon =>
    obtain ⟨s₁, habandon, hpair⟩ := Outcome.map_ok hrun
    cases hpair
    exact minds_abandon h habandon

end Forecasts

namespace Service

variable [Scalar R] {v v' : Service R} {q : Request} {requests : List Request} {i : Nat}
  {a : Admitted R}

/-- The forecasts of the transactions of a service that are open. -/
def forecasts (txns : List (Admitted R)) : List (Forecast R) := txns.filterMap Admitted.forecast

/-- The forecaster minds all open forecasts. -/
def Minded (v : Service R) : Prop := v.site.Minds (forecasts v.txns)

omit [Scalar R] in
/-- The open forecasts of a list of transactions, one transaction at a time. -/
theorem forecasts_cons (a : Admitted R) (txns : List (Admitted R)) :
    forecasts (a :: txns) = a.forecast.toList ++ forecasts txns := by
  rw [forecasts, List.filterMap_cons]
  cases a.forecast <;> rfl

omit [Scalar R] in
/-- The forecast of one transaction can be looked at before those of the others. -/
theorem forecasts_perm (ha : v.txns[i]? = some a) :
    (forecasts v.txns).Perm (a.forecast.toList ++ forecasts (v.txns.eraseIdx i)) := by
  obtain ⟨hi, rfl⟩ := List.getElem?_eq_some_iff.mp ha
  rw [← forecasts_cons]
  exact (List.getElem_cons_eraseIdx_perm hi).symm.filterMap _

/-- Serving one request keeps all open forecasts minded: training and recomputing keep what is lent,
an admission opens a forecast, and a demand changes the forecast of one transaction. -/
theorem Minded.step (h : v.Minded) (hstep : v.step q = .ok v') : v'.Minded := by
  rcases step_cases hstep with rfl | ⟨f, f', hf, rfl, hlearn⟩
    | ⟨_, _, _, answer, hbegin, htxns⟩ | ⟨_, _, t, _, rfl⟩ | ⟨i, d, b, b', _, hb, hrun, htxns⟩
  · exact h
  · rintro _ ⟨⟩
    rcases hlearn with ⟨traces, result, htrain⟩ | hrecompute
    · exact (h f hf).train htrain
    · exact (h f hf).recomputeAll hrecompute
  · have hminds := minds_begin h hbegin
    have hnew : forecasts answer.toOption.toList
        = (answer.toOption.bind Admitted.forecast).toList := by
      cases answer with
      | error e => rfl
      | ok b => rw [Except.toOption, Option.toList_some, forecasts_cons]; exact List.append_nil _
    show v'.site.Minds (forecasts v'.txns)
    rw [htxns, forecasts, List.filterMap_append]
    exact Site.Minds.perm hminds (hnew ▸ List.perm_append_comm)
  · -- A transaction that joins has no forecast.
    have hsame : forecasts (v.txns ++ [⟨t, none⟩]) = forecasts v.txns := by
      rw [forecasts, List.filterMap_append]
      exact List.append_nil _
    show v.site.Minds (forecasts (v.txns ++ [⟨t, none⟩]))
    rw [hsame]
    exact h
  · -- Only the forecast of this transaction changes.
    obtain ⟨hi, _⟩ := List.getElem?_eq_some_iff.mp hb
    have hminds := minds_demand (Site.Minds.perm h (forecasts_perm hb)) hrun
    have hset : (forecasts (v.txns.set i b')).Perm
        (b'.forecast.toList ++ forecasts (v.txns.eraseIdx i)) := by
      rw [← forecasts_cons]
      exact (List.set_perm_cons_eraseIdx hi b').filterMap _
    show v'.site.Minds (forecasts v'.txns)
    rw [htxns]
    exact Site.Minds.perm hminds hset.symm

/-- So does serving any number of them. -/
theorem Minded.run (h : v.Minded) (hrun : v.run requests = .ok v') : v'.Minded :=
  Outcome.foldlM_rel (fun v v' : Service R => v.Minded → v'.Minded) (fun _ h => h)
    (fun h h' hv => h' (h hv)) (fun hstep hv => hv.step hstep) hrun h

end Service

end TxnPath
