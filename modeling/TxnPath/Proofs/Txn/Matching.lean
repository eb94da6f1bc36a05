import TxnPath.Proofs.Outcome
import TxnPath.Proofs.Txn.Balance
import TxnPath.Proofs.Txn.Steps

/-!
# `TxnPath.Proofs.Txn.Matching`: which statement a result is given to

A result says which partition and dependency it belongs to, not which statement. A round
gives it to the statement of the oldest fragment that owes one for these two, in the
order in which fragments were registered. A `Handover` notes for one result the fragment
that produced it and the statement that it was given to, and `Transaction.Hands` reads
the handovers off the steps of a transaction.

`Round.Matched` is the invariant: per partition and dependency, the statements that
results were given to, followed by the statements that still wait, are the statements
registered, in order; and whatever an entry holds was handed over to its statement.
`Matched.hands` keeps it over any number of results.

`Round.Files` says the same of one step or several, for results of which nobody knows the
source: they leave the queue in order and arrive in the records (`foldlM_accept_files`).
-/

set_option autoImplicit false

namespace TxnPath

/-- Whether a fragment owes its result under a partition and a dependency. -/
def Awaited.isUnder (p : Nat) (d : DependencyId) (a : Awaited) : Bool :=
  a.partition == p && a.dependency == d

/-- What partition and dependency a fragment owes for, as two equations. -/
@[simp] theorem Awaited.isUnder_iff {p : Nat} {d : DependencyId} {a : Awaited} :
    a.isUnder p d = true ↔ a.partition = p ∧ a.dependency = d := by
  simp [isUnder]

/-- A result, from the fragment that produced it to the statement that it was given to. -/
structure Handover where
  /-- The fragment that produced the result. -/
  source : Awaited
  /-- The result itself. -/
  table : ResultTable
  /-- The statement that it was given to. -/
  recipient : Nat

namespace Handover

/-- The result as it was delivered. -/
def delivery (h : Handover) : Delivery := ⟨h.source.partition, h.source.dependency, h.table⟩

/-- Whether the result was delivered under a partition and a dependency. -/
def isUnder (p : Nat) (d : DependencyId) (h : Handover) : Bool := h.source.isUnder p d

end Handover

/-- Whether a result comes under a partition and a dependency. -/
def Delivery.isUnder (p : Nat) (d : DependencyId) (x : Delivery) : Bool :=
  x.partition == p && x.dependency == d

/-- The same of a result that is delivered. -/
@[simp] theorem Delivery.isUnder_iff {p : Nat} {d : DependencyId} {x : Delivery} :
    x.isUnder p d = true ↔ x.partition = p ∧ x.dependency = d := by
  simp [isUnder]

/-- A result, with the statement that it was given to. -/
structure Filing where
  /-- The statement. -/
  statement : Nat
  /-- The result as it was delivered. -/
  result : Delivery

namespace Filing

/-- Whether the result was delivered under a partition and a dependency. -/
def isUnder (p : Nat) (d : DependencyId) (e : Filing) : Bool := e.result.isUnder p d

/-- Whether the result was given to the record of `i` and `d`. -/
def isFor (i : Nat) (d : DependencyId) (e : Filing) : Bool :=
  e.statement == i && e.result.dependency == d

/-- The same of a filed result and the record it is filed in. -/
@[simp] theorem isFor_iff {i : Nat} {d : DependencyId} {e : Filing} :
    e.isFor i d = true ↔ e.statement = i ∧ e.result.dependency = d := by
  simp [isFor]

/-- The result as the record lists it. -/
def row (e : Filing) : Nat × ResultTable := (e.result.partition, e.result.table)

end Filing

namespace Round

variable {r r' : Round} {txn : TxnId} {x : Delivery} {registered : List Awaited}
  {given : List Handover}

/-- The statement that a round gives a result to. -/
def recipient? (r : Round) (x : Delivery) : Option Nat :=
  (r.awaited.find? fun a => a.accepts x).map Awaited.statement

/-- The handovers up to now agree with the order in which fragments were registered and
with what the round holds. -/
structure Matched (registered : List Awaited) (given : List Handover) (r : Round) : Prop where
  statements : ∀ p d, (given.filter (Handover.isUnder p d)).map Handover.recipient
      ++ (r.awaited.filter (Awaited.isUnder p d)).map Awaited.statement
    = (registered.filter (Awaited.isUnder p d)).map Awaited.statement
  results : ∀ i d p table, (p, table) ∈ (r.entry i d).results →
    ∃ h ∈ given, h.recipient = i ∧ h.delivery = ⟨p, d, table⟩

/-- Nothing has been handed over yet. -/
theorem matched_start (hawaited : r.awaited = registered)
    (hresults : ∀ i d, (r.entry i d).results = []) : Matched registered [] r where
  statements := fun p d => by rw [hawaited]; rfl
  results := fun i d p table hmem => by rw [hresults] at hmem; cases hmem

/-- The oldest fragment that owes a result like this one, between the others. The result is filed
under the statement of this fragment, and the queue closes the gap. -/
theorem accept_split (h : r.accept txn x = .ok r') :
    ∃ before a after, r.awaited = before ++ a :: after ∧ r'.awaited = before ++ after
      ∧ (∀ b ∈ before, ¬ b.isUnder x.partition x.dependency = true)
      ∧ a.isUnder x.partition x.dependency = true
      ∧ r.recipient? x = some a.statement
      ∧ ∀ i d, (r'.entry i d).results = (r.entry i d).results
          ++ if i = a.statement ∧ d = x.dependency then [(x.partition, x.table)] else [] := by
  obtain ⟨a, hfind, hbooks, _, hentry⟩ := accept_ok h
  obtain ⟨haccepts, before, after, hsplit, hbefore⟩ := List.find?_eq_some_iff_append.mp hfind
  -- The fragment is the first that the result suits, so none before it is under its key.
  have hunder : ∀ b ∈ before, ¬ b.isUnder x.partition x.dependency = true := by
    intro b hb
    have hnot := hbefore b hb
    rw [Bool.not_eq_true'] at hnot
    rw [Bool.not_eq_true]
    exact hnot
  refine ⟨before, a, after, hsplit, ?_, hunder, haccepts, ?_, fun i d => ?_⟩
  · have herase : r'.awaited = r.awaited.erase a := by rw [hbooks]
    have hnew : a ∉ before := fun ha => hunder a ha haccepts
    rw [herase, hsplit, List.erase_append_right _ hnew, List.erase_cons_head]
  · rw [recipient?, hfind]
    rfl
  · rw [hentry]

/-- A result is refused if no fragment owes one under its partition and dependency. -/
theorem accept_unexpected
    (h : r.awaited.countP (Awaited.isUnder x.partition x.dependency) = 0) :
    r.accept txn x = .error (.round txn (.unexpectedResult x.partition x.dependency)) := by
  have hnone : r.awaited.find? (fun a => a.accepts x) = none :=
    List.find?_eq_none.mpr (List.countP_eq_zero.mp h)
  rw [accept, hnone]

/-- It is taken in if some fragment does, provided that every fragment that owes a result is a
producer in its entry. -/
theorem accept_of_awaited
    (howed : ∀ a ∈ r.awaited, a.partition ∈ (r.entry a.statement a.dependency).producers)
    (h : 0 < r.awaited.countP (Awaited.isUnder x.partition x.dependency)) :
    ∃ r', r.accept txn x = .ok r' := by
  obtain ⟨b, hb, hunder⟩ := List.countP_pos_iff.mp h
  obtain ⟨a, ha⟩ := Option.isSome_iff_exists.mp
    (List.find?_isSome.mpr ⟨b, hb, hunder⟩ : (r.awaited.find? fun a => a.accepts x).isSome = true)
  have haccepts : a.accepts x = true := List.find?_some (p := fun a : Awaited => a.accepts x) ha
  obtain ⟨hpartition, hdependency⟩ := Awaited.accepts_iff.mp haccepts
  have hproducer := howed a (List.mem_of_find?_eq_some ha)
  have hrecord := record?_of_mem_producers hproducer
  rw [hdependency] at hrecord hproducer
  rw [hpartition] at hproducer
  rw [accept, ha]
  simp only [hrecord, DependencyRecord.addResult, if_pos hproducer]
  exact ⟨_, rfl⟩

/-- The second round comes from the first by filing results in order: per partition and
dependency they go to the statements that waited longest, and the record of each gains
them in that order, from the partitions that owed them. -/
structure Files (log : List Filing) (r r' : Round) : Prop where
  statements : ∀ p d, (r.awaited.filter (Awaited.isUnder p d)).map Awaited.statement
    = (log.filter (Filing.isUnder p d)).map Filing.statement
      ++ (r'.awaited.filter (Awaited.isUnder p d)).map Awaited.statement
  partitions : ∀ i d, ((r.awaited.filter (Awaited.isFor i d)).map Awaited.partition).Perm
    (((log.filter (Filing.isFor i d)).map Filing.row).map Prod.fst
      ++ (r'.awaited.filter (Awaited.isFor i d)).map Awaited.partition)
  results : ∀ i d, (r'.entry i d).results
    = (r.entry i d).results ++ (log.filter (Filing.isFor i d)).map Filing.row

/-- Where nothing is filed nothing changes. -/
theorem Files.refl (r : Round) : Files [] r r :=
  ⟨fun _ _ => rfl, fun _ _ => .refl _, fun _ _ => (List.append_nil _).symm⟩

/-- Two runs of filing are one, with the second log behind the first. -/
theorem Files.trans {r'' : Round} {log log' : List Filing} (h : Files log r r')
    (h' : Files log' r' r'') : Files (log ++ log') r r'' where
  statements := fun p d => by
    rw [h.statements, h'.statements, List.filter_append, List.map_append, List.append_assoc]
  partitions := fun i d => by
    rw [List.filter_append, List.map_append, List.map_append, List.append_assoc]
    exact (h.partitions i d).trans ((h'.partitions i d).append_left _)
  results := fun i d => by
    rw [h'.results, h.results, List.filter_append, List.map_append, List.append_assoc]

/-- Filing reads the records and the queue of fragments. -/
theorem Files.congr {m m' : Round} {log : List Filing} (h : Files log m m')
    (hrecords : m.records = r.records) (hawaited : m.awaited = r.awaited)
    (hrecords' : r'.records = m'.records) (hawaited' : r'.awaited = m'.awaited) :
    Files log r r' where
  statements := fun p d => by rw [← hawaited, hawaited', h.statements]
  partitions := fun i d => by rw [← hawaited, hawaited']; exact h.partitions i d
  results := fun i d => by
    rw [entry_congr hrecords', h.results, entry_congr hrecords]

/-- Taking in a result files it: it goes to the first fragment in the queue that owes a result of
this partition and dependency. The queue is seen in two ways here, by where results come from and by
where they are filed. -/
theorem accept_files (h : r.accept txn x = .ok r') :
    ∃ i, r.recipient? x = some i ∧ Files [⟨i, x⟩] r r' := by
  obtain ⟨before, a, after, hsplit, hrest, hbefore, hunder, hrecipient, hresults⟩ :=
    accept_split h
  obtain ⟨hpartition, hdependency⟩ := Awaited.isUnder_iff.mp hunder
  -- Three views of the one step: the queue per partition and dependency, the queue per record, and
  -- the results of the record.
  refine ⟨a.statement, hrecipient, fun p d => ?_, fun i d => ?_, fun i d => ?_⟩
  · rw [hsplit, hrest]
    by_cases hkey : x.isUnder p d = true
    · -- The result is under this key, and nothing in front of its fragment is.
      obtain ⟨rfl, rfl⟩ := Delivery.isUnder_iff.mp hkey
      have hfirst : before.filter (Awaited.isUnder x.partition x.dependency) = [] :=
        List.filter_eq_nil_iff.mpr hbefore
      simp [List.filter_append, hfirst, hunder, Filing.isUnder, hkey]
    · have ha : ¬ a.isUnder p d = true := fun ha => hkey (Delivery.isUnder_iff.mpr
        ⟨hpartition.symm.trans (Awaited.isUnder_iff.mp ha).1,
          hdependency.symm.trans (Awaited.isUnder_iff.mp ha).2⟩)
      simp [List.filter_append, ha, Filing.isUnder, hkey]
  · rw [hsplit, hrest]
    have hkey : Filing.isFor i d ⟨a.statement, x⟩ = a.isFor i d := by
      show (a.statement == i && x.dependency == d) = (a.statement == i && a.dependency == d)
      rw [hdependency]
    by_cases ha : a.isFor i d = true
    · rw [ha] at hkey
      simp only [List.filter_append, List.filter_cons_of_pos ha, List.filter_cons_of_pos hkey,
        List.map_append, List.map_cons, List.filter_nil, List.map_nil, Filing.row, hpartition]
      exact List.perm_middle
    · rw [Bool.not_eq_true] at ha
      rw [ha] at hkey
      simp [List.filter_append, ha, hkey]
  · rw [hresults]
    by_cases hkey : i = a.statement ∧ d = x.dependency
    · obtain ⟨rfl, rfl⟩ := hkey
      simp [Filing.isFor, Filing.row]
    · have hfor : ¬ Filing.isFor i d ⟨a.statement, x⟩ = true := fun hfor =>
        hkey ⟨(Filing.isFor_iff.mp hfor).1.symm, (Filing.isFor_iff.mp hfor).2.symm⟩
      simp [hkey, hfor]

/-- So does taking in any number of results, in order. -/
theorem foldlM_accept_files {xs : List Delivery} (h : xs.foldlM (accept txn) r = .ok r') :
    ∃ log : List Filing, log.map Filing.result = xs ∧ Files log r r' := by
  induction xs generalizing r with
  | nil =>
    cases h
    exact ⟨[], rfl, .refl _⟩
  | cons x rest ih =>
    obtain ⟨m, hm, hrest⟩ := Outcome.foldlM_cons_ok h
    obtain ⟨i, _, hfirst⟩ := accept_files hm
    obtain ⟨log, hlog, hothers⟩ := ih hrest
    exact ⟨⟨i, x⟩ :: log, by rw [List.map_cons, hlog], hfirst.trans hothers⟩

/-- Taking in a result hands it over to the statement at the head of its queue. So the statements
that were given results are, under every key, those registered first. -/
theorem Matched.accept {h : Handover} (hmatched : Matched registered given r)
    (haccept : r.accept txn h.delivery = .ok r')
    (hrecipient : r.recipient? h.delivery = some h.recipient) :
    Matched registered (given ++ [h]) r' := by
  obtain ⟨i, hi, hfiles⟩ := accept_files haccept
  obtain rfl : i = h.recipient := Option.some.inj (hi.symm.trans hrecipient)
  refine ⟨fun p d => ?_, fun i d p table hmem => ?_⟩
  · rw [← hmatched.statements p d, hfiles.statements, List.filter_append, List.map_append,
      List.append_assoc]
    have hkey : Filing.isUnder p d ⟨h.recipient, h.delivery⟩ = h.isUnder p d := rfl
    cases hunder : h.isUnder p d with
    | true => simp [hkey, hunder]
    | false => simp [hkey, hunder]
  · rw [hfiles.results] at hmem
    -- A result that is held was held before, or is the one just handed over.
    rcases List.mem_append.mp hmem with hold | hnew
    · obtain ⟨g, hg, hmatch⟩ := hmatched.results i d p table hold
      exact ⟨g, List.mem_append_left _ hg, hmatch⟩
    · obtain ⟨e, he, hrow⟩ := List.mem_map.mp hnew
      obtain ⟨hmem, hfor⟩ := List.mem_filter.mp he
      obtain rfl := List.mem_singleton.mp hmem
      obtain ⟨rfl, rfl⟩ := Filing.isFor_iff.mp hfor
      obtain ⟨rfl, rfl⟩ := Prod.mk.inj hrow
      exact ⟨h, List.mem_append_right _ List.mem_cons_self, rfl, rfl⟩

/-- The invariant reads what is awaited, and the results that entries hold. -/
theorem Matched.of_fewer (hmatched : Matched registered given r)
    (hawaited : r'.awaited = r.awaited)
    (hresults : ∀ i d, (r'.entry i d).results = (r.entry i d).results
      ∨ (r'.entry i d).results = []) : Matched registered given r' where
  statements := fun p d => by rw [hawaited]; exact hmatched.statements p d
  results := fun i d p table hmem => by
    rcases hresults i d with hsame | hempty
    · exact hmatched.results i d p table (hsame ▸ hmem)
    · rw [hempty] at hmem
      cases hmem

end Round

namespace Transaction

variable {t t' t'' : Transaction} {given : List Handover}

/-- A transaction that takes results in: it is under way and has no error. -/
structure Accepting (t : Transaction) : Prop where
  unfinished : t.isFinished = false
  unfailed : t.hasFailed = false
  started : t.phase t.admission.base = .ok .started

/-- The transaction takes in results one after the other, and gives each of them to a
statement. -/
inductive Hands : Transaction → List Handover → Transaction → Prop
  | nil (t : Transaction) : Hands t [] t
  | cons {t t' t'' : Transaction} {h : Handover} {rest : List Handover}
      (hresult : t.addResult h.delivery = .ok t')
      (hrecipient : t.round.recipient? h.delivery = some h.recipient)
      (hrest : Hands t' rest t'') : Hands t (h :: rest) t''

/-- A transaction that takes results in accepts a result or stops. -/
theorem Accepting.addResult {x : Delivery} (h : t.Accepting) (hok : t.addResult x = .ok t') :
    t'.Accepting ∧ ∃ r, t.round.accept t.admission.txn x = .ok r ∧ t' = t.setRound r := by
  rcases addResult_ok hok with ⟨hclosed, _⟩ | ⟨_, ⟨hinit, _⟩ | ⟨_, r, hr, rfl⟩⟩
  · rw [h.unfinished, h.unfailed] at hclosed
    cases hclosed
  · rw [h.started] at hinit
    cases hinit
  · exact ⟨⟨h.unfinished, h.unfailed, h.started⟩, r, hr, rfl⟩

/-- Results that are taken in have all been given to statements. The list of handovers says of each
result whose it was and to which statement it was given, and the two need not be the same. -/
theorem Accepting.hands {sources : List Awaited} {tables : List (DependencyId × ResultTable)}
    {p : Nat} (h : t.Accepting) (hpartition : ∀ a ∈ sources, a.partition = p)
    (horder : tables.map Prod.fst = sources.map Awaited.dependency)
    (hok : tables.foldlM (fun t (x : DependencyId × ResultTable) =>
      t.addResult ⟨p, x.1, x.2⟩) t = .ok t') :
    t'.Accepting ∧ ∃ given : List Handover, given.map Handover.source = sources
      ∧ given.map (fun g => (g.source.dependency, g.table)) = tables ∧ Hands t given t' := by
  induction tables generalizing t sources with
  | nil =>
    cases hok
    obtain rfl : sources = [] := by simpa using horder.symm
    exact ⟨h, [], rfl, rfl, .nil _⟩
  | cons x rest ih =>
    obtain ⟨d, table⟩ := x
    cases sources with
    | nil => cases horder
    | cons a others =>
      obtain ⟨hd, hothers⟩ := List.cons.inj horder
      obtain ⟨m, hm, hrest⟩ := Outcome.foldlM_cons_ok hok
      obtain ⟨hopen, r, hr, rfl⟩ := h.addResult hm
      obtain ⟨hfinal, given, hsources, htables, hhands⟩ := ih hopen
        (fun b hb => hpartition b (List.mem_cons_of_mem _ hb)) hothers hrest
      -- The result answers `a`, but goes to the statement of the fragment `b` that has owed
      -- one like it for longest.
      obtain ⟨_, b, _, _, _, _, _, hrecipient, _⟩ := Round.accept_split hr
      have hp : a.partition = p := hpartition a List.mem_cons_self
      have hdelivery : (⟨p, d, table⟩ : Delivery)
          = (⟨a, table, b.statement⟩ : Handover).delivery := by
        rw [Handover.delivery, hp, show d = a.dependency from hd]
      rw [hdelivery] at hm hrecipient
      refine ⟨hfinal, ⟨a, table, b.statement⟩ :: given, ?_, ?_, .cons hm hrecipient hhands⟩
      · rw [List.map_cons, hsources]
      · rw [List.map_cons, htables, show d = a.dependency from hd]

/-- Handing results over keeps the invariant and the balance. -/
theorem Hands.matched {registered : List Awaited} {more : List Handover}
    (h : Hands t more t') (hopen : t.Accepting) (hbal : ∃ c, t.round.Balanced c)
    (hmatched : t.round.Matched registered given) :
    (∃ c, t'.round.Balanced c) ∧ t'.round.Matched registered (given ++ more) := by
  induction h generalizing given with
  | nil t => exact ⟨hbal, by rwa [List.append_nil]⟩
  | @cons t t' t'' h rest hresult hrecipient hrest ih =>
    obtain ⟨hopen', r, hr, rfl⟩ := hopen.addResult hresult
    obtain ⟨c, hc⟩ := hbal
    have hsettled := hc.settles (Round.accept_settles hr)
    have hnext := ih hopen' ⟨_, hsettled⟩ (hmatched.accept hr hrecipient)
    rwa [List.append_assoc] at hnext

end Transaction

end TxnPath
