import TxnPath.Proofs.Txn.Records

/-!
# `TxnPath.Proofs.Txn.RoundSteps`: what each step does to the books of a round

One statement per step of a round. Each says which fields the step replaces, by an
equation `r' = { r with … }` that leaves the others alone, and what becomes of the
entries. Nothing after this module opens the steps again.

* `addTask_ok`: adding a task registers the results that its fragments owe
  (`Task.owed`), behind those owed already, and their producers in the entries.
* `accept_ok`: a result settles the oldest fragment that owes one like it, and goes
  into the entry of that fragment's statement. `accept_error` says when it cannot.
* `start_ok`: starting takes in the queued results one after the other and arms the
  latch with what is still outstanding.
* `takeInputs_ok`: taking inputs empties results of entries and changes nothing else.
-/

set_option autoImplicit false

namespace TxnPath

/-- Whether a fragment owes its result to the record of `i` and `d`. -/
def Awaited.isFor (i : Nat) (d : DependencyId) (a : Awaited) : Bool :=
  a.statement == i && a.dependency == d

/-- The results that fragments run at `p` owe, in order. -/
def Fragment.owed (p : Nat) (fs : List Fragment) : List Awaited :=
  fs.filterMap fun f => f.output.map fun d => ⟨p, d, f.index⟩

/-- The results that a task owes, in the order of its fragments. -/
def Task.owed (t : Task) : List Awaited := Fragment.owed t.destination t.fragments

/-- Which statement and dependency a fragment owes a result to, as two equations. -/
@[simp] theorem Awaited.isFor_iff {i : Nat} {d : DependencyId} {a : Awaited} :
    a.isFor i d = true ↔ a.statement = i ∧ a.dependency = d := by
  simp [isFor]

/-- A result suits a fragment by its partition and dependency. The statement is not compared: it is
the fragment that tells which statement a result is of. -/
@[simp] theorem Awaited.accepts_iff {a : Awaited} {x : Delivery} :
    a.accepts x = true ↔ a.partition = x.partition ∧ a.dependency = x.dependency := by
  simp [accepts]

namespace Round

open DependencyRecord

variable {r r' : Round} {txn : TxnId} {x : Delivery}

/-- The tasks that a round keeps, whether they wait for inputs or can go on. -/
def waiting (r : Round) : List Task := r.blocked ++ r.unblocked

/-! ### Registering tasks -/

/-- A fragment without an output owes nothing. -/
theorem registerOutput_none {p : Nat} {f : Fragment} (h : f.output = none) :
    registerOutput p r f = r := by
  simp [registerOutput, h]

/-- A fragment with an output is a producer of its record, is expected, and is queued behind the
fragments that owe already. -/
theorem registerOutput_some {p : Nat} {f : Fragment} {d : DependencyId}
    (h : f.output = some d) :
    registerOutput p r f
      = { r.updateRecord f.index d (fun e => e.addProducer p) with
          expected := r.expected + 1
          awaited := r.awaited ++ [⟨p, d, f.index⟩] } := by
  simp [registerOutput, h]

/-- Registering what fragments produce: what they owe is awaited last, and the entries
gain the partition as a producer once per fragment. -/
theorem foldl_registerOutput (p : Nat) (fs : List Fragment) (r : Round) :
    let r' := fs.foldl (registerOutput p) r
    r' = { r with
        records := r'.records
        expected := r.expected + (Fragment.owed p fs).length
        awaited := r.awaited ++ Fragment.owed p fs }
      ∧ ∀ i d, r'.entry i d = { r.entry i d with
          producers := (r.entry i d).producers
            ++ ((Fragment.owed p fs).filter (Awaited.isFor i d)).map Awaited.partition } := by
  -- The rest of the fragments is registered in the round that the first has left, so the round is
  -- general.
  induction fs generalizing r with
  | nil => simp [Fragment.owed]
  | cons f rest ih =>
    obtain ⟨hbooks, hentry⟩ := ih (registerOutput p r f)
    simp only [List.foldl_cons]
    cases hf : f.output with
    | none =>
      rw [registerOutput_none hf] at hbooks hentry ⊢
      have howed : Fragment.owed p (f :: rest) = Fragment.owed p rest := by
        simp [Fragment.owed, hf]
      rw [howed]
      exact ⟨hbooks, hentry⟩
    | some d =>
      have howed : Fragment.owed p (f :: rest) = ⟨p, d, f.index⟩ :: Fragment.owed p rest := by
        simp [Fragment.owed, hf]
      rw [howed]
      refine ⟨?_, fun i c => ?_⟩
      · rw [hbooks, registerOutput_some hf, updateRecord_eq]
        simp [Nat.add_assoc, Nat.add_comm 1]
      · -- The first fragment is a producer of its own entry; the others follow it there.
        have hself : (registerOutput p r f).entry i c
            = if i = f.index ∧ c = d then (r.entry f.index d).addProducer p
              else r.entry i c := by
          rw [registerOutput_some hf]
          exact entry_updateRecord (keepsKey_addProducer p f.index d) i c
        rw [hentry, hself]
        by_cases hkey : i = f.index ∧ c = d
        · obtain ⟨rfl, rfl⟩ := hkey
          simp [addProducer, Awaited.isFor]
        · have hfor : Awaited.isFor i c ⟨p, d, f.index⟩ = false := by
            rw [Bool.eq_false_iff, ne_eq, Awaited.isFor_iff]
            exact fun h => hkey ⟨h.1.symm, h.2.symm⟩
          simp [hkey, hfor]

/-- Registering what a fragment waits for touches the list of blocked tasks only. Nothing is said of
what that list becomes: the books do not read it. -/
theorem registerInput_spec (task : TaskId) (f : Fragment) (r : Round) :
    let r' := registerInput task r f
    r' = { r with records := r'.records, internal := r'.internal }
      ∧ ∀ i d, r'.entry i d = { r.entry i d with blocked := (r'.entry i d).blocked } := by
  cases hf : f.input with
  | none => simp [registerInput, hf]
  | some d =>
    -- A fragment with an input blocks its task at the record and makes the dependency an internal
    -- one.
    have heq : registerInput task r f
        = { r.updateRecord f.index d (fun e => e.block task) with
            internal := if d ∈ r.internal then r.internal else r.internal ++ [d] } := by
      simp [registerInput, hf]
    refine ⟨?_, fun i c => ?_⟩
    · rw [heq, updateRecord_eq]
    · have hentry : (registerInput task r f).entry i c
          = if i = f.index ∧ c = d then (r.entry f.index d).block task else r.entry i c := by
        rw [heq]
        exact entry_updateRecord (keepsKey_block task f.index d) i c
      rw [hentry]
      split
      · next hkey =>
        -- Blocking writes the list of waiting tasks, which the statement leaves open.
        obtain ⟨rfl, rfl⟩ := hkey
        unfold block
        split <;> rfl
      · rfl

/-- Registering what fragments wait for touches the list of blocked tasks only. -/
theorem foldl_registerInput (task : TaskId) (fs : List Fragment) (r : Round) :
    let r' := fs.foldl (registerInput task) r
    r' = { r with records := r'.records, internal := r'.internal }
      ∧ ∀ i d, r'.entry i d = { r.entry i d with blocked := (r'.entry i d).blocked } := by
  induction fs generalizing r with
  | nil => exact ⟨rfl, fun _ _ => rfl⟩
  | cons f rest ih =>
    obtain ⟨hbooks, hentry⟩ := ih (registerInput task r f)
    obtain ⟨hbooks', hentry'⟩ := registerInput_spec task f r
    simp only [List.foldl_cons]
    refine ⟨?_, fun i d => ?_⟩
    · rw [hbooks, hbooks']
    · rw [hentry, hentry']

/-- Adding a task: what its fragments owe is awaited last and counted as expected, and
the entries gain its destination as a producer once per fragment. The round keeps no
other task than before. -/
theorem addTask_ok {t : Task} {isBlocked : Bool} (h : r.addTask t = .ok (r', isBlocked)) :
    r' = { r with
        records := r'.records
        expected := r.expected + t.owed.length
        awaited := r.awaited ++ t.owed
        internal := r'.internal
        blocked := r'.blocked }
      ∧ (∀ task ∈ r'.waiting, task = t ∨ task ∈ r.waiting)
      ∧ ∀ i d, r'.entry i d = { r.entry i d with
          producers := (r.entry i d).producers
            ++ (t.owed.filter (Awaited.isFor i d)).map Awaited.partition
          blocked := (r'.entry i d).blocked } := by
  obtain ⟨hout, hentryOut⟩ := foldl_registerOutput t.destination t.fragments r
  obtain ⟨hin, hentryIn⟩ := foldl_registerInput t.id t.fragments
    (t.fragments.foldl (registerOutput t.destination) r)
  unfold addTask at h
  simp only at h hout hentryOut hin hentryIn
  -- From here on only what the two passes are known to leave matters.
  generalize t.fragments.foldl (registerOutput t.destination) r = out at *
  generalize t.fragments.foldl (registerInput t.id) out = both at *
  split at h
  · split at h
    · cases h
    · cases h
      refine ⟨?_, fun task htask => ?_, fun i d => ?_⟩
      · rw [hin, hout]
        rfl
      · have hblocked : both.blocked = r.blocked := by rw [hin, hout]
        have hunblocked : both.unblocked = r.unblocked := by rw [hin, hout]
        simp only [waiting, List.mem_append, List.mem_singleton, hblocked, hunblocked] at htask ⊢
        rcases htask with (hold | hnew) | hold
        · exact .inr (.inl hold)
        · exact .inl hnew
        · exact .inr (.inr hold)
      · show both.entry i d = _
        rw [hentryIn, hentryOut]
        rfl
  · cases h
    refine ⟨?_, fun task htask => .inr ?_, fun i d => ?_⟩
    · rw [hout]
      rfl
    · have hsame : r'.waiting = r.waiting := by rw [hout]; rfl
      exact hsame ▸ htask
    · rw [hentryOut]
      rfl

/-- Adding a task can only fail because a task of its number is blocked already. -/
theorem addTask_error {t : Task} {f : RoundFault} (h : r.addTask t = .error f) :
    f = .duplicateTask t.id := by
  unfold addTask at h
  simp only at h
  split at h
  · split at h
    · cases h; rfl
    · cases h
  · cases h

/-! ### Taking in results -/

/-- A result that arrives before the round starts is queued, and nothing else is touched. -/
theorem enqueue_ok (h : r.enqueue x = .ok r') : r' = { r with queued := r.queued ++ [x] } := by
  unfold enqueue at h
  split at h
  · cases h
  · cases h
    rfl

/-- Unblocking moves tasks between the lists of those that wait and touches no books. -/
theorem unblock_eq (r : Round) (task : TaskId) :
    r.unblock task
      = { r with
          blocked := (r.unblock task).blocked
          unblocked := (r.unblock task).unblocked } := by
  unfold unblock
  split
  · rfl
  · split <;> rfl

/-- Letting tasks go on moves them between the two lists of tasks. All other fields are those of the
round before. -/
theorem foldl_unblock_eq (tasks : List TaskId) (r : Round) :
    tasks.foldl unblock r
      = { r with
          blocked := (tasks.foldl unblock r).blocked
          unblocked := (tasks.foldl unblock r).unblocked } := by
  induction tasks generalizing r with
  | nil => rfl
  | cons task rest ih =>
    simp only [List.foldl_cons]
    have hfirst := unblock_eq r task
    have hrest := ih (r.unblock task)
    generalize r.unblock task = m at *
    generalize rest.foldl unblock m = m' at *
    rw [hrest, hfirst]

/-- Letting tasks go on brings no new ones. They only move from those blocked to those unblocked. -/
theorem foldl_unblock_waiting (tasks : List TaskId) (r : Round) :
    ∀ task ∈ (tasks.foldl unblock r).waiting, task ∈ r.waiting := by
  induction tasks generalizing r with
  | nil => exact fun _ h => h
  | cons id rest ih =>
    intro task htask
    have hmem := ih (r.unblock id) task htask
    unfold unblock at hmem
    split at hmem
    · exact hmem
    · next t ht =>
      split at hmem
      · simp only [waiting, List.mem_append, List.mem_singleton] at hmem ⊢
        -- A task that waits after one step waited before it: it stayed blocked, or was unblocked
        -- already, or is the one just moved.
        rcases hmem with hblocked | hunblocked | rfl
        · exact .inl (List.mem_filter.mp hblocked).1
        · exact .inr hunblocked
        · exact .inl (List.mem_of_find?_eq_some ht)
      · exact hmem

/-- Handing out blocked tasks changes two fields of a record. -/
theorem release_eq (e : DependencyRecord) :
    e.release.1 = { e with
      blocked := e.release.1.blocked
      isReleased := e.release.1.isReleased } := by
  unfold release
  split <;> rfl

/-- The books after the record of the settled fragment has been replaced by one that has
gained the result, and that may have handed out its blocked tasks. -/
private theorem accept_books {a : Awaited} {gained : DependencyRecord} (tasks : List TaskId)
    (hgained : gained.isFor a.statement x.dependency = true)
    (hresult : gained = { r.entry a.statement x.dependency with
      results := (r.entry a.statement x.dependency).results ++ [(x.partition, x.table)]
      blocked := gained.blocked
      isReleased := gained.isReleased })
    (hr' : r' = tasks.foldl unblock { r.updateRecord a.statement x.dependency fun _ => gained with
      awaited := r.awaited.erase a
      received := r.received + 1
      latch := r.latch.map Latch.countDown }) :
    r' = { r with
        records := r'.records
        awaited := r.awaited.erase a
        received := r.received + 1
        latch := r.latch.map Latch.countDown
        blocked := r'.blocked
        unblocked := r'.unblocked }
      ∧ (∀ task ∈ r'.waiting, task ∈ r.waiting)
      ∧ ∀ i d, r'.entry i d = { r.entry i d with
          results := (r.entry i d).results
            ++ if i = a.statement ∧ d = x.dependency then [(x.partition, x.table)] else []
          blocked := (r'.entry i d).blocked
          isReleased := (r'.entry i d).isReleased } := by
  -- Tasks that go on do not touch records.
  have hentry : ∀ i d, r'.entry i d
      = (r.updateRecord a.statement x.dependency fun _ => gained).entry i d := by
    intro i d
    rw [hr', foldl_unblock_eq]
    rfl
  have hwaiting : ∀ task ∈ r'.waiting, task ∈ r.waiting := by
    intro task htask
    rw [hr', updateRecord_eq] at htask
    have hmem := foldl_unblock_waiting tasks _ task htask
    exact hmem
  refine ⟨?_, hwaiting, fun i d => ?_⟩
  · rw [foldl_unblock_eq, updateRecord_eq] at hr'
    generalize tasks.foldl unblock _ = m at hr'
    rw [hr']
  · rw [hentry, entry_updateRecord (keepsKey_const hgained)]
    by_cases hkey : i = a.statement ∧ d = x.dependency
    · obtain ⟨rfl, rfl⟩ := hkey
      simpa using hresult
    · simp [hkey]

/-- Taking in a result settles the oldest fragment that owes one like it. The result
goes into the entry of that fragment's statement; the latch counts down. No new task
comes. -/
theorem accept_ok (h : r.accept txn x = .ok r') :
    ∃ a, r.awaited.find? (fun a => a.accepts x) = some a
      ∧ r' = { r with
          records := r'.records
          awaited := r.awaited.erase a
          received := r.received + 1
          latch := r.latch.map Latch.countDown
          blocked := r'.blocked
          unblocked := r'.unblocked }
      ∧ (∀ task ∈ r'.waiting, task ∈ r.waiting)
      ∧ ∀ i d, r'.entry i d = { r.entry i d with
          results := (r.entry i d).results
            ++ if i = a.statement ∧ d = x.dependency then [(x.partition, x.table)] else []
          blocked := (r'.entry i d).blocked
          isReleased := (r'.entry i d).isReleased } := by
  unfold accept at h
  split at h
  · cases h
  · next a ha =>
    split at h
    · cases h
    · next e he =>
      have hentry := entry_of_record? he
      have hfor := isFor_of_record? he
      split at h
      · cases h
      · next gained hgained =>
        unfold DependencyRecord.addResult at hgained
        split at hgained
        · cases hgained
          refine ⟨a, ha, ?_⟩
          -- The record hands out its tasks only if some task is blocked.
          by_cases hblocked : r.blocked.isEmpty
          · simp only [hblocked, if_true] at h
            cases h
            refine accept_books [] ?_ ?_ rfl
            · exact hfor
            · rw [hentry]
          · simp only [hblocked, Bool.false_eq_true, if_false] at h
            cases h
            refine accept_books _ ?_ ?_ rfl
            · rw [release_eq]
              exact hfor
            · rw [hentry]
              exact release_eq _
        · cases hgained

/-- A result can be taken in wherever a fragment owes one like it, provided that every
fragment that owes a result is a producer in its entry. -/
theorem accept_error {f : Fault} (h : r.accept txn x = .error f)
    (howed : ∀ a ∈ r.awaited, a.partition ∈ (r.entry a.statement a.dependency).producers) :
    f = .round txn (.unexpectedResult x.partition x.dependency) := by
  unfold accept at h
  split at h
  · cases h; rfl
  · next a ha =>
    -- Some fragment owes a result like this one. Its record lists the partition as a producer, so
    -- that the record is found and takes the result in: there is no other fault.
    have haccepts : a.accepts x = true := List.find?_some (p := fun a : Awaited => a.accepts x) ha
    rw [Awaited.accepts_iff] at haccepts
    have hproducer := howed a (List.mem_of_find?_eq_some ha)
    have hrecord := record?_of_mem_producers hproducer
    rw [haccepts.1, haccepts.2] at hproducer
    rw [haccepts.2] at hrecord
    rw [hrecord] at h
    simp only [DependencyRecord.addResult, if_pos hproducer] at h
    cases h

/-! ### Starting a round, and taking inputs -/

/-- Starting a round fixes the order of outputs, takes in the queued results while there
is no latch, and arms the latch with what is still outstanding. -/
theorem start_ok {failed : Bool} (h : r.start txn failed = .ok r') :
    ∃ m, r.queued.foldlM (accept txn) { r with order := r.outputs, queued := [] } = .ok m
      ∧ r.order = [] ∧ r.batchSize ≠ 0 ∧ r.outputs.length = r.batchSize
      ∧ r' = { m with latch := some ⟨if failed then 0 else m.expected - m.received⟩ } := by
  unfold start at h
  split at h
  · cases h
  · next horder =>
    split at h
    · cases h
    · next hbatch =>
      split at h
      · cases h
      · next houtputs =>
        split at h
        · cases h
        · next m hm =>
          split at h
          · cases h
          · split at h
            · cases h
            · cases h
              -- All guards were passed; what is left is the run over the queued results and the
              -- latch.
              exact ⟨m, hm, by simpa using horder, hbatch, by simpa using houtputs, rfl⟩

/-- Emptying the results of a listed record empties its own entry. -/
private theorem entry_emptied {i : Nat} {d : DependencyId} {e : DependencyRecord}
    (he : r.record? i d = some e) (j : Nat) (c : DependencyId) :
    let r' := r.updateRecord i d fun _ => { e with results := [] }
    r'.entry j c = r.entry j c ∨ r'.entry j c = { r.entry j c with results := [] } := by
  have hfor : e.isFor i d = true := isFor_of_record? he
  have hkeep : KeepsKey i d fun _ => { e with results := [] } := fun _ _ => hfor
  simp only [entry_updateRecord hkeep]
  split
  · next hkey =>
    obtain ⟨rfl, rfl⟩ := hkey
    rw [entry_of_record? he]
    exact .inr rfl
  · exact .inl rfl

/-- Taking the inputs of a task empties the results of entries and changes nothing
else. -/
theorem takeInputs_ok {base : Nat} {task : TaskId} {fs : List Fragment}
    {taken taken' : List (DependencyId × List ResultTable)}
    (h : takeInputs txn base task r taken fs = .ok (r', taken')) :
    r' = { r with records := r'.records }
      ∧ ∀ i d, r'.entry i d = r.entry i d ∨ r'.entry i d = { r.entry i d with results := [] } := by
  induction fs generalizing r taken with
  | nil =>
    cases h
    exact ⟨rfl, fun _ _ => .inl rfl⟩
  | cons f rest ih =>
    unfold takeInputs at h
    split at h
    · exact ih h
    · next d _ =>
      split at h
      · exact ih h
      · split at h
        · cases h
        · next e he =>
          split at h
          -- Only here is something taken. The record is emptied, and later fragments empty it again
          -- or leave it.
          · obtain ⟨hbooks, hentry⟩ := ih h
            have hself := entry_emptied he
            refine ⟨?_, fun i c => ?_⟩
            · rw [hbooks, updateRecord_eq]
            · rcases hentry i c with hsame | hempty
              · rw [hsame]
                exact hself i c
              · rw [hempty]
                rcases hself i c with hsame | hempty'
                · exact .inr (by rw [hsame])
                · exact .inr (by rw [hempty'])
          · cases h

end Round

end TxnPath
