import Mathlib.Data.List.Nodup
import TxnPath.Proofs.Txn.Balance

/-!
# `TxnPath.Proofs.Txn.Release`: when a blocked task can go on

A task waits for the dependencies of statements that its fragments consume
(`Task.Consumes`). It can go on as soon as a result comes that leaves all their records
complete. A record hands its blocked tasks out once, so a task that is passed over then is
not looked at again by this record.

`Round.Watched` is the invariant by which no task is passed over that could go on:

* no blocked task is ready (`unready`);
* a blocked task is on the list of every record that it waits for, unless that record has
  handed out its list (`listed`), which it does only when nothing is owed to it any more
  (`drained`, `room`).

Taking in results and taking inputs keep it (`Watched.accept`, `Watched.emptied`).
Before any result has come a round is `Prepared`, which adding tasks keeps, and which is
where the invariant starts from (`Prepared.watched`).
-/

set_option autoImplicit false

namespace TxnPath

/-- A fragment of the task consumes the tables of a dependency of a statement. -/
def Task.Consumes (t : Task) (i : Nat) (d : DependencyId) : Prop :=
  ∃ f ∈ t.fragments, f.index = i ∧ f.input = some d

/-- A task has inputs if one of its fragments consumes some dependency of its statement. -/
theorem Task.hasInputs_iff {t : Task} : t.hasInputs = true ↔ ∃ i d, t.Consumes i d := by
  rw [hasInputs, List.any_eq_true]
  constructor
  · rintro ⟨f, hf, hinput⟩
    obtain ⟨d, hd⟩ := Option.isSome_iff_exists.mp hinput
    exact ⟨f.index, d, f, hf, rfl, hd⟩
  · rintro ⟨_, d, f, hf, _, hd⟩
    exact ⟨f, hf, Option.isSome_iff_exists.mpr ⟨d, hd⟩⟩

/-- A fragment of the task produces a dependency of a statement. -/
def Task.Produces (t : Task) (i : Nat) (d : DependencyId) : Prop :=
  ∃ f ∈ t.fragments, f.index = i ∧ f.output = some d

/-- What a task produces is what its fragments owe. -/
theorem Task.produces_iff {t : Task} {i : Nat} {d : DependencyId} :
    t.Produces i d ↔ ∃ a ∈ t.owed, a.isFor i d = true := by
  constructor
  · rintro ⟨f, hf, rfl, hd⟩
    refine ⟨⟨t.destination, d, f.index⟩, List.mem_filterMap.mpr ⟨f, hf, ?_⟩, ?_⟩
    · rw [hd]
      rfl
    · exact Awaited.isFor_iff.mpr ⟨rfl, rfl⟩
  · rintro ⟨a, ha, hfor⟩
    obtain ⟨f, hf, hfa⟩ := List.mem_filterMap.mp ha
    obtain ⟨c, hc, rfl⟩ := Option.map_eq_some_iff.mp hfa
    obtain ⟨rfl, rfl⟩ := Awaited.isFor_iff.mp hfor
    exact ⟨f, hf, rfl, hc⟩

namespace DependencyRecord

variable {e : DependencyRecord}

/-- A record is complete that has producers and as many results. -/
theorem isComplete_iff :
    e.isComplete = true ↔ e.producers ≠ [] ∧ e.results.length = e.producers.length := by
  simp [isComplete]

/-- A record hands out its tasks if it has not yet done so, holds some, and is complete. -/
theorem hasReadyTasks_iff :
    e.hasReadyTasks = true ↔ e.isReleased = false ∧ e.blocked ≠ [] ∧ e.isComplete = true := by
  simp [hasReadyTasks, and_assoc]

/-- The record after a result has come. -/
def gain (e : DependencyRecord) (x : Delivery) : DependencyRecord :=
  { e with results := e.results ++ [(x.partition, x.table)] }

/-- A record that can hand out its tasks does so; any other stays as it is. -/
theorem release_cases (e : DependencyRecord) :
    e.hasReadyTasks = false ∧ e.release = (e, none)
      ∨ e.hasReadyTasks = true
        ∧ e.release = ({ e with blocked := [], isReleased := true }, some e.blocked) := by
  unfold release
  cases h : e.hasReadyTasks with
  | false => exact .inl ⟨rfl, rfl⟩
  | true => exact .inr ⟨rfl, rfl⟩

end DependencyRecord

namespace Round

open DependencyRecord

variable {r r' : Round} {txn : TxnId} {x : Delivery} {i : Nat} {d : DependencyId}

/-- The entry of a key is of the key, whether it is listed or fresh. -/
theorem isFor_entry (r : Round) (i : Nat) (d : DependencyId) :
    (r.entry i d).isFor i d = true := by
  cases h : r.record? i d with
  | none => simp [entry, h]
  | some e => exact entry_of_record? h ▸ isFor_of_record? h

/-- A fresh record has no producers and is not complete, so that looking at the entry comes to the
same as looking at what is listed. -/
theorem any_isComplete : (r.record? i d).any isComplete = (r.entry i d).isComplete := by
  unfold entry
  cases r.record? i d with
  | none => rfl
  | some e => rfl

/-- A task is ready if the entry of each dependency that it consumes is complete. -/
theorem inputsReady_iff {t : Task} :
    r.inputsReady t = true ↔ ∀ i d, t.Consumes i d → (r.entry i d).isComplete = true := by
  rw [inputsReady, List.all_eq_true]
  constructor
  · rintro hall i d ⟨f, hf, rfl, hinput⟩
    have hready := hall f hf
    rw [hinput] at hready
    exact any_isComplete.symm.trans hready
  · intro hall f hf
    cases hinput : f.input with
    | none => rfl
    | some d => exact any_isComplete.trans (hall f.index d ⟨f, hf, rfl, hinput⟩)

/-- A task without inputs can always go on. -/
theorem inputsReady_of_no_inputs {t : Task} (h : t.hasInputs = false) :
    r.inputsReady t = true := by
  refine inputsReady_iff.mpr fun i d hconsumes => ?_
  rw [Task.hasInputs_iff.mpr ⟨i, d, hconsumes⟩] at h
  cases h

/-- A task that cannot go on waits for a record that is not complete. -/
theorem exists_incomplete {t : Task} (h : r.inputsReady t = false) :
    ∃ i d, t.Consumes i d ∧ (r.entry i d).isComplete = false := by
  by_contra hnone
  have hready : r.inputsReady t = true := inputsReady_iff.mpr fun i d hconsumes => by
    by_contra hincomplete
    exact hnone ⟨i, d, hconsumes, by simpa using hincomplete⟩
  rw [hready] at h
  cases h

/-! ### Letting tasks go on -/

/-- The second round is the first one after tasks have gone on: they were moved between
the two lists of tasks, and all of them were ready. -/
structure Moved (r r' : Round) : Prop where
  records : r'.records = r.records
  tasks : r'.waiting.Perm r.waiting
  blocked : r'.blocked.Sublist r.blocked
  unblocked : ∀ t ∈ r'.unblocked, t ∈ r.unblocked ∨ r.inputsReady t = true

/-- Readiness depends on the records alone. -/
theorem inputsReady_congr (h : r'.records = r.records) (t : Task) :
    r'.inputsReady t = r.inputsReady t := by
  unfold inputsReady record?
  rw [h]

/-- Nothing has moved. -/
theorem Moved.refl (r : Round) : Moved r r :=
  ⟨rfl, .refl _, .refl _, fun _ h => .inl h⟩

/-- Tasks that were moved twice over were moved. -/
theorem Moved.trans {r'' : Round} (h : Moved r r') (h' : Moved r' r'') : Moved r r'' where
  records := h'.records.trans h.records
  tasks := h'.tasks.trans h.tasks
  blocked := h'.blocked.trans h.blocked
  unblocked := fun t ht => by
    rcases h'.unblocked t ht with hold | hready
    · exact h.unblocked t hold
    · exact .inr (inputsReady_congr h.records t ▸ hready)

/-- The blocked task of a number can go on if it is ready. Numbers have to be distinct here: tasks
are taken off the list by number, so that another task of that number would be lost. -/
theorem unblock_moved (hdistinct : (r.blocked.map Task.id).Nodup) (id : TaskId) :
    Moved r (r.unblock id)
      ∧ ∀ t ∈ (r.unblock id).blocked, t.id = id → r.inputsReady t = false := by
  unfold unblock
  split
  · next hnone =>
    refine ⟨.refl r, fun t ht hid => ?_⟩
    exact absurd hid (by simpa using List.find?_eq_none.mp hnone t ht)
  · next t hfind =>
    have hmem := List.mem_of_find?_eq_some hfind
    have hid : t.id = id := by simpa using List.find?_some hfind
    have honly : ∀ u ∈ r.blocked, u.id = id → u = t := fun u hu huid =>
      List.inj_on_of_nodup_map hdistinct hu hmem (huid.trans hid.symm)
    split
    · next hready =>
      -- Numbers are distinct, so that the task alone leaves the list.
      have herase : r.blocked.filter (fun u => u.id != id) = r.blocked.erase t := by
        rw [(List.Nodup.of_map _ hdistinct).erase_eq_filter]
        refine List.filter_congr fun u hu => ?_
        by_cases hsame : u = t
        · simp [hsame, hid]
        · have hother : u.id ≠ id := fun huid => hsame (honly u hu huid)
          rw [bne_iff_ne.mpr hother, bne_iff_ne.mpr hsame]
      refine ⟨⟨rfl, ?_, List.filter_sublist, fun u hu => ?_⟩, fun u hu huid => ?_⟩
      · show (r.blocked.filter _ ++ (r.unblocked ++ [t])).Perm (r.blocked ++ r.unblocked)
        rw [herase, ← List.append_assoc]
        refine List.perm_append_singleton t _ |>.trans ?_
        exact (List.perm_cons_erase hmem).symm.append_right r.unblocked
      · rcases List.mem_append.mp hu with hold | hnew
        · exact .inl hold
        · exact .inr (List.mem_singleton.mp hnew ▸ hready)
      · exact absurd huid (by simpa using (List.mem_filter.mp hu).2)
    · next hready =>
      refine ⟨.refl r, fun u hu huid => ?_⟩
      rw [honly u hu huid]
      simpa using hready

/-- Every blocked task of the given numbers can go on if it is ready. -/
theorem foldl_unblock_moved (ids : List TaskId) (hdistinct : (r.blocked.map Task.id).Nodup) :
    Moved r (ids.foldl unblock r)
      ∧ ∀ t ∈ (ids.foldl unblock r).blocked, t.id ∈ ids → r.inputsReady t = false := by
  induction ids generalizing r with
  | nil => exact ⟨.refl r, fun _ _ h => absurd h List.not_mem_nil⟩
  | cons id rest ih =>
    obtain ⟨hfirst, hpassed⟩ := unblock_moved hdistinct id
    obtain ⟨hrest, hlater⟩ := ih (hdistinct.sublist (hfirst.blocked.map _))
    simp only [List.foldl_cons]
    refine ⟨hfirst.trans hrest, fun t ht hid => ?_⟩
    rcases List.mem_cons.mp hid with hid | hid
    · exact hpassed t (hrest.blocked.subset ht) hid
    · exact inputsReady_congr hfirst.records t ▸ hlater t ht hid

/-! ### Taking in a result -/

/-- What a record hands out when a result has come to it. Nothing is handed out while no
task is blocked. -/
def handOut (r : Round) (e : DependencyRecord) : DependencyRecord × Option (List TaskId) :=
  if r.blocked.isEmpty then (e, none) else e.release

/-- The round after a result has been given to the fragment `a`, whose record has become
`e`, and before tasks go on. -/
def settled (r : Round) (a : Awaited) (x : Delivery) (e : DependencyRecord) : Round :=
  { r.updateRecord a.statement x.dependency fun _ => e with
    awaited := r.awaited.erase a
    received := r.received + 1
    latch := r.latch.map Latch.countDown }

/-- Taking in a result, as one equation: the oldest fragment that owes one like it is settled, and
the record hands out its tasks if the result completes it. -/
theorem accept_eq (h : r.accept txn x = .ok r') :
    ∃ a, r.awaited.find? (fun a => a.accepts x) = some a
      ∧ let handed := r.handOut ((r.entry a.statement x.dependency).gain x)
        r' = (handed.2.getD []).foldl unblock (r.settled a x handed.1) := by
  unfold accept at h
  split at h
  · cases h
  · next a ha =>
    refine ⟨a, ha, ?_⟩
    split at h
    · cases h
    · next e he =>
      -- The record is listed, as its producers are, so the entry is what was looked up.
      rw [entry_of_record? he]
      split at h
      · cases h
      · next gained hgained =>
        unfold DependencyRecord.addResult at hgained
        split at hgained
        · cases hgained
          cases h
          rfl
        · cases hgained

/-- A record that has handed out nothing yet keeps its list, or it is complete and hands
all of it out. It has to, once it is complete and some task is blocked. -/
theorem handOut_spec (r : Round) {e : DependencyRecord} (hkept : e.isReleased = false) :
    let handed := r.handOut e
    (∀ i d, e.isFor i d = true → handed.1.isFor i d = true)
      ∧ (handed.1.isReleased = false → handed.1.blocked = e.blocked)
      ∧ (handed.1.isReleased = true → handed.1.isComplete = true)
      ∧ (handed.1.isComplete = true → r.blocked ≠ [] → e.blocked ⊆ handed.2.getD []) := by
  unfold handOut
  split
  -- If no task waits there is nobody to hand out, and the record stays as it is.
  · next hempty =>
    refine ⟨fun _ _ h => h, fun _ => rfl, fun hreleased => ?_, fun _ hblocked => ?_⟩
    · rw [hkept] at hreleased
      cases hreleased
    · exact absurd (List.isEmpty_iff.mp hempty) hblocked
  · rcases release_cases e with ⟨hnone, heq⟩ | ⟨hready, heq⟩ <;> rw [heq]
    -- The record was not ready to hand out: it is incomplete, or no task is on its list.
    · refine ⟨fun _ _ h => h, fun _ => rfl, fun hreleased => ?_, fun hcomplete _ id hid => ?_⟩
      · rw [hkept] at hreleased
        cases hreleased
      · rw [hasReadyTasks_iff.mpr ⟨hkept, List.ne_nil_of_mem hid, hcomplete⟩] at hnone
        cases hnone
    · exact ⟨fun _ _ h => h, (nomatch ·), fun _ => (hasReadyTasks_iff.mp hready).2.2,
        fun _ _ => List.Subset.refl _⟩

/-! ### Taking inputs -/

/-- The second round is the first one after inputs were taken: records have lost their
results, and nothing else has changed. -/
structure Emptied (r r' : Round) : Prop where
  blocked : r'.blocked = r.blocked
  unblocked : r'.unblocked = r.unblocked
  awaited : r'.awaited = r.awaited
  lists : ∀ i d, (r'.entry i d).blocked = (r.entry i d).blocked
  isReleased : ∀ i d, (r'.entry i d).isReleased = (r.entry i d).isReleased
  producers : ∀ i d, (r'.entry i d).producers = (r.entry i d).producers
  results : ∀ i d, (r'.entry i d).results = (r.entry i d).results ∨ (r'.entry i d).results = []

/-- Taking inputs empties records and does nothing else. -/
theorem takeInputs_emptied {base : Nat} {task : TaskId} {fs : List Fragment}
    {taken taken' : List (DependencyId × List ResultTable)}
    (hok : takeInputs txn base task r taken fs = .ok (r', taken')) : Emptied r r' := by
  obtain ⟨hbooks, hentry⟩ := takeInputs_ok hok
  refine ⟨by rw [hbooks], by rw [hbooks], by rw [hbooks], ?_, ?_, ?_, ?_⟩ <;> intro i d
  · rcases hentry i d with h | h <;> rw [h]
  · rcases hentry i d with h | h <;> rw [h]
  · rcases hentry i d with h | h <;> rw [h]
  · rcases hentry i d with h | h
    · exact .inl (by rw [h])
    · exact .inr (by rw [h])

namespace Emptied

/-- The waiting tasks are the same when records were emptied. -/
theorem waiting (h : Emptied r r') : r'.waiting = r.waiting := by
  rw [Round.waiting, Round.waiting, h.blocked, h.unblocked]

/-- Nobody owes more or less for it. -/
theorem pending (h : Emptied r r') (i : Nat) (d : DependencyId) :
    r'.pending i d = r.pending i d := by
  rw [Round.pending, Round.pending, h.awaited]

/-- Records hold no more results than before. -/
theorem held_le (h : Emptied r r') (i : Nat) (d : DependencyId) : r'.held i d ≤ r.held i d := by
  rw [held, held]
  rcases h.results i d with hsame | hempty
  · simp [hsame]
  · simp [hempty]

/-- A record is complete only if it was so before. -/
theorem isComplete (h : Emptied r r') (hcomplete : (r'.entry i d).isComplete = true) :
    (r.entry i d).isComplete = true := by
  obtain ⟨hproducers, hlength⟩ := isComplete_iff.mp hcomplete
  rw [h.producers] at hproducers hlength
  rcases h.results i d with hsame | hempty
  · exact isComplete_iff.mpr ⟨hproducers, hsame ▸ hlength⟩
  · rw [hempty, List.length_nil] at hlength
    exact absurd (List.length_eq_zero_iff.mp hlength.symm) hproducers

end Emptied

/-- Inputs are taken from records that a fragment names, and from no other. It is by induction on
the fragments, each of which empties one record at most. -/
theorem entry_takeInputs_of_not_named {base : Nat} {task : TaskId} {fs : List Fragment}
    {taken taken' : List (DependencyId × List ResultTable)}
    (hok : takeInputs txn base task r taken fs = .ok (r', taken'))
    (hnot : ∀ f ∈ fs, ¬(f.index = i ∧ f.input = some d)) : r'.entry i d = r.entry i d := by
  induction fs generalizing r taken with
  | nil =>
    cases hok
    rfl
  | cons f rest ih =>
    obtain ⟨hfirst, hrest⟩ := List.forall_mem_cons.mp hnot
    unfold takeInputs at hok
    split at hok
    · exact ih hok hrest
    · next c hinput =>
      split at hok
      · exact ih hok hrest
      · split at hok
        · cases hok
        · next e he =>
          split at hok
          · rw [ih hok hrest]
            have hfor : e.isFor f.index c = true := isFor_of_record? he
            -- What is emptied is the record of the first fragment, which is not the one in
            -- question.
            have hother : ¬(i = f.index ∧ d = c) := fun h => hfirst ⟨h.1.symm, h.2 ▸ hinput⟩
            have hkeeps : KeepsKey f.index c fun _ => (e.takeResults base).1 := keepsKey_const hfor
            exact (entry_updateRecord hkeeps i d).trans (if_neg hother)
          · cases hok

/-! ### No task is passed over -/

/-- No blocked task could go on, and none will be passed over. It holds of a round at any time, and
is what the taking in of a result relies on. -/
structure Watched (r : Round) : Prop where
  distinct : (r.blocked.map Task.id).Nodup
  /-- A blocked task lacks an input. -/
  unready : ∀ t ∈ r.blocked, r.inputsReady t = false
  /-- It is on the list of every record that it consumes, until the record has handed out its list.
  -/
  listed : ∀ t ∈ r.blocked, ∀ i d, t.Consumes i d → (r.entry i d).isReleased = false →
    t.id ∈ (r.entry i d).blocked
  /-- A record that has handed out its list is owed nothing more. -/
  drained : ∀ i d, (r.entry i d).isReleased = true → r.pending i d = 0
  /-- A record does not get more results than it has producers. -/
  room : ∀ i d, r.held i d + r.pending i d ≤ (r.entry i d).producers.length

/-- Taking in results leaves no more owed than before. -/
theorem Settles.pending_le (h : r.Settles r') (i : Nat) (d : DependencyId) :
    r'.pending i d ≤ r.pending i d := by
  have hconserved := h.conserved i d
  have hgained := h.gained i d
  omega

namespace Watched

/-- A complete record is owed nothing. -/
theorem pending_eq_zero (h : r.Watched) (hcomplete : (r.entry i d).isComplete = true) :
    r.pending i d = 0 := by
  have hroom := h.room i d
  have hheld : r.held i d = (r.entry i d).producers.length := (isComplete_iff.mp hcomplete).2
  omega

/-- The second round is the first one after a result. The record of `i` and `d`, which had
handed out nothing yet, has become `e`, and the others are as they were. The tasks that `e`
has handed out have gone on if they were ready. -/
structure Handed (r r' : Round) (i : Nat) (d : DependencyId) (e : DependencyRecord) : Prop where
  kept : (r.entry i d).isReleased = false
  list : e.isReleased = false → e.blocked = (r.entry i d).blocked
  complete : e.isReleased = true → e.isComplete = true
  entry : ∀ j c, r'.entry j c = if j = i ∧ c = d then e else r.entry j c
  passed : ∀ t ∈ r'.blocked, e.isComplete = true → t.id ∈ (r.entry i d).blocked →
    r'.inputsReady t = false
  tasks : r'.waiting.Perm r.waiting
  blocked : r'.blocked.Sublist r.blocked
  unblocked : ∀ t ∈ r'.unblocked, t ∈ r.unblocked ∨ r'.inputsReady t = true

/-- Every result comes to such a record: something was still owed to it. A record that has handed
out its tasks is not owed anything, so that the one at hand has not, and does so now if this was its
last result. -/
theorem accept_handed (h : r.Watched) (hok : r.accept txn x = .ok r') :
    ∃ i d e, Handed r r' i d e := by
  obtain ⟨a, ha, hr'⟩ := accept_eq hok
  have haccepts : a.accepts x = true := List.find?_some (p := fun a : Awaited => a.accepts x) ha
  have hdependency : a.dependency = x.dependency := (Awaited.accepts_iff.mp haccepts).2
  have howed : 0 < r.pending a.statement x.dependency := List.countP_pos_iff.mpr
    ⟨a, List.mem_of_find?_eq_some ha, Awaited.isFor_iff.mpr ⟨rfl, hdependency⟩⟩
  have hkept : (r.entry a.statement x.dependency).isReleased = false := by
    refine Bool.eq_false_iff.mpr fun hreleased => ?_
    have hnothing := h.drained a.statement x.dependency hreleased
    omega
  obtain ⟨hkey, hlist, hcomplete, hall⟩ :=
    handOut_spec r (e := (r.entry a.statement x.dependency).gain x) hkept
  generalize r.handOut ((r.entry a.statement x.dependency).gain x) = handed at *
  obtain ⟨e, ids⟩ := handed
  -- The round before tasks go on: the record has changed, and the lists of tasks have not.
  have hentry := entry_updateRecord (r := r) (keepsKey_const (hkey _ _ (isFor_entry r _ _)))
  have hblocked : (r.settled a x e).blocked = r.blocked := by rw [settled, updateRecord_eq]
  have hunblocked : (r.settled a x e).unblocked = r.unblocked := by rw [settled, updateRecord_eq]
  have hwaiting : (r.settled a x e).waiting = r.waiting := by
    rw [waiting, waiting, hblocked, hunblocked]
  obtain ⟨hmoved, hpassed⟩ := foldl_unblock_moved (ids.getD []) (hblocked ▸ h.distinct)
  rw [← hr'] at hmoved hpassed
  have hready : ∀ t, r'.inputsReady t = (r.settled a x e).inputsReady t :=
    inputsReady_congr hmoved.records
  have hfewer : r'.blocked.Sublist r.blocked := hblocked ▸ hmoved.blocked
  refine ⟨a.statement, x.dependency, e, hkept, hlist, hcomplete,
    fun j c => (entry_congr hmoved.records j c).trans (hentry j c), ?_, hwaiting ▸ hmoved.tasks,
    hfewer, ?_⟩
  · intro t ht hfull hlisted
    rw [hready]
    exact hpassed t ht (hall hfull (List.ne_nil_of_mem (hfewer.subset ht)) hlisted)
  · intro t ht
    rw [hready, ← hunblocked]
    exact hmoved.unblocked t ht

section Handed

variable {e : DependencyRecord}

/-- A task whose inputs have become complete was waiting for the record that gained the
result, and so it was handed out. -/
theorem unready_of_handed (h : r.Watched) (hh : Handed r r' i d e) :
    ∀ t ∈ r'.blocked, r'.inputsReady t = false := by
  intro t ht
  have hold := hh.blocked.subset ht
  -- The task waited for a record that was incomplete. If that one is complete now, it has handed
  -- out its list, on which the task was.
  obtain ⟨j, c, hconsumes, hbefore⟩ := exists_incomplete (h.unready t hold)
  refine Bool.eq_false_iff.mpr fun hnow => ?_
  have hafter := inputsReady_iff.mp hnow j c hconsumes
  rw [hh.entry] at hafter
  split at hafter
  · next hkey =>
    obtain ⟨rfl, rfl⟩ := hkey
    rw [hh.passed t ht hafter (h.listed t hold j c hconsumes hh.kept)] at hnow
    cases hnow
  · rw [hafter] at hbefore
    cases hbefore

/-- The tasks that still wait are on the lists of the records they wait for: the one record that has
changed either kept its list or has handed it out. -/
theorem listed_of_handed (h : r.Watched) (hh : Handed r r' i d e) :
    ∀ t ∈ r'.blocked, ∀ j c, t.Consumes j c → (r'.entry j c).isReleased = false →
      t.id ∈ (r'.entry j c).blocked := by
  intro t ht j c hconsumes hunreleased
  have hold := h.listed t (hh.blocked.subset ht) j c hconsumes
  rw [hh.entry] at hunreleased ⊢
  split
  · next hkey =>
    rw [if_pos hkey] at hunreleased
    obtain ⟨rfl, rfl⟩ := hkey
    exact hh.list hunreleased ▸ hold hh.kept
  · next hkey =>
    rw [if_neg hkey] at hunreleased
    exact hold hunreleased

/-- A record hands out its tasks when its results are complete, and then nothing is owed to
it. -/
theorem drained_of_handed (h : r.Watched) (hh : Handed r r' i d e) (hsettles : r.Settles r')
    (hroom : ∀ j c, r'.held j c + r'.pending j c ≤ (r'.entry j c).producers.length) :
    ∀ j c, (r'.entry j c).isReleased = true → r'.pending j c = 0 := by
  intro j c hreleased
  have hbefore := h.drained j c
  have hpending := hsettles.pending_le j c
  have hfull := hroom j c
  rw [hh.entry] at hreleased
  split at hreleased
  · next hkey =>
    have hheld := (isComplete_iff.mp (hh.complete hreleased)).2
    rw [held, hh.entry, if_pos hkey] at hfull
    omega
  · have hnothing := hbefore hreleased
    omega

end Handed

/-- A result lets tasks go on, and leaves none behind that it makes ready. -/
theorem accept (h : r.Watched) (hok : r.accept txn x = .ok r') :
    r'.Watched ∧ r'.waiting.Perm r.waiting ∧ (∀ t ∈ r'.blocked, t ∈ r.blocked)
      ∧ ∀ t ∈ r'.unblocked, t ∈ r.unblocked ∨ r'.inputsReady t = true := by
  have hsettles := accept_settles hok
  obtain ⟨i, d, e, hh⟩ := h.accept_handed hok
  have hroom : ∀ j c, r'.held j c + r'.pending j c ≤ (r'.entry j c).producers.length := by
    intro j c
    rw [hsettles.producers, hsettles.conserved]
    exact h.room j c
  exact ⟨⟨h.distinct.sublist (hh.blocked.map _), h.unready_of_handed hh, h.listed_of_handed hh,
    h.drained_of_handed hh hsettles hroom, hroom⟩, hh.tasks, fun t ht => hh.blocked.subset ht,
    hh.unblocked⟩

/-- A complete record stays complete while results are taken in: nothing is owed to it. -/
theorem isComplete_settles (h : r.Watched) (hsettles : r.Settles r')
    (hcomplete : (r.entry i d).isComplete = true) : (r'.entry i d).isComplete = true := by
  obtain ⟨hproducers, hlength⟩ := isComplete_iff.mp hcomplete
  have hnone := h.pending_eq_zero hcomplete
  have hconserved := hsettles.conserved i d
  have hgained := hsettles.gained i d
  refine isComplete_iff.mpr ⟨by rwa [hsettles.producers], ?_⟩
  rw [hsettles.producers, ← hlength]
  show r'.held i d = r.held i d
  omega

/-- Any number of results let tasks go on, and leave none behind that they make ready. A task that
went on early is still ready at the end, as inputs are only taken by tasks. -/
theorem foldlM_accept {xs : List Delivery} (h : r.Watched)
    (hok : xs.foldlM (Round.accept txn) r = .ok r') :
    r'.Watched ∧ r'.waiting.Perm r.waiting ∧ (∀ t ∈ r'.blocked, t ∈ r.blocked)
      ∧ ∀ t ∈ r'.unblocked, t ∈ r.unblocked ∨ r'.inputsReady t = true := by
  induction xs generalizing r with
  | nil =>
    cases hok
    exact ⟨h, .refl _, fun _ ht => ht, fun _ ht => .inl ht⟩
  | cons x rest ih =>
    obtain ⟨m, hm, hrest⟩ := Outcome.foldlM_cons_ok hok
    obtain ⟨hwatched, htasks, hblocked, hunblocked⟩ := h.accept hm
    obtain ⟨hwatched', htasks', hblocked', hunblocked'⟩ := ih hwatched hrest
    refine ⟨hwatched', htasks'.trans htasks, fun t ht => hblocked t (hblocked' t ht),
      fun t ht => ?_⟩
    rcases hunblocked' t ht with hold | hready
    · refine (hunblocked t hold).imp_right fun hready => inputsReady_iff.mpr fun i d hconsumes => ?_
      -- What was ready when it went on still is, as no inputs are taken in between.
      exact hwatched.isComplete_settles (foldlM_accept_settles hrest)
        (inputsReady_iff.mp hready i d hconsumes)
    · exact .inr hready

/-- The invariant reads the records, the queue of fragments and the blocked tasks. So it holds of
every round with the same ones, whatever its counters and its latch. -/
theorem congr (h : r.Watched) (hrecords : r'.records = r.records)
    (hawaited : r'.awaited = r.awaited) (hblocked : r'.blocked = r.blocked) : r'.Watched where
  -- All that is said reads the records, the queue, and the blocked tasks.
  distinct := hblocked ▸ h.distinct
  unready := fun t ht => by
    rw [inputsReady_congr hrecords]
    exact h.unready t (hblocked ▸ ht)
  listed := fun t ht i d => by
    rw [entry_congr hrecords]
    exact h.listed t (hblocked ▸ ht) i d
  drained := fun i d => by
    rw [entry_congr hrecords, pending, hawaited]
    exact h.drained i d
  room := fun i d => by
    rw [held, pending, entry_congr hrecords, hawaited]
    exact h.room i d

/-- So do the inputs that are taken, which make no record complete. Records keep their producers,
their lists and whether they handed these out; what they hold only gets less. -/
theorem emptied (h : r.Watched) (he : Emptied r r') : r'.Watched where
  distinct := he.blocked ▸ h.distinct
  -- An emptied record is less complete than before, and a task that was not ready is not ready now.
  unready := by
    intro t ht
    obtain ⟨i, d, hconsumes, hbefore⟩ := exists_incomplete (h.unready t (he.blocked ▸ ht))
    refine Bool.eq_false_iff.mpr fun hnow => ?_
    rw [he.isComplete (inputsReady_iff.mp hnow i d hconsumes)] at hbefore
    cases hbefore
  listed := by
    intro t ht i d hconsumes hunreleased
    rw [he.isReleased] at hunreleased
    rw [he.lists]
    exact h.listed t (he.blocked ▸ ht) i d hconsumes hunreleased
  drained := by
    intro i d hreleased
    rw [he.isReleased] at hreleased
    rw [he.pending]
    exact h.drained i d hreleased
  room := by
    intro i d
    have hroom := h.room i d
    have hheld := he.held_le i d
    rw [he.pending, he.producers]
    omega

end Watched

/-! ### Before any result has come -/

/-- Registering what fragments wait for puts the task on the list of every record that one
of them names, and leaves on the lists what was there. -/
theorem foldl_registerInput_lists (task : TaskId) (fs : List Fragment) (r : Round) :
    let r' := fs.foldl (registerInput task) r
    (∀ i d, (r.entry i d).blocked ⊆ (r'.entry i d).blocked)
      ∧ ∀ f ∈ fs, ∀ d, f.input = some d → task ∈ (r'.entry f.index d).blocked := by
  induction fs generalizing r with
  | nil => exact ⟨fun _ _ => List.Subset.refl _, fun _ h => absurd h List.not_mem_nil⟩
  | cons f rest ih =>
    obtain ⟨hgrown, hlisted⟩ := ih (registerInput task r f)
    simp only [List.foldl_cons]
    cases hinput : f.input with
    | none =>
      have hsame : registerInput task r f = r := by simp [registerInput, hinput]
      rw [hsame] at hgrown hlisted ⊢
      refine ⟨hgrown, fun g hg c hc => ?_⟩
      rcases List.mem_cons.mp hg with rfl | hg
      · rw [hinput] at hc
        cases hc
      · exact hlisted g hg c hc
    | some d =>
      have hentry : ∀ i c, (registerInput task r f).entry i c
          = if i = f.index ∧ c = d then (r.entry f.index d).block task else r.entry i c := by
        intro i c
        simp only [registerInput, hinput]
        exact entry_updateRecord (keepsKey_block task f.index d) i c
      -- Blocking puts the task on the list if it is not there.
      have hblock : ∀ e : DependencyRecord, task ∈ (e.block task).blocked
          ∧ e.blocked ⊆ (e.block task).blocked := by
        intro e
        unfold block
        split
        · next hmem => exact ⟨hmem, List.Subset.refl _⟩
        · exact ⟨List.mem_append_right _ List.mem_cons_self, List.subset_append_left _ _⟩
      refine ⟨fun i c => ?_, fun g hg c hc => ?_⟩
      -- Lists only grow: by the first fragment, then by the rest.
      · refine List.Subset.trans ?_ (hgrown i c)
        rw [hentry]
        split
        · next hkey =>
          obtain ⟨rfl, rfl⟩ := hkey
          exact (hblock _).2
        · exact List.Subset.refl _
      · rcases List.mem_cons.mp hg with rfl | hg
        -- The first fragment lists the task, and the rest do not take it off.
        · obtain rfl : d = c := Option.some.inj (hinput.symm.trans hc)
          refine hgrown g.index d ?_
          rw [hentry, if_pos ⟨rfl, rfl⟩]
          exact (hblock _).1
        · exact hlisted g hg c hc

/-- A task is blocked exactly if it has inputs. It must have a number that no blocked task
has, and it comes onto the list of every record that it waits for. -/
theorem addTask_cases {t : Task} {isBlocked : Bool} (h : r.addTask t = .ok (r', isBlocked)) :
    (t.hasInputs = true ∧ isBlocked = true ∧ r'.blocked = r.blocked ++ [t]
        ∧ (∀ b ∈ r.blocked, b.id ≠ t.id)
        ∧ (∀ i d, (r.entry i d).blocked ⊆ (r'.entry i d).blocked)
        ∧ ∀ i d, t.Consumes i d → t.id ∈ (r'.entry i d).blocked)
      ∨ (t.hasInputs = false ∧ isBlocked = false ∧ r'.blocked = r.blocked
        ∧ ∀ i d, (r'.entry i d).blocked = (r.entry i d).blocked) := by
  obtain ⟨hout, hentryOut⟩ := foldl_registerOutput t.destination t.fragments r
  obtain ⟨hin, _⟩ := foldl_registerInput t.id t.fragments
    (t.fragments.foldl (registerOutput t.destination) r)
  obtain ⟨hgrown, hlisted⟩ := foldl_registerInput_lists t.id t.fragments
    (t.fragments.foldl (registerOutput t.destination) r)
  unfold addTask at h
  simp only at h hout hentryOut hin hgrown hlisted
  -- Outputs are registered first, then inputs; the results of both passes are described above.
  generalize t.fragments.foldl (registerOutput t.destination) r = out at *
  generalize t.fragments.foldl (registerInput t.id) out = both at *
  have hold : out.blocked = r.blocked := by rw [hout]
  split at h
  · next hinputs =>
    have hboth : both.blocked = r.blocked := by rw [hin, hold]
    split at h
    · cases h
    · next hnew =>
      cases h
      -- A task with inputs is blocked behind the others, as none of them has its number.
      refine .inl ⟨hinputs, rfl, ?_, fun b hb hid => hnew ?_, fun i d => ?_, ?_⟩
      · rw [hboth]
      · rw [List.any_eq_true]
        exact ⟨b, hboth ▸ hb, by simpa using hid⟩
      · have hsub := hgrown i d
        rw [hentryOut] at hsub
        exact hsub
      · rintro i d ⟨f, hf, rfl, hinput⟩
        exact hlisted f hf d hinput
  · next hinputs =>
    cases h
    exact .inr ⟨by simpa using hinputs, rfl, hold, fun i d => by rw [hentryOut]⟩

/-- A round that tasks are being added to: no result has come. Such a round is watched, since every
record still has its list. -/
structure Prepared (r : Round) : Prop where
  distinct : (r.blocked.map Task.id).Nodup
  inputs : ∀ t ∈ r.blocked, t.hasInputs = true
  listed : ∀ t ∈ r.blocked, ∀ i d, t.Consumes i d → t.id ∈ (r.entry i d).blocked
  unreleased : ∀ i d, (r.entry i d).isReleased = false
  results : ∀ i d, (r.entry i d).results = []
  owed : ∀ i d, (r.entry i d).producers.length = r.pending i d

namespace Prepared

/-- Adding a task puts it among the blocked tasks if it has inputs. Each of its inputs lists it from
then on, and no record has results yet, so that there is nothing to hand out. -/
theorem addTask {t : Task} {isBlocked : Bool} (h : r.Prepared)
    (hok : r.addTask t = .ok (r', isBlocked)) : r'.Prepared := by
  obtain ⟨hbooks, _, hentry⟩ := addTask_ok hok
  have hunreleased : ∀ i d, (r'.entry i d).isReleased = false := by
    intro i d
    rw [hentry]
    exact h.unreleased i d
  have hresults : ∀ i d, (r'.entry i d).results = [] := by
    intro i d
    rw [hentry]
    exact h.results i d
  have howed : ∀ i d, (r'.entry i d).producers.length = r'.pending i d := by
    intro i d
    have hawaited : r'.awaited = r.awaited ++ t.owed := by rw [hbooks]
    rw [hentry, pending, hawaited, List.countP_append, List.length_append, List.length_map,
      h.owed i d, ← List.countP_eq_length_filter]
    rfl
  -- A task without inputs is not blocked, so that only the records have changed.
  rcases addTask_cases hok with ⟨hinputs, _, hblocked, hnew, hgrown, hlisted⟩ | ⟨_, _, hblocked, hsame⟩
  · refine ⟨?_, fun b hb => ?_, fun b hb i d hconsumes => ?_, hunreleased, hresults, howed⟩
    · rw [hblocked, List.map_append, List.map_singleton]
      refine List.nodup_append.mpr ⟨h.distinct, List.nodup_singleton _, fun id hid id' hid' => ?_⟩
      obtain ⟨b, hb, rfl⟩ := List.mem_map.mp hid
      exact List.mem_singleton.mp hid' ▸ hnew b hb
    · rcases List.mem_append.mp (hblocked ▸ hb) with hold | ht
      · exact h.inputs b hold
      · exact List.mem_singleton.mp ht ▸ hinputs
    · rcases List.mem_append.mp (hblocked ▸ hb) with hold | ht
      · exact hgrown i d (h.listed b hold i d hconsumes)
      · obtain rfl := List.mem_singleton.mp ht
        exact hlisted i d hconsumes
  · refine ⟨hblocked ▸ h.distinct, fun b hb => h.inputs b (hblocked ▸ hb),
      fun b hb i d hconsumes => ?_, hunreleased, hresults, howed⟩
    rw [hsame]
    exact h.listed b (hblocked ▸ hb) i d hconsumes

/-- This reads the records, the queue of fragments and the blocked tasks. -/
theorem congr (h : r.Prepared) (hrecords : r'.records = r.records)
    (hawaited : r'.awaited = r.awaited) (hblocked : r'.blocked = r.blocked) : r'.Prepared where
  distinct := hblocked ▸ h.distinct
  inputs := fun t ht => h.inputs t (hblocked ▸ ht)
  listed := fun t ht i d hconsumes => by
    rw [entry_congr hrecords]
    exact h.listed t (hblocked ▸ ht) i d hconsumes
  unreleased := fun i d => by rw [entry_congr hrecords]; exact h.unreleased i d
  results := fun i d => by rw [entry_congr hrecords]; exact h.results i d
  owed := fun i d => by rw [entry_congr hrecords, pending, hawaited]; exact h.owed i d

/-- There are no inputs to take yet. -/
theorem emptied (h : r.Prepared) (he : Emptied r r') : r'.Prepared where
  distinct := he.blocked ▸ h.distinct
  inputs := fun t ht => h.inputs t (he.blocked ▸ ht)
  listed := fun t ht i d hconsumes => by
    rw [he.lists]
    exact h.listed t (he.blocked ▸ ht) i d hconsumes
  unreleased := fun i d => (he.isReleased i d).trans (h.unreleased i d)
  results := fun i d => (he.results i d).elim (fun hsame => hsame.trans (h.results i d)) id
  owed := fun i d => by rw [he.producers, he.pending]; exact h.owed i d

/-- While no result has come no record is complete, so that blocked tasks are not ready. This is
where the invariant of the round begins. -/
theorem watched (h : r.Prepared) : r.Watched where
  distinct := h.distinct
  unready := by
    intro t ht
    obtain ⟨i, d, hconsumes⟩ := Task.hasInputs_iff.mp (h.inputs t ht)
    refine Bool.eq_false_iff.mpr fun hready => ?_
    -- A complete record holds results, and there are none yet.
    have hcomplete := inputsReady_iff.mp hready i d hconsumes
    obtain ⟨hproducers, hlength⟩ := isComplete_iff.mp hcomplete
    rw [h.results, List.length_nil] at hlength
    exact hproducers (List.length_eq_zero_iff.mp hlength.symm)
  listed := fun t ht i d hconsumes _ => h.listed t ht i d hconsumes
  drained := by
    intro i d hreleased
    rw [h.unreleased] at hreleased
    cases hreleased
  room := by
    intro i d
    have hfull : r.held i d + r.pending i d = (r.entry i d).producers.length := by
      rw [held, h.results, h.owed, List.length_nil, Nat.zero_add]
    exact Nat.le_of_eq hfull

end Prepared

end Round

end TxnPath
