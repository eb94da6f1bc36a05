import TxnPath.Txn.Round

/-!
# `TxnPath.Proofs.Txn.Records`: the records of a round as a table

A round lists its dependency records. Its operations look one up by statement and
dependency and change it there, so the list is read as a table. `Round.entry` is what
the table holds, a fresh record where nothing is listed, and every change of a record
is described by what it does to the entries:

* `entry_updateRecord`: changing a record changes its own entry and no other. The
  change must keep statement and dependency in place (`KeepsKey`).
* `entry_of_record?` and `record?_of_mem_producers`: a listed record is the entry, and
  an entry that has producers is listed.
-/

set_option autoImplicit false

namespace TxnPath

/-- A change of records that leaves the record of `i` and `d` under its statement and
dependency. -/
def DependencyRecord.KeepsKey (i : Nat) (d : DependencyId)
    (change : DependencyRecord → DependencyRecord) : Prop :=
  ∀ e : DependencyRecord, e.isFor i d = true → (change e).isFor i d = true

namespace DependencyRecord

/-- A fresh record belongs to the statement and dependency it is made for, so that a look-up that
finds nothing and one that finds the fresh record agree. -/
@[simp] theorem isFor_fresh (i : Nat) (d : DependencyId) : (fresh i d).isFor i d = true := by
  simp [fresh, isFor]

/-- Whom a record belongs to, as two equations. Proofs about look-ups rewrite with this form. -/
theorem isFor_iff {e : DependencyRecord} {i : Nat} {d : DependencyId} :
    e.isFor i d = true ↔ e.statement = i ∧ e.dependency = some d := by
  simp [isFor]

/-- A record is kept under one statement and dependency only. -/
theorem isFor_unique {e : DependencyRecord} {i j : Nat} {d c : DependencyId}
    (h : e.isFor i d = true) (h' : e.isFor j c = true) : i = j ∧ d = c := by
  rw [isFor_iff] at h h'
  exact ⟨h.1.symm.trans h'.1, Option.some.inj (h.2.symm.trans h'.2)⟩

/-- Registering a producer moves no record to another key. -/
theorem keepsKey_addProducer (p i : Nat) (d : DependencyId) :
    KeepsKey i d fun e => e.addProducer p :=
  fun _ h => h

/-- Nor does noting a task that waits for it. -/
theorem keepsKey_block (task : TaskId) (i : Nat) (d : DependencyId) :
    KeepsKey i d fun e => e.block task := by
  intro e h
  show (e.block task).isFor i d = true
  unfold block
  split
  · exact h
  · exact h

/-- Putting a record of the key in place of another keeps the key. Taking inputs writes back the
emptied record this way. -/
theorem keepsKey_const {e : DependencyRecord} {i : Nat} {d : DependencyId}
    (h : e.isFor i d = true) : KeepsKey i d fun _ => e :=
  fun _ _ => h

end DependencyRecord

namespace Round

open DependencyRecord

variable {r : Round} {i j : Nat} {d c : DependencyId} {e : DependencyRecord}

/-- The record of a dependency of a statement, a fresh one if none is listed. -/
def entry (r : Round) (i : Nat) (d : DependencyId) : DependencyRecord :=
  (r.record? i d).getD (.fresh i d)

/-- What is looked up belongs to the statement and dependency that were asked for. -/
theorem isFor_of_record? (h : r.record? i d = some e) : e.isFor i d = true :=
  List.find?_some (p := fun e : DependencyRecord => e.isFor i d) (l := r.records) h

/-- A listed record is what the table holds, so that facts about entries are facts about records. -/
theorem entry_of_record? (h : r.record? i d = some e) : r.entry i d = e := by
  rw [entry, h, Option.getD_some]

/-- Entries are read off the list of records. -/
theorem entry_congr {r' : Round} (h : r'.records = r.records) (i : Nat) (d : DependencyId) :
    r'.entry i d = r.entry i d := by
  unfold entry record?
  rw [h]

/-- An entry with producers is listed: fresh records have none. -/
theorem record?_of_mem_producers {p : Nat} (h : p ∈ (r.entry i d).producers) :
    r.record? i d = some (r.entry i d) := by
  cases hr : r.record? i d with
  | none => simp [entry, hr, fresh] at h
  | some e => rw [entry_of_record? hr]

/-- Mapping a change over a list that only touches the record of `i` and `d` is seen by
every look-up, at its own place only. -/
theorem find?_map_change {records : List DependencyRecord}
    {change : DependencyRecord → DependencyRecord} (hc : KeepsKey i d change) :
    (records.map fun e => if e.isFor i d then change e else e).find? (fun e => e.isFor j c)
      = (records.find? fun e => e.isFor j c).map
          fun e => if e.isFor i d then change e else e := by
  rw [List.find?_map]
  congr 2
  funext e
  show (if e.isFor i d then change e else e).isFor j c = e.isFor j c
  -- A changed record answers to the key it answered to before, so that the same record is found.
  by_cases h : e.isFor i d = true
  · rw [if_pos h, Bool.eq_iff_iff]
    constructor
    · intro hj
      obtain ⟨rfl, rfl⟩ := isFor_unique (hc e h) hj
      exact h
    · intro hj
      obtain ⟨rfl, rfl⟩ := isFor_unique h hj
      exact hc e h
  · rw [if_neg h]

/-- The look-up after a change: the record itself is the changed entry. If there was no record then
it is the change of a fresh one, which is what the entry was. -/
theorem record?_updateRecord_self {change : DependencyRecord → DependencyRecord}
    (hc : KeepsKey i d change) :
    (r.updateRecord i d change).record? i d = some (change (r.entry i d)) := by
  unfold updateRecord
  cases h : r.record? i d with
  | none =>
    have hnone : r.records.find? (fun e => e.isFor i d) = none := h
    have hfresh := hc _ (isFor_fresh i d)
    simp [record?, entry, hnone, hfresh]
  | some e =>
    have hsome : r.records.find? (fun e => e.isFor i d) = some e := h
    simp only [Option.isSome_some, if_true, record?]
    rw [find?_map_change hc, hsome, entry_of_record? h]
    simp [isFor_of_record? h]

/-- The look-up after a change elsewhere finds what it found before. A fresh record may have come
behind the others, but it is not for this key. -/
theorem record?_updateRecord_of_ne {change : DependencyRecord → DependencyRecord}
    (hc : KeepsKey i d change) (hne : ¬(j = i ∧ c = d)) :
    (r.updateRecord i d change).record? j c = r.record? j c := by
  unfold updateRecord
  split
  -- The record is listed: the change keeps the record that is found, as it belongs to the other
  -- key.
  · simp only [record?]
    rw [find?_map_change hc]
    cases h : r.records.find? (fun e => e.isFor j c) with
    | none => rfl
    | some e =>
      have hj : e.isFor j c = true := isFor_of_record? (r := r) h
      have hi : ¬ e.isFor i d = true := fun hi => hne (isFor_unique hj hi)
      simp [hi]
  -- It is not listed, and the fresh record put behind the others is not for the other key either.
  · have hfresh : ¬ (change (fresh i d)).isFor j c = true :=
      fun hj => hne (isFor_unique hj (hc _ (isFor_fresh i d)))
    simp [record?, List.find?_append, hfresh]

/-- Changing a record changes its own entry and no other. -/
theorem entry_updateRecord {change : DependencyRecord → DependencyRecord}
    (hc : KeepsKey i d change) (j : Nat) (c : DependencyId) :
    (r.updateRecord i d change).entry j c
      = if j = i ∧ c = d then change (r.entry i d) else r.entry j c := by
  by_cases h : j = i ∧ c = d
  · obtain ⟨rfl, rfl⟩ := h
    rw [if_pos ⟨rfl, rfl⟩, entry, record?_updateRecord_self hc, Option.getD_some]
  · rw [if_neg h, entry, record?_updateRecord_of_ne hc h, entry]

/-- Changing a record leaves the rest of the round alone. -/
theorem updateRecord_eq (r : Round) (i : Nat) (d : DependencyId)
    (change : DependencyRecord → DependencyRecord) :
    r.updateRecord i d change = { r with records := (r.updateRecord i d change).records } := by
  unfold updateRecord
  split <;> rfl

end Round

end TxnPath
