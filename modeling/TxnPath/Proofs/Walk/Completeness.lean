import TxnPath.Proofs.Graph.Derive
import TxnPath.Proofs.Walk.Strides

/-!
# `TxnPath.Proofs.Walk.Completeness`: a walk predicts everything

A walk predicts something about a partition the first time that it comes across it, and fills in the
rest when it ends. What it relies on there is that a partition that it touched has an entry of being
done. It has, because an entry is made by whatever comes first, a read, a write or a touch
(`Walker.Noted`), and no entry is ever unset (`ProbabilityTable.Extends`).

`Walker.Noted.settle` says that a walk which ends with such entries leaves no other one unset.
-/

set_option autoImplicit false

namespace TxnPath

variable {R : Type}

/-! ### Entries that are set -/

namespace ProbabilityTable

variable {t t' t'' : ProbabilityTable R} {field field' : PartitionField} {p n : Nat} {x : R}

/-- The second table is for as many partitions, and no entry that the first one sets is unset. -/
structure Extends (t t' : ProbabilityTable R) : Prop where
  size : ∀ field, (t'.column field).size = (t.column field).size
  entry : ∀ field p, (t.get? field p).isSome → (t'.get? field p).isSome

/-- A table extends itself. -/
theorem Extends.refl (t : ProbabilityTable R) : Extends t t := ⟨fun _ => rfl, fun _ _ h => h⟩

/-- What was set first is still set when more has been. -/
theorem Extends.trans (h : Extends t t') (h' : Extends t' t'') : Extends t t'' :=
  ⟨fun field => (h'.size field).trans (h.size field),
    fun field p hset => h'.entry field p (h.entry field p hset)⟩

/-- Writing an entry changes one column, in one place. -/
theorem column_set (t : ProbabilityTable R) (field field' : PartitionField) (p : Nat) (x : R) :
    (t.set field p x).column field'
      = if field = field' then (t.column field').setIfInBounds p (some x) else t.column field' := by
  cases field <;> cases field' <;> rfl

/-- Writing an entry unsets none. What is set at another place stays, and what is written is set. -/
theorem extends_set (t : ProbabilityTable R) (field : PartitionField) (p : Nat) (x : R) :
    Extends t (t.set field p x) where
  size field' := by
    rw [column_set]
    split
    · exact Array.size_setIfInBounds
    · rfl
  entry field' q h := by
    rw [get?, column_set]
    split
    · rw [Array.getElem?_setIfInBounds]
      split
      · split
        · rfl
        · next hout => simp [get?, ‹p = q› ▸ hout] at h
      · exact h
    · exact h

/-- An entry inside its column is there once it was written. -/
theorem isSome_get?_set_self (hp : p < (t.column field).size) :
    ((t.set field p x).get? field p).isSome := by
  simp [get?, column_set, hp]

/-- A table with all entries set is complete. -/
theorem isComplete_of_known (h : t.Known n) (hsize : ∀ field, (t.column field).size = n) :
    t.isComplete = true := by
  have hcolumn : ∀ field, (t.column field).all Option.isSome = true := by
    intro field
    refine Array.all_eq_true.mpr fun p hp => ?_
    have hentry := h.entry field p (hsize field ▸ hp)
    rw [get?, Array.getElem?_eq_getElem hp] at hentry
    exact hentry
  have hdone : t.done.all Option.isSome = true := hcolumn .done
  have hread : t.readOnly.all Option.isSome = true := hcolumn .readOnly
  have hwrite : t.write.all Option.isSome = true := hcolumn .write
  rw [isComplete, h.single, h.abort, hdone, hread, hwrite]
  rfl

end ProbabilityTable

open ProbabilityTable

namespace Walker

variable {w w' : Walker R} {n p q : Nat}

/-! ### What a walk has come across -/

/-- The walk has read, written or touched a partition. -/
def Met (w : Walker R) (p : Nat) : Prop := p ∈ w.touched ∨ p ∈ w.read ∨ p ∈ w.written

/-- An estimate is under way in which every partition that was come across has an entry of being
done. -/
structure Noted (w : Walker R) (n : Nat) : Prop where
  vertex : w.estimate.vertex.isSome
  size : ∀ field, (w.estimate.probs.column field).size = n
  done : ∀ p < n, w.Met p → (w.estimate.probs.get? .done p).isSome

/-- Where no entry is unset and nothing new is come across, or what is new has an entry, all is
well. -/
theorem Noted.extend (h : w.Noted n) (hvertex : w'.estimate.vertex = w.estimate.vertex)
    (hextends : Extends w.estimate.probs w'.estimate.probs)
    (hmet : ∀ q < n, w'.Met q → w.Met q ∨ (w'.estimate.probs.get? .done q).isSome) :
    w'.Noted n where
  vertex := hvertex ▸ h.vertex
  size field := (hextends.size field).trans (h.size field)
  done q hq hq' := (hmet q hq hq').elim (fun hold => hextends.entry .done q (h.done q hq hold)) id

variable [Scalar R]

/-- A read meets its partition, and no other. -/
theorem met_noteRead (w : Walker R) (p q : Nat) : (w.noteRead p).Met q ↔ q = p ∨ w.Met q := by
  rw [noteRead]
  split
  · next hread => exact ⟨.inr, fun h => h.elim (fun hq => hq ▸ .inr (.inl hread)) id⟩
  · show q ∈ w.touched ∨ q ∈ w.read.insert p ∨ q ∈ w.written ↔ _
    rw [PartitionSet.mem_insert, Met]
    tauto

/-- A write does too. -/
theorem met_noteWrite (w : Walker R) (p q : Nat) : (w.noteWrite p).Met q ↔ q = p ∨ w.Met q := by
  rw [noteWrite]
  split
  · next hwritten => exact ⟨.inr, fun h => h.elim (fun hq => hq ▸ .inr (.inr hwritten)) id⟩
  · show q ∈ w.touched ∨ q ∈ w.read ∨ q ∈ w.written.insert p ↔ _
    rw [PartitionSet.mem_insert, Met]
    tauto

omit [Scalar R] in
/-- A partition that the walk comes across is given an entry of being done, unless it was touched
and has one. -/
theorem Noted.mark {t : ProbabilityTable R} {x : R} (h : w.Noted n)
    (hvertex : w'.estimate.vertex = w.estimate.vertex) (hextends : Extends w.estimate.probs t)
    (hprobs : w'.estimate.probs = if p ∈ w.touched then t else t.set .done p x)
    (hmet : ∀ q, w'.Met q ↔ q = p ∨ w.Met q) : w'.Noted n := by
  by_cases htouched : p ∈ w.touched
  · -- A touched partition has been come across before, so it has its entry.
    rw [if_pos htouched] at hprobs
    refine h.extend hvertex (hprobs ▸ hextends) fun q _ hq => .inl ?_
    exact ((hmet q).mp hq).elim (fun hqp => hqp ▸ .inl htouched) id
  · rw [if_neg htouched] at hprobs
    refine h.extend hvertex (hprobs ▸ hextends.trans (extends_set t .done p x)) fun q hq hq' => ?_
    rcases (hmet q).mp hq' with rfl | hold
    · rw [hprobs]
      exact .inr (isSome_get?_set_self ((hextends.size .done).trans (h.size .done) ▸ hq))
    · exact .inl hold

/-- A read leaves an entry of being done for its partition. -/
theorem Noted.noteRead (h : w.Noted n) (p : Nat) : (w.noteRead p).Noted n := by
  have hmet := met_noteRead w p
  rw [Walker.noteRead] at hmet ⊢
  split at hmet
  · next hread =>
    rw [if_pos hread]
    exact h
  · next hread =>
    rw [if_neg hread]
    exact h.mark rfl (extends_set _ .readOnly p _) rfl hmet

/-- A write leaves one, too. -/
theorem Noted.noteWrite (h : w.Noted n) (p : Nat) : (w.noteWrite p).Noted n := by
  have hmet := met_noteWrite w p
  rw [Walker.noteWrite] at hmet ⊢
  split at hmet
  · next hwritten =>
    rw [if_pos hwritten]
    exact h
  · next hwritten =>
    rw [if_neg hwritten]
    exact h.mark rfl ((extends_set _ .readOnly p 0).trans (extends_set _ .write p _)) rfl hmet

omit [Scalar R] in
/-- Noting that partitions are read or written comes across them. -/
theorem Noted.foldl {note : Walker R → Nat → Walker R}
    (hnoted : ∀ {w : Walker R}, w.Noted n → ∀ p, (note w p).Noted n)
    (hmet : ∀ (w : Walker R) p q, (note w p).Met q ↔ q = p ∨ w.Met q) (ps : List Nat)
    (h : w.Noted n) :
    (ps.foldl note w).Noted n ∧ ∀ q, (ps.foldl note w).Met q ↔ q ∈ ps ∨ w.Met q := by
  induction ps generalizing w with
  | nil => exact ⟨h, fun q => by simp⟩
  | cons p ps ih =>
    obtain ⟨hlast, hall⟩ := ih (hnoted h p)
    refine ⟨hlast, fun q => ?_⟩
    rw [List.foldl_cons, hall, hmet, List.mem_cons]
    tauto

omit [Scalar R] in
/-- Touching a partition comes across it and changes no entry. -/
theorem noteTouch_ok (h : w.noteTouch p = .ok w') :
    w'.estimate.vertex = w.estimate.vertex ∧ w'.estimate.probs = w.estimate.probs
      ∧ ∀ q, w'.Met q ↔ q = p ∨ w.Met q := by
  obtain ⟨e, he, rfl⟩ := Outcome.map_ok h
  obtain ⟨counts, _, rfl⟩ := Outcome.map_ok he
  refine ⟨rfl, rfl, fun q => ?_⟩
  show q ∈ w.touched.insert p ∨ q ∈ w.read ∨ q ∈ w.written ↔ _
  rw [PartitionSet.mem_insert, Met, or_assoc]

omit [Scalar R] in
/-- Partitions that were come across can be touched. -/
theorem Noted.noteTouch {ps : List Nat} (h : w.Noted n) (hmet : ∀ p ∈ ps, w.Met p)
    (hrun : ps.foldlM Walker.noteTouch w = .ok w') : w'.Noted n := by
  induction ps generalizing w with
  | nil =>
    cases hrun
    exact h
  | cons p ps ih =>
    obtain ⟨m, hm, hrest⟩ := Outcome.foldlM_cons_ok hrun
    obtain ⟨hvertex, hprobs, hmore⟩ := noteTouch_ok hm
    obtain ⟨hp, hps⟩ := List.forall_mem_cons.mp hmet
    have hfirst : m.Noted n := h.extend hvertex (hprobs ▸ .refl _) fun q _ hq =>
      .inl (((hmore q).mp hq).elim (fun hqp => hqp ▸ hp) id)
    exact ih hfirst (fun q hq => (hmore q).mpr (.inr (hps q hq))) hrest

/-- So does a call, for each of the partitions that it touches. It first marks them read or written
and then counts them, which is the order that the invariant asks for: what is touched has been met.
-/
theorem Noted.noteCall {c : Call} {abort : Option R} (h : w.Noted n)
    (hrun : w.noteCall c abort = .ok w') : w'.Noted n := by
  rw [Walker.noteCall] at hrun
  obtain ⟨w₁, htouch, hrun⟩ := Outcome.bind_ok hrun
  have hmarked : (c.partitions.toList.foldl
      (if c.queryType.isReadOnly then Walker.noteRead else Walker.noteWrite) w).Noted n
      ∧ ∀ q, (c.partitions.toList.foldl
        (if c.queryType.isReadOnly then Walker.noteRead else Walker.noteWrite) w).Met q
          ↔ q ∈ c.partitions.toList ∨ w.Met q := by
    split
    · exact h.foldl Noted.noteRead met_noteRead _
    · exact h.foldl Noted.noteWrite met_noteWrite _
  have htouched := hmarked.1.noteTouch (fun p hp => (hmarked.2 p).mpr (.inl hp)) htouch
  -- What is noted last is neither an entry nor about where the walk has been.
  have hsingle : ∀ P [Decidable P], (if P then
      w₁.mapProbs fun t => { t with single := some (1 - w₁.confidence) } else w₁).Noted n := by
    intro P _
    split
    · exact ⟨htouched.vertex, htouched.size, htouched.done⟩
    · exact htouched
  cases hrun
  cases abort with
  | none => exact hsingle _
  | some a =>
    obtain ⟨hvertex, hsize, hdone⟩ :=
      hsingle (1 < w₁.touched.size ∧ w₁.estimate.probs.single.isNone)
    exact ⟨hvertex, hsize, hdone⟩

/-- And so does every visit. -/
theorem Noted.visit {g : Graph R} {v : Nat} (h : w.Noted n) (hrun : w.visit g v = .ok w') :
    w'.Noted n := by
  have hsame : Noted { w with visited := w.visited ++ [v] } n := ⟨h.vertex, h.size, h.done⟩
  rw [Walker.visit] at hrun
  split at hrun
  · cases hrun
  · split at hrun
    · exact hsame.noteCall hrun
    · cases hrun
      exact hsame

/-- At any point of the walk, therefore, the partitions touched have entries. -/
theorem Noted.strides {j : Journey R} (h : w.Noted n)
    (hrun : Relation.ReflTransGen j.Strides w w') : w'.Noted n := by
  induction hrun with
  | refl => exact h
  | tail _ hturn ih =>
    obtain ⟨_, chosen, others, forced, _, _, _, hvisit⟩ := hturn
    have hchosen : (Walker.choose _ chosen others forced).Noted n := ⟨ih.vertex, ih.size, ih.done⟩
    exact hchosen.visit hvisit

/-! ### What the end of a walk fills in -/

variable {t : ProbabilityTable R}

omit [Scalar R] in
/-- An entry that is set where it is unset is set. -/
theorem isSome_fill (field : PartitionField) (hp : p < (t.column field).size) (x : R) :
    Extends t (if (t.get? field p).isNone then t.set field p x else t)
      ∧ ((if (t.get? field p).isNone then t.set field p x else t).get? field p).isSome := by
  split
  · exact ⟨extends_set t field p x, isSome_get?_set_self hp⟩
  · next hset => exact ⟨.refl t, Option.isSome_iff_ne_none.mpr (by simpa using hset)⟩

/-- At the end a partition is given all entries, if it has one of being done in case it was
touched. -/
theorem settlePartition_spec (w : Walker R) (start : ProbabilityTable R)
    (hsize : ∀ field, (t.column field).size = n) (hp : p < n)
    (hdone : p ∈ w.touched → (t.get? .done p).isSome) :
    Extends t (w.settlePartition start t p)
      ∧ ∀ field, ((w.settlePartition start t p).get? field p).isSome := by
  rw [settlePartition]
  split
  · -- Of a touched partition only what is unset is filled in, and being done is not.
    next htouched =>
    obtain ⟨hwrite, hwritten⟩ := isSome_fill .write (hsize .write ▸ hp) (1 - w.confidence)
    have hread :=
      isSome_fill .readOnly ((hwrite.size .readOnly).trans (hsize .readOnly) ▸ hp) (0 : R)
    refine ⟨hwrite.trans hread.1, fun field => ?_⟩
    cases field with
    | done => exact (hwrite.trans hread.1).entry .done p (hdone htouched)
    | readOnly => exact hread.2
    | write => exact hread.1.entry .write p hwritten
  -- Of any other partition all three entries are written.
  · have hd := extends_set t .done p ((start.get? .done p).getD 0)
    have hr := hd.trans (extends_set _ .readOnly p ((start.get? .readOnly p).getD 0))
    have hw := extends_set ((t.set .done p ((start.get? .done p).getD 0)).set .readOnly p
      ((start.get? .readOnly p).getD 0)) .write p ((start.get? .write p).getD 0)
    refine ⟨hr.trans hw, fun field => ?_⟩
    cases field with
    | done =>
      exact hw.entry .done p ((extends_set _ .readOnly p _).entry .done p
        (isSome_get?_set_self (hsize .done ▸ hp)))
    | readOnly =>
      exact hw.entry .readOnly p
        (isSome_get?_set_self ((hd.size .readOnly).trans (hsize .readOnly) ▸ hp))
    | write => exact isSome_get?_set_self ((hr.size .write).trans (hsize .write) ▸ hp)

/-- Filling in partitions one after the other gives all of them all entries. It fills in what is
unset and leaves what was set, so that later partitions take nothing from earlier ones. -/
theorem foldl_settlePartition (w : Walker R) (start : ProbabilityTable R) (ps : List Nat)
    (hsize : ∀ field, (t.column field).size = n) (hps : ∀ p ∈ ps, p < n)
    (hdone : ∀ p ∈ ps, p ∈ w.touched → (t.get? .done p).isSome) :
    Extends t (ps.foldl (w.settlePartition start) t)
      ∧ ∀ p ∈ ps, ∀ field, ((ps.foldl (w.settlePartition start) t).get? field p).isSome := by
  induction ps generalizing t with
  | nil => exact ⟨.refl t, nofun⟩
  | cons p ps ih =>
    obtain ⟨hp, hps⟩ := List.forall_mem_cons.mp hps
    obtain ⟨hpdone, hdone⟩ := List.forall_mem_cons.mp hdone
    obtain ⟨hfirst, hset⟩ := w.settlePartition_spec start hsize hp hpdone
    obtain ⟨hrest, hall⟩ := ih (fun field => (hfirst.size field).trans (hsize field)) hps
      fun q hq htouched => hfirst.entry .done q (hdone q hq htouched)
    exact ⟨hfirst.trans hrest,
      List.forall_mem_cons.mpr ⟨fun field => hrest.entry field p (hset field), hall⟩⟩

/-- A walk that has an entry for what it came across ends with all of them. The partitions that it
did not come across get theirs from START, which says everything once it is settled. -/
theorem Noted.settle {g : Graph R} (h : w.Noted g.partitions) (start : Vertex R) (minHits : Nat) :
    (w.settle g start minHits).estimate.probs.Known g.partitions
      ∧ (w.settle g start minHits).estimate.isValid = true := by
  obtain ⟨hextends, hall⟩ := w.foldl_settlePartition start.probs (List.range g.partitions) h.size
    (fun p hp => List.mem_range.mp hp)
    fun p hp htouched => h.done p (List.mem_range.mp hp) (.inl htouched)
  -- What is filled in besides, about the transaction as a whole, is in no column.
  have hcolumn : ∀ field, (w.settle g start minHits).estimate.probs.column field
      = ((List.range g.partitions).foldl (w.settlePartition start.probs) w.estimate.probs).column
        field := by
    intro field
    cases field <;> rfl
  have hknown : (w.settle g start minHits).estimate.probs.Known g.partitions := by
    refine ⟨?_, rfl, fun field p hp => ?_⟩
    · rw [Walker.settle]
      dsimp only
      split <;> rfl
    · rw [get?, hcolumn]
      exact hall p (List.mem_range.mpr hp) field
  have hcomplete := isComplete_of_known hknown fun field =>
    (congrArg Array.size (hcolumn field)).trans ((hextends.size field).trans (h.size field))
  refine ⟨hknown, ?_⟩
  rw [Estimate.isValid, hcomplete, Bool.and_true]
  exact h.vertex

end Walker

end TxnPath
