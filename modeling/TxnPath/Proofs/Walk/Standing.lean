import TxnPath.Proofs.Graph.Tracked
import TxnPath.Proofs.Walk.Completeness

/-!
# `TxnPath.Proofs.Walk.Standing`: one partition during a walk

A call changes what a walk knows about each of the partitions that it touches, and about no other
one. `Walker.standing` is what is known about one partition: whether it was touched, read and
written, and its three entries in the estimate. `Standing.meet` is what one call that touches the
partition makes of it. `Walker.Meets` says what a call does to a walk, partition by partition and as
a whole, and `Walker.visit_cases` that a visit of a call does this and a visit of a sentinel nothing.

`Walker.get?_settle` is the same for the end of a walk, where entries are filled in.
-/

set_option autoImplicit false

namespace TxnPath

variable {R : Type}

/-- A fold of steps, seen through a view that only the steps of one number change, and no further if
there are several of them. -/
theorem foldl_view {σ τ : Type} {f : σ → Nat → σ} {q : Nat} (view : σ → τ) (step : τ → τ)
    (inv : σ → Prop) (hinv : ∀ s p, inv s → inv (f s p))
    (hstep : ∀ s p, inv s → view (f s p) = if p = q then step (view s) else view s)
    (hagain : ∀ x, step (step x) = step x) (ps : List Nat) {s : σ} (hs : inv s) :
    view (ps.foldl f s) = if q ∈ ps then step (view s) else view s := by
  induction ps generalizing s with
  | nil => rfl
  | cons p ps ih =>
    rw [List.foldl_cons, ih (hinv s p hs), hstep s p hs]
    by_cases hp : p = q
    · subst hp
      simp [hagain]
    · simp [hp, Ne.symm hp]

namespace ProbabilityTable

variable {t : ProbabilityTable R} {n p q : Nat}

/-- The table has entries for so many partitions. -/
def Sized (t : ProbabilityTable R) (n : Nat) : Prop := ∀ field, (t.column field).size = n

/-- Writing an entry leaves the columns as long as they are. -/
theorem Sized.set (h : t.Sized n) (field : PartitionField) (p : Nat) (x : R) :
    (t.set field p x).Sized n :=
  fun field' => ((extends_set t field p x).size field').trans (h field')

/-- Setting an entry sets this entry. -/
theorem Sized.get?_set (h : t.Sized n) (hq : q < n) (field : PartitionField) (p : Nat) (x : R)
    (field' : PartitionField) :
    (t.set field p x).get? field' q
      = if field = field' ∧ p = q then some x else t.get? field' q := by
  have hq' : q < (t.column field').size := (h field').symm ▸ hq
  rw [get?, get?, column_set]
  by_cases hfield : field = field'
  · by_cases hpq : p = q
    · simp [hfield, hpq, hq']
    · simp [hfield, hpq]
  · simp [hfield]

end ProbabilityTable

namespace Graph

/-- The abort probability of a vertex, if it is set. -/
def abortAt? (g : Graph R) (v : Nat) : Option R := g.vertices[v]?.bind fun x => x.probs.abort

end Graph

/-! ### What is known about a partition -/

/-- What a walk knows about one partition. The registers of a walk keep it for all partitions
together; taken apart, each partition can be followed through a walk on its own. -/
structure Standing (R : Type) where
  touched : Bool
  read : Bool
  written : Bool
  done : Option R
  readOnly : Option R
  write : Option R

namespace Standing

variable [Scalar R]

/-- The partition is read, with a confidence. -/
def noteRead (x : Standing R) (c : R) : Standing R :=
  if x.read then x
  else { x with
    read := true
    readOnly := some c
    done := if x.touched then x.done else some (1 - c) }

/-- The partition is written, with a confidence. -/
def noteWrite (x : Standing R) (c : R) : Standing R :=
  if x.written then x
  else { x with
    written := true
    readOnly := some 0
    write := some c
    done := if x.touched then x.done else some (1 - c) }

/-- The partition is read or written, with a confidence. -/
def note (reads : Bool) (x : Standing R) (c : R) : Standing R :=
  if reads then x.noteRead c else x.noteWrite c

/-- The partition is met by a call that reads or writes it, with a confidence. -/
def meet (reads : Bool) (x : Standing R) (c : R) : Standing R :=
  { x.note reads c with touched := true }

/-- What is noted twice is noted once. -/
theorem note_again (reads : Bool) (x : Standing R) (c : R) :
    (x.note reads c).note reads c = x.note reads c := by
  cases reads with
  | true => cases h : x.read <;> simp [note, noteRead, h]
  | false => cases h : x.written <;> simp [note, noteWrite, h]

end Standing

namespace Walker

variable {w w' : Walker R} {g : Graph R} {n p q v : Nat} {c : Call}

/-- What a walk knows about a partition. -/
def standing (w : Walker R) (q : Nat) : Standing R where
  touched := decide (q ∈ w.touched)
  read := decide (q ∈ w.read)
  written := decide (q ∈ w.written)
  done := w.estimate.probs.get? .done q
  readOnly := w.estimate.probs.get? .readOnly q
  write := w.estimate.probs.get? .write q

/-- What noting reads and writes leaves alone. Only the partitions read or written change, and their
entries in the table. -/
structure SameCourse (w w' : Walker R) : Prop where
  confidence : w'.confidence = w.confidence
  touched : w'.touched = w.touched
  single : w'.estimate.probs.single = w.estimate.probs.single
  greatestAbort : w'.greatestAbort = w.greatestAbort

/-- A walk has its own course. -/
theorem SameCourse.refl (w : Walker R) : SameCourse w w := ⟨rfl, rfl, rfl, rfl⟩

/-- Two changes that leave the course of a walk alone leave it alone together. -/
theorem SameCourse.trans {w'' : Walker R} (h : SameCourse w w') (h' : SameCourse w' w'') :
    SameCourse w w'' :=
  ⟨h'.confidence.trans h.confidence, h'.touched.trans h.touched, h'.single.trans h.single,
    h'.greatestAbort.trans h.greatestAbort⟩

variable [Scalar R]

/-- Notes that a partition is read or written. -/
def note (reads : Bool) : Walker R → Nat → Walker R := if reads then noteRead else noteWrite

/-- Noting that a partition was read or written fills entries in, and leaves the columns as long as
they are. -/
theorem sized_note {reads : Bool} (h : w.estimate.probs.Sized n) (p : Nat) :
    (w.note reads p).estimate.probs.Sized n := by
  cases reads with
  | true =>
    show (w.noteRead p).estimate.probs.Sized n
    rw [noteRead]
    split
    · exact h
    -- A partition that is read for the first time gets one entry or two, as it was touched before
    -- or not.
    · dsimp only [mapProbs]
      split
      · exact h.set _ _ _
      · exact (h.set _ _ _).set _ _ _
  | false =>
    show (w.noteWrite p).estimate.probs.Sized n
    rw [noteWrite]
    split
    · exact h
    · dsimp only [mapProbs]
      split
      · exact (h.set _ _ _).set _ _ _
      · exact ((h.set _ _ _).set _ _ _).set _ _ _

/-- It concerns neither the way of the walk nor its confidence, which the entries are taken from. So
it is the same confidence for all partitions of a call. -/
theorem sameCourse_note (reads : Bool) (w : Walker R) (p : Nat) :
    SameCourse w (w.note reads p) := by
  cases reads with
  | true =>
    show SameCourse w (w.noteRead p)
    rw [noteRead]
    split
    · exact .refl w
    · refine ⟨rfl, rfl, ?_, rfl⟩
      dsimp only [mapProbs]
      split <;> rfl
  -- The two sides differ in the order of their columns only.
  | false =>
    show SameCourse w (w.noteWrite p)
    rw [noteWrite]
    split
    · exact .refl w
    · refine ⟨rfl, rfl, ?_, rfl⟩
      dsimp only [mapProbs]
      split <;> rfl

/-- A read is noted at its own partition, and nothing else is known about the others than before.
The cases are whether the partition was read before, whether it was touched, and whether it is the
one that is asked about. -/
theorem standing_noteRead (h : w.estimate.probs.Sized n) (hq : q < n) (p : Nat) :
    (w.noteRead p).standing q
      = if p = q then (w.standing q).noteRead w.confidence else w.standing q := by
  have hread := h.get?_set hq .readOnly p w.confidence
  have hdone := (h.set .readOnly p w.confidence).get?_set hq .done p (1 - w.confidence)
  -- A second read changes nothing, and the first sets the entry whatever was there before.
  by_cases hold : p ∈ w.read
  · by_cases hpq : p = q
    · subst hpq
      simp [Walker.noteRead, Standing.noteRead, standing, hold]
    · simp [Walker.noteRead, hold, hpq]
  · by_cases htouched : p ∈ w.touched
    · by_cases hpq : p = q
      · subst hpq
        simp [Walker.noteRead, Standing.noteRead, standing, mapProbs, hold, htouched, hread]
      · simp [Walker.noteRead, standing, mapProbs, hold, htouched, hread, hpq, Ne.symm hpq]
    · by_cases hpq : p = q
      · subst hpq
        simp [Walker.noteRead, Standing.noteRead, standing, mapProbs, hold, htouched, hread, hdone]
      · simp [Walker.noteRead, standing, mapProbs, hold, htouched, hread, hdone, hpq, Ne.symm hpq]

/-- So is a write. The standing of a partition is the part of a walk that is about it, so that
noting a write is an operation on the standing of one partition, and nothing for the others. -/
theorem standing_noteWrite (h : w.estimate.probs.Sized n) (hq : q < n) (p : Nat) :
    (w.noteWrite p).standing q
      = if p = q then (w.standing q).noteWrite w.confidence else w.standing q := by
  have hread := h.get?_set hq .readOnly p 0
  have hset := h.set .readOnly p 0
  have hwrite := hset.get?_set hq .write p w.confidence
  have hdone := (hset.set .write p w.confidence).get?_set hq .done p (1 - w.confidence)
  -- What is written depends on how often the partition was met before: a second write changes
  -- nothing, a write after a read makes it no longer read-only, and the first touch fills all three
  -- entries in.
  by_cases hold : p ∈ w.written
  · by_cases hpq : p = q
    · subst hpq
      simp [Walker.noteWrite, Standing.noteWrite, standing, hold]
    · simp [Walker.noteWrite, hold, hpq]
  · by_cases htouched : p ∈ w.touched
    · by_cases hpq : p = q
      · subst hpq
        simp [Walker.noteWrite, Standing.noteWrite, standing, mapProbs, hold, htouched, hread,
          hwrite]
      · simp [Walker.noteWrite, standing, mapProbs, hold, htouched, hread, hwrite, hpq,
          Ne.symm hpq]
    · by_cases hpq : p = q
      · subst hpq
        simp [Walker.noteWrite, Standing.noteWrite, standing, mapProbs, hold, htouched, hread,
          hwrite, hdone]
      · simp [Walker.noteWrite, standing, mapProbs, hold, htouched, hread, hwrite, hdone, hpq,
          Ne.symm hpq]

/-- Noting one partition is no business of the others. -/
theorem standing_note (reads : Bool) (h : w.estimate.probs.Sized n) (hq : q < n) (p : Nat) :
    (w.note reads p).standing q
      = if p = q then (w.standing q).note reads w.confidence else w.standing q := by
  cases reads with
  | true => exact standing_noteRead h hq p
  | false => exact standing_noteWrite h hq p

/-- Noting partitions, as far as the walk as a whole and one partition are concerned. A partition
that is listed is noted once, however often it is listed, and one that is not listed is left alone.
-/
theorem foldl_note (reads : Bool) (ps : List Nat) (h : w.estimate.probs.Sized n) :
    SameCourse w (ps.foldl (note reads) w) ∧ (ps.foldl (note reads) w).estimate.probs.Sized n
      ∧ ∀ q < n, (ps.foldl (note reads) w).standing q
        = if q ∈ ps then (w.standing q).note reads w.confidence else w.standing q := by
  have hcourse : SameCourse w (ps.foldl (note reads) w)
      ∧ (ps.foldl (note reads) w).estimate.probs.Sized n := by
    induction ps generalizing w with
    | nil => exact ⟨.refl w, h⟩
    | cons p ps ih =>
      have hfirst : (w.note reads p).estimate.probs.Sized n := sized_note h p
      obtain ⟨hsame, hsized⟩ := ih hfirst
      exact ⟨(sameCourse_note reads w p).trans hsame, hsized⟩
  refine ⟨hcourse.1, hcourse.2, fun q hq => ?_⟩
  -- What is noted depends on the confidence, so this belongs to the view.
  have hview := foldl_view (f := note reads) (q := q)
    (fun w : Walker R => (w.standing q, w.confidence)) (fun x => (x.1.note reads x.2, x.2))
    (fun w => w.estimate.probs.Sized n) (fun w p hw => sized_note hw p)
    (fun w p hw => by
      rw [standing_note reads hw hq p, (sameCourse_note reads w p).confidence]
      split <;> rfl)
    (fun x => by rw [Standing.note_again]) ps h
  have hfirst := congrArg Prod.fst hview
  rw [apply_ite Prod.fst] at hfirst
  exact hfirst

/-! ### A visit -/

omit [Scalar R] in
/-- Touching partitions changes which ones are touched. It fails only for want of a slot to count
in; here it is given to succeed. -/
theorem foldlM_noteTouch {ps : List Nat} (h : ps.foldlM Walker.noteTouch w = .ok w') :
    w'.confidence = w.confidence ∧ w'.greatestAbort = w.greatestAbort
      ∧ w'.estimate.probs = w.estimate.probs ∧ (∀ q, q ∈ w'.touched ↔ q ∈ ps ∨ q ∈ w.touched)
      ∧ w'.read = w.read ∧ w'.written = w.written := by
  induction ps generalizing w with
  | nil =>
    cases h
    exact ⟨rfl, rfl, rfl, fun q => by simp, rfl, rfl⟩
  | cons p ps ih =>
    obtain ⟨m, hm, hrest⟩ := Outcome.foldlM_cons_ok h
    obtain ⟨e, he, rfl⟩ := Outcome.map_ok hm
    obtain ⟨_, _, rfl⟩ := Outcome.map_ok he
    obtain ⟨hconfidence, habort, hprobs, htouched, hread, hwritten⟩ := ih hrest
    refine ⟨hconfidence, habort, hprobs, fun q => ?_, hread, hwritten⟩
    rw [htouched, PartitionSet.mem_insert, List.mem_cons]
    tauto

/-- What a visit of a call does to a walk. -/
structure Meets (c : Call) (abort : Option R) (n : Nat) (w w' : Walker R) : Prop where
  sized : w'.estimate.probs.Sized n
  /-- Each partition that the call touches is met. -/
  standing : ∀ q < n, w'.standing q
    = if q ∈ c.partitions then (w.standing q).meet c.queryType.isReadOnly w.confidence
      else w.standing q
  touched : ∀ q, q ∈ w'.touched ↔ q ∈ c.partitions ∨ q ∈ w.touched
  /-- The first call by which more than one partition is touched decides whether there is one. -/
  single : w'.estimate.probs.single
    = if 1 < w'.touched.size ∧ w.estimate.probs.single.isNone then some (1 - w.confidence)
      else w.estimate.probs.single
  greatestAbort : w'.greatestAbort
    = abort.elim w.greatestAbort fun a =>
      some ((w.greatestAbort.map fun g => Scalar.larger g a).getD a)

omit [Scalar R] in
/-- Whether there is one partition is noted at a walk, not at its partitions. -/
theorem noteSingle_spec (m : Walker R) {P : Prop} [Decidable P] (x : R) :
    let m' := if P then m.mapProbs fun t => { t with single := some x } else m
    (∀ n, m.estimate.probs.Sized n → m'.estimate.probs.Sized n) ∧ m'.standing = m.standing
      ∧ m'.touched = m.touched ∧ m'.greatestAbort = m.greatestAbort
      ∧ m'.estimate.probs.single = if P then some x else m.estimate.probs.single := by
  dsimp only
  split
  · exact ⟨fun n h field => h field, rfl, rfl, rfl, rfl⟩
  · exact ⟨fun n h => h, rfl, rfl, rfl, rfl⟩

/-- What a call makes of a walk: it meets each of its partitions, reads or writes it, decides
whether the transaction is single-sited once a second partition is touched, and keeps the greatest
abort probability. The partitions are noted in turn first and counted as touched afterwards. -/
theorem noteCall_meets {abort : Option R} (hsized : w.estimate.probs.Sized n)
    (h : w.noteCall c abort = .ok w') : Meets c abort n w w' := by
  obtain ⟨m, htouch, h⟩ := Outcome.bind_ok h
  obtain ⟨hcourse, hsized₁, hstanding⟩ :=
    foldl_note c.queryType.isReadOnly c.partitions.toList hsized
  have htouch : c.partitions.toList.foldlM Walker.noteTouch
      (c.partitions.toList.foldl (note c.queryType.isReadOnly) w) = .ok m := htouch
  obtain ⟨hconfidence, habort, hprobs, htouched, hread, hwritten⟩ := foldlM_noteTouch htouch
  generalize c.partitions.toList.foldl (note c.queryType.isReadOnly) w = noted at *
  have htouched' : ∀ q, q ∈ m.touched ↔ q ∈ c.partitions ∨ q ∈ w.touched := by
    intro q
    rw [htouched, hcourse.touched]
    rfl
  -- Touching a partition adds to its standing that it is touched.
  have hmet : ∀ q < n, m.standing q = if q ∈ c.partitions
      then (w.standing q).meet c.queryType.isReadOnly w.confidence else w.standing q := by
    intro q hq
    have hm : m.standing q = { noted.standing q with touched := decide (q ∈ m.touched) } := by
      simp only [standing, hprobs, hread, hwritten]
    rw [hm, hstanding q hq]
    by_cases hmem : q ∈ c.partitions
    · have hlisted : q ∈ c.partitions.toList := hmem
      simp [hmem, hlisted, htouched', Standing.meet]
    · have hunlisted : q ∉ c.partitions.toList := hmem
      simp [hmem, hunlisted, htouched', standing]
  have hsingle : m.estimate.probs.single = w.estimate.probs.single := by
    rw [hprobs, hcourse.single]
  have hconfidence' : m.confidence = w.confidence := hconfidence.trans hcourse.confidence
  have habort' : m.greatestAbort = w.greatestAbort := habort.trans hcourse.greatestAbort
  have hlast := m.noteSingle_spec (P := 1 < m.touched.size ∧ m.estimate.probs.single.isNone)
    (1 - m.confidence)
  dsimp only at h hlast
  generalize (if 1 < m.touched.size ∧ m.estimate.probs.single.isNone then
    m.mapProbs fun t => { t with single := some (1 - m.confidence) } else m) = m' at h hlast
  obtain ⟨hsized₂, hsame, hkept, habort₂, hsingle₂⟩ := hlast
  rw [← hkept, hconfidence', hsingle] at hsingle₂
  rw [← hkept] at htouched'
  cases abort with
  | none =>
    cases h
    exact ⟨hsized₂ n (hprobs ▸ hsized₁), fun q hq => (congrFun hsame q).trans (hmet q hq),
      htouched', hsingle₂, habort₂.trans habort'⟩
  | some a =>
    cases h
    refine ⟨hsized₂ n (hprobs ▸ hsized₁), fun q hq => (congrFun hsame q).trans (hmet q hq),
      htouched', hsingle₂, ?_⟩
    rw [habort₂, habort']
    rfl

/-- A visit of a call meets what the call touches. A visit of a sentinel makes the path longer and
does nothing else. -/
theorem visit_cases (hsized : w.estimate.probs.Sized n) (h : w.visit g v = .ok w') :
    (∃ c, g.callAt? v = some c ∧ Meets c (g.abortAt? v) n w w')
      ∨ g.callAt? v = none ∧ w' = { w with visited := w.visited ++ [v] } := by
  rw [visit] at h
  split at h
  · cases h
  · next x hx =>
    have hkind : g.kind? v = some x.kind := by rw [Graph.kind?, hx, Option.map_some]
    have hsized' : Walker.estimate { w with visited := w.visited ++ [v] } |>.probs.Sized n := hsized
    split at h
    -- The visit is of a call, which the rest of the proof is about; a sentinel is only added to the
    -- path.
    · next c hcall =>
      have hmeets := noteCall_meets hsized' h
      refine .inl ⟨c, Graph.callAt?_eq_some.mpr (hkind.trans (congrArg some hcall)), ?_⟩
      rw [Graph.abortAt?, hx, Option.bind_some]
      exact ⟨hmeets.sized, hmeets.standing, hmeets.touched, hmeets.single, hmeets.greatestAbort⟩
    · next hother =>
      refine .inr ⟨?_, (Except.ok.inj h).symm⟩
      rw [Graph.callAt?, hkind, Option.bind_some]
      cases hcall : x.kind with
      | query c => exact absurd hcall (hother c)
      | _ => rfl

/-! ### The end of a walk -/

variable {t start : ProbabilityTable R}

/-- The entries of one partition at the end of a walk, from those on the way and those of START. -/
def settledEntries (w : Walker R) (start : ProbabilityTable R) (q : Nat)
    (entries : PartitionField → Option R) : PartitionField → Option R :=
  if q ∈ w.touched then fun
    | .done => entries .done
    | .readOnly => some ((entries .readOnly).getD 0)
    | .write => some ((entries .write).getD (1 - w.confidence))
  else fun field => some ((start.get? field q).getD 0)

/-- Filling in the entries of a partition twice is filling them in once. -/
theorem settledEntries_again (w : Walker R) (start : ProbabilityTable R) (q : Nat)
    (entries : PartitionField → Option R) :
    w.settledEntries start q (w.settledEntries start q entries)
      = w.settledEntries start q entries := by
  by_cases htouched : q ∈ w.touched
  · funext field
    cases field <;> simp [settledEntries, htouched]
  · simp [settledEntries, htouched]

omit [Scalar R] in
/-- An entry that is filled in where it is unset. If it was set already, it keeps its value; all
other entries keep theirs in any case. -/
theorem get?_fill (h : t.Sized n) (hq : q < n) (field : PartitionField) (p : Nat) (x : R) :
    (if (t.get? field p).isNone then t.set field p x else t).Sized n
      ∧ ∀ field', (if (t.get? field p).isNone then t.set field p x else t).get? field' q
        = if field = field' ∧ p = q then some ((t.get? field q).getD x) else t.get? field' q := by
  split
  · next hunset =>
    refine ⟨h.set _ _ _, fun field' => ?_⟩
    rw [h.get?_set hq]
    by_cases hpq : p = q
    · subst hpq
      simp [Option.isNone_iff_eq_none.mp hunset]
    · simp [hpq]
  -- The entry was there already, and stays.
  · next hset =>
    refine ⟨h, fun field' => ?_⟩
    split
    · next hsame =>
      obtain ⟨rfl, rfl⟩ := hsame
      cases hx : t.get? field p with
      | none => exact absurd (hx ▸ rfl) hset
      | some y => rfl
    · rfl

/-- Filling in one partition is no business of the others. For a partition that was touched, entries
that are there stay; for one that was not, they are those of START. -/
theorem get?_settlePartition (h : t.Sized n) (hq : q < n) (p : Nat) :
    (w.settlePartition start t p).Sized n
      ∧ (fun field => (w.settlePartition start t p).get? field q)
        = if p = q then w.settledEntries start q (fun field => t.get? field q)
          else fun field => t.get? field q := by
  rw [settlePartition]
  split
  · next htouched =>
    obtain ⟨hsized, hwrite⟩ := get?_fill h hq .write p (1 - w.confidence)
    obtain ⟨hsized', hread⟩ := get?_fill hsized hq .readOnly p 0
    refine ⟨hsized', funext fun field => ?_⟩
    rw [hread, hwrite, hwrite]
    by_cases hpq : p = q
    · subst hpq
      cases field <;> simp [settledEntries, htouched]
    · simp [hpq]
  -- Nothing was predicted about the partition, so that START says all of it.
  · next huntouched =>
    have hdone := h.set .done p ((start.get? .done p).getD 0)
    have hread := hdone.set .readOnly p ((start.get? .readOnly p).getD 0)
    refine ⟨hread.set .write p ((start.get? .write p).getD 0), funext fun field => ?_⟩
    rw [hread.get?_set hq, hdone.get?_set hq, h.get?_set hq]
    by_cases hpq : p = q
    · subst hpq
      cases field <;> simp [settledEntries, huntouched]
    · simp [hpq]

/-- The entries of a partition at the end of a walk. -/
theorem get?_settle (h : w.estimate.probs.Sized g.partitions) (hq : q < g.partitions)
    (start : Vertex R) (minHits : Nat) (field : PartitionField) :
    (w.settle g start minHits).estimate.probs.get? field q
      = w.settledEntries start.probs q (fun field => w.estimate.probs.get? field q) field := by
  have hview := foldl_view (f := w.settlePartition start.probs) (q := q)
    (fun t field => t.get? field q) (w.settledEntries start.probs q) (fun t => t.Sized g.partitions)
    (fun _ p ht => (get?_settlePartition ht hq p).1)
    (fun _ p ht => (get?_settlePartition ht hq p).2)
    (w.settledEntries_again start.probs q) (List.range g.partitions) h
  rw [if_pos (List.mem_range.mpr hq)] at hview
  have hentry := congrFun hview field
  cases field <;> exact hentry

end Walker

end TxnPath
