import TxnPath.Proofs.Txn.Release

/-!
# `TxnPath.Proofs.Txn.Inputs`: the tables that a task takes

A task takes the tables of a dependency once, from the record of the statement whose
fragment is the first to consume it. `Task.draws` lists these records, in the order in which
the task goes through them; it reads the fragments only.

* `taskInputs_ok_iff`: a task gets its inputs if and only if every record that it draws on is
  `Filled`, that is listed, and holding as many results as it has producers.
* `taskInputs_draws`: it gets what these records hold, and leaves them without results. The
  others stay as they are.
* `orderedResults_eq`: the tables of a record come with those of the base partition first.
-/

set_option autoImplicit false

namespace TxnPath

/-- The records that fragments draw their inputs from, given the dependencies that have been
taken before. -/
def Fragment.draws : List DependencyId → List Fragment → List (Nat × DependencyId)
  | _, [] => []
  | seen, f :: rest =>
    match f.input with
    | none => draws seen rest
    | some d =>
      if d ∈ seen then draws seen rest else (f.index, d) :: draws (seen ++ [d]) rest

/-- The records that a task draws its inputs from, by statement and dependency. -/
def Task.draws (t : Task) : List (Nat × DependencyId) := Fragment.draws [] t.fragments

/-- A dependency that is drawn was not taken before, and a fragment consumes it. What was taken is a
parameter since it grows with every draw. -/
theorem Fragment.mem_draws {seen : List DependencyId} {fs : List Fragment} {i : Nat}
    {d : DependencyId} (h : (i, d) ∈ Fragment.draws seen fs) :
    d ∉ seen ∧ ∃ f ∈ fs, f.index = i ∧ f.input = some d := by
  induction fs generalizing seen with
  | nil => cases h
  | cons f rest ih =>
    -- What the later fragments draw, they draw whatever has been taken in addition.
    have later : ∀ {seen' : List DependencyId}, seen ⊆ seen' → (i, d) ∈ draws seen' rest →
        d ∉ seen ∧ ∃ g ∈ f :: rest, g.index = i ∧ g.input = some d := by
      intro seen' hsub hmem
      obtain ⟨hnew, g, hg, hkey⟩ := ih hmem
      exact ⟨fun hold => hnew (hsub hold), g, List.mem_cons_of_mem _ hg, hkey⟩
    unfold draws at h
    split at h
    · exact later (List.Subset.refl _) h
    · next c hinput =>
      split at h
      · exact later (List.Subset.refl _) h
      · next hnew =>
        rcases List.mem_cons.mp h with hhead | hrest
        · obtain ⟨rfl, rfl⟩ := Prod.mk.inj hhead
          exact ⟨hnew, f, List.mem_cons_self, rfl, hinput⟩
        · exact later (List.subset_append_left _ _) hrest

/-- A task consumes what it draws. -/
theorem Task.consumes_of_mem_draws {t : Task} {i : Nat} {d : DependencyId}
    (h : (i, d) ∈ t.draws) : t.Consumes i d :=
  (Fragment.mem_draws h).2

namespace Round

open DependencyRecord

variable {r r' : Round} {txn : TxnId} {base : Nat} {task : TaskId} {i : Nat} {d : DependencyId}

/-- A record is listed, and holds as many results as it has producers. -/
def Filled (r : Round) (i : Nat) (d : DependencyId) : Prop :=
  ∃ e, r.record? i d = some e ∧ e.producers.length = e.results.length

/-- In a filled record no producer's result is missing. -/
theorem Filled.lengths (h : r.Filled i d) :
    (r.entry i d).producers.length = (r.entry i d).results.length := by
  obtain ⟨e, he, hlengths⟩ := h
  rw [entry_of_record? he]
  exact hlengths

/-- A complete record is filled: it has producers, so that it is listed. -/
theorem filled_of_isComplete (h : (r.entry i d).isComplete = true) : r.Filled i d := by
  obtain ⟨hproducers, hlength⟩ := isComplete_iff.mp h
  obtain ⟨p, hp⟩ := List.exists_mem_of_ne_nil _ hproducers
  exact ⟨_, record?_of_mem_producers hp, hlength.symm⟩

/-- The round after the results of a listed record have been taken. -/
def emptiedAt (r : Round) (i : Nat) (d : DependencyId) (e : DependencyRecord) : Round :=
  r.updateRecord i d fun _ => { e with results := [] }

section emptiedAt

variable {e : DependencyRecord} {j : Nat} {c : DependencyId}

/-- An emptied record answers to the key that it was found under. -/
theorem keepsKey_emptied (he : r.record? i d = some e) :
    KeepsKey i d fun _ => { e with results := [] } :=
  keepsKey_const (e := { e with results := [] }) (isFor_of_record? he :)

/-- Emptying one record leaves whether another is filled. -/
theorem filled_emptiedAt (he : r.record? i d = some e) (hne : ¬(j = i ∧ c = d)) :
    (r.emptiedAt i d e).Filled j c ↔ r.Filled j c := by
  unfold Filled emptiedAt
  rw [record?_updateRecord_of_ne (keepsKey_emptied he) hne]

/-- What the table holds after one record was emptied. -/
theorem entry_emptiedAt (he : r.record? i d = some e) (j : Nat) (c : DependencyId) :
    (r.emptiedAt i d e).entry j c
      = if j = i ∧ c = d then { e with results := [] } else r.entry j c :=
  entry_updateRecord (keepsKey_emptied he) j c

end emptiedAt

/-! ### Taking inputs, fragment by fragment -/

variable {taken taken' : List (DependencyId × List ResultTable)} {f : Fragment}
  {rest : List Fragment}

section

variable (txn : TxnId) (base : Nat) (task : TaskId) (r : Round) (rest : List Fragment)

/-- A fragment that consumes nothing, or what has been taken before, is passed over. -/
theorem takeInputs_skip (h : ∀ c, f.input = some c → c ∈ taken.map Prod.fst) :
    takeInputs txn base task r taken (f :: rest) = takeInputs txn base task r taken rest
      ∧ Fragment.draws (taken.map Prod.fst) (f :: rest)
        = Fragment.draws (taken.map Prod.fst) rest := by
  rw [takeInputs, Fragment.draws]
  cases hinput : f.input with
  | none => exact ⟨rfl, rfl⟩
  | some c =>
    have hmem := h c hinput
    have hany : (taken.any fun e => e.1 == c) = true := by
      obtain ⟨e, he, rfl⟩ := List.mem_map.mp hmem
      exact List.any_eq_true.mpr ⟨e, he, beq_self_eq_true _⟩
    exact ⟨if_pos hany, if_pos hmem⟩

/-- A fragment that consumes a dependency for the first time draws on its record. There are three
parts: that it counts among the draws, what the run does if the record is filled, and that the run
stops if it is not. -/
theorem takeInputs_draw (hinput : f.input = some d) (hnew : d ∉ taken.map Prod.fst) :
    Fragment.draws (taken.map Prod.fst) (f :: rest)
        = (f.index, d) :: Fragment.draws (taken.map Prod.fst ++ [d]) rest
      ∧ (∀ e, r.record? f.index d = some e → e.producers.length = e.results.length →
        takeInputs txn base task r taken (f :: rest)
          = takeInputs txn base task (r.emptiedAt f.index d e)
              (taken ++ [(d, e.orderedResults base)]) rest)
      ∧ (¬ r.Filled f.index d → ∀ out, takeInputs txn base task r taken (f :: rest) ≠ .ok out) := by
  -- The dependency was not taken before, so that the fragment is not passed over.
  have hany : (taken.any fun e => e.1 == d) = false := by
    refine Bool.eq_false_iff.mpr fun hany => hnew ?_
    obtain ⟨e, he, hd⟩ := List.any_eq_true.mp hany
    exact List.mem_map.mpr ⟨e, he, by simpa using hd⟩
  refine ⟨by simp only [Fragment.draws, hinput, if_neg hnew], fun e he hlengths => ?_,
    fun hempty out hout => ?_⟩
  · rw [takeInputs, hinput]
    simp only [hany, he, if_pos hlengths]
    rfl
  · rw [takeInputs, hinput] at hout
    simp only [hany] at hout
    -- A record that is not filled is missing or incomplete, and both are faults.
    cases he : r.record? f.index d with
    | none =>
      rw [he] at hout
      cases hout
    | some e =>
      have hlengths : ¬ e.producers.length = e.results.length := fun hl => hempty ⟨e, he, hl⟩
      simp only [he, if_neg hlengths] at hout
      cases hout

end

/-- What is drawn later is not drawn first: each dependency is taken once. -/
private theorem ne_of_mem_draws {seen : List DependencyId} {k : Nat × DependencyId}
    (hk : k ∈ Fragment.draws (seen ++ [d]) rest) (i : Nat) : ¬(k.1 = i ∧ k.2 = d) := by
  rintro ⟨_, rfl⟩
  exact (Fragment.mem_draws hk).1 (List.mem_append_right _ List.mem_cons_self)

/-- Fragments get their inputs if and only if the records that they draw on are filled. One
direction has to exclude that an earlier fragment empties what a later one draws on, which holds as
each dependency is drawn on once. -/
theorem takeInputs_ok_iff {fs : List Fragment} :
    (∃ out, takeInputs txn base task r taken fs = .ok out)
      ↔ ∀ k ∈ Fragment.draws (taken.map Prod.fst) fs, r.Filled k.1 k.2 := by
  -- By the fragments: what one of them draws, the later ones find empty, and do not draw again.
  induction fs generalizing r taken with
  | nil => exact ⟨fun _ k hk => absurd hk List.not_mem_nil, fun _ => ⟨_, rfl⟩⟩
  | cons f rest ih =>
    by_cases hskip : ∀ c, f.input = some c → c ∈ taken.map Prod.fst
    · obtain ⟨htake, hdraws⟩ := takeInputs_skip txn base task r rest hskip
      rw [htake, hdraws]
      exact ih
    · push Not at hskip
      obtain ⟨d, hinput, hnew⟩ := hskip
      obtain ⟨hdraws, htake, hfault⟩ := takeInputs_draw txn base task r rest hinput hnew
      rw [hdraws, List.forall_mem_cons]
      by_cases hfilled : r.Filled f.index d
      · obtain ⟨e, he, hlengths⟩ := hfilled
        have hlater : (∃ out, takeInputs txn base task (r.emptiedAt f.index d e)
              (taken ++ [(d, e.orderedResults base)]) rest = .ok out)
            ↔ ∀ k ∈ Fragment.draws (taken.map Prod.fst ++ [d]) rest,
              (r.emptiedAt f.index d e).Filled k.1 k.2 := by
          rw [ih, List.map_append, List.map_singleton]
        rw [htake e he hlengths, hlater]
        constructor
        · intro h
          exact ⟨⟨e, he, hlengths⟩, fun k hk =>
            (filled_emptiedAt he (ne_of_mem_draws hk _)).mp (h k hk)⟩
        · intro h k hk
          exact (filled_emptiedAt he (ne_of_mem_draws hk _)).mpr (h.2 k hk)
      · constructor
        · rintro ⟨out, hout⟩
          exact absurd hout (hfault hfilled out)
        · intro h
          exact absurd h.1 hfilled

/-- Fragments get what the records that they draw on hold, and empty these records. All of this is
in terms of the round before the first fragment, although the run goes through as many rounds as
there are draws. -/
theorem takeInputs_draws {fs : List Fragment}
    (h : takeInputs txn base task r taken fs = .ok (r', taken')) :
    taken' = taken ++ (Fragment.draws (taken.map Prod.fst) fs).map
        (fun k => (k.2, (r.entry k.1 k.2).orderedResults base))
      ∧ ∀ i d, (r'.entry i d).results
        = if (i, d) ∈ Fragment.draws (taken.map Prod.fst) fs then []
          else (r.entry i d).results := by
  induction fs generalizing r taken with
  | nil =>
    cases h
    exact ⟨(List.append_nil _).symm, fun _ _ => rfl⟩
  | cons f rest ih =>
    -- A fragment draws on a record unless it has no input or its dependency was taken before.
    by_cases hskip : ∀ c, f.input = some c → c ∈ taken.map Prod.fst
    · obtain ⟨htake, hdraws⟩ := takeInputs_skip txn base task r rest hskip
      rw [hdraws]
      exact ih (htake ▸ h)
    · push Not at hskip
      obtain ⟨d, hinput, hnew⟩ := hskip
      obtain ⟨hdraws, htake, hfault⟩ := takeInputs_draw txn base task r rest hinput hnew
      obtain ⟨e, he, hlengths⟩ : r.Filled f.index d := by
        by_contra hempty
        exact hfault hempty _ h
      obtain ⟨htaken, hresults⟩ := ih ((htake e he hlengths).symm.trans h)
      rw [List.map_append, List.map_singleton] at htaken hresults
      have hentry := entry_emptiedAt (r := r) he
      rw [hdraws]
      refine ⟨?_, fun i c => ?_⟩
      · -- The later fragments find their records as they were.
        have hsame : (Fragment.draws (taken.map Prod.fst ++ [d]) rest).map
              (fun k => (k.2, ((r.emptiedAt f.index d e).entry k.1 k.2).orderedResults base))
            = (Fragment.draws (taken.map Prod.fst ++ [d]) rest).map
              (fun k => (k.2, (r.entry k.1 k.2).orderedResults base)) := by
          refine List.map_congr_left fun k hk => ?_
          rw [hentry, if_neg (ne_of_mem_draws hk _)]
        rw [htaken, hsame, List.map_cons, entry_of_record? he, List.append_assoc]
        rfl
      · rw [hresults, hentry]
        by_cases hkey : i = f.index ∧ c = d
        · obtain ⟨rfl, rfl⟩ := hkey
          simp
        · have hhead : ¬ (i, c) = (f.index, d) := fun h => hkey (Prod.mk.inj h)
          simp [hkey, hhead]

/-- A task gets its inputs if and only if the records that it draws on are filled. -/
theorem taskInputs_ok_iff {t : Task} :
    (∃ out, takeInputs txn base t.id r [] t.fragments = .ok out)
      ↔ ∀ k ∈ t.draws, r.Filled k.1 k.2 :=
  takeInputs_ok_iff

/-- A task gets what the records that it draws on hold, and empties these records. -/
theorem taskInputs_draws {t : Task} {inputs : List (DependencyId × List ResultTable)}
    (h : takeInputs txn base t.id r [] t.fragments = .ok (r', inputs)) :
    inputs = t.draws.map (fun k => (k.2, (r.entry k.1 k.2).orderedResults base))
      ∧ ∀ i d, (r'.entry i d).results = if (i, d) ∈ t.draws then [] else (r.entry i d).results :=
  takeInputs_draws h

end Round

/-! ### The order of the tables -/

/-- An element that passes a test comes in front of all others, and one that fails it comes
behind those that pass. -/
theorem insertOrdered_of_test {α : Type} {p : α → Bool} {front back : List α} (a : α)
    (hfront : ∀ b ∈ front, p b = true) (hback : ∀ b ∈ back, p b = false) :
    insertOrdered (fun a b => p a || !p b) a (front ++ back)
      = if p a then a :: (front ++ back) else front ++ a :: back := by
  induction front with
  | nil =>
    cases back with
    | nil => simp [insertOrdered]
    | cons b rest => simp [insertOrdered, hback b List.mem_cons_self]
  | cons b rest ih =>
    obtain ⟨hb, hrest⟩ := List.forall_mem_cons.mp hfront
    have hlater := ih hrest
    -- An element that passes the test goes to the front at once; another walks past all that pass.
    cases ha : p a with
    | true => simp [insertOrdered, ha]
    | false =>
      rw [ha] at hlater
      simpa [insertOrdered, ha, hb] using hlater

/-- Sorting by a test puts the elements that pass in front of those that do not. -/
theorem stableSort_of_test {α : Type} (p : α → Bool) (xs : List α) :
    stableSort (fun a b => p a || !p b) xs = xs.filter p ++ xs.filter fun a => !p a := by
  induction xs with
  | nil => rfl
  | cons a rest ih =>
    show insertOrdered _ a (stableSort _ rest) = _
    rw [ih, insertOrdered_of_test a (fun b hb => (List.mem_filter.mp hb).2)
      (fun b hb => by simpa using (List.mem_filter.mp hb).2)]
    cases ha : p a with
    | true => simp [ha]
    | false => simp [ha]

/-- The tables of the base partition come first, and otherwise as they came. -/
theorem DependencyRecord.orderedResults_eq (e : DependencyRecord) (base : Nat) :
    e.orderedResults base
      = (e.results.filter (fun x => x.1 == base) ++ e.results.filter (fun x => x.1 != base)).map
          Prod.snd :=
  congrArg (List.map Prod.snd) (stableSort_of_test (fun x => x.1 == base) e.results)

end TxnPath
