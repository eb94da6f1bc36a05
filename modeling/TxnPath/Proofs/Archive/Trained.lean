import TxnPath.Proofs.Archive.Codec
import TxnPath.Proofs.Archive.RoundTrip
import TxnPath.Proofs.Forecast.Permutation
import TxnPath.Proofs.Graph.Balance

/-!
# `TxnPath.Proofs.Archive.Trained`: what training saves

Graphs are kept by the number of their procedure, and stored by its name. Training an empty store gives
one that can always be stored, and the archive passes verification. Whether the graphs come back is a
matter of names. `GraphStore.train_restored_iff` says that loading restores the store if and only if
every procedure that the workload calls is the first of its name. Nothing else is in the way: all graphs
were recomputed, so that their records say all about them, and in exact arithmetic they are sane.

That loading restores the store only then is seen by the keys. Loading sends every key to one that
it leaves alone, that of the first procedure of the name. If all keys of the store are among those that
come out, then none of them was moved.
-/

set_option autoImplicit false

namespace TxnPath

/-- The results of a list of operations, one by one. This holds of errors of any type, and is needed
for the errors of an archive as well as for faults. -/
theorem Outcome.mapM_ok_iff {ε α β : Type} {f : α → Except ε β} {l : List α} {bs : List β} :
    l.mapM f = .ok bs ↔ List.Forall₂ (fun a b => f a = .ok b) l bs := by
  induction l generalizing bs with
  | nil =>
    rw [List.forall₂_nil_left_iff]
    exact ⟨fun h => (Except.ok.inj h).symm, fun h => h ▸ rfl⟩
  | cons a l ih =>
    rw [List.mapM_cons, List.forall₂_cons_left_iff]
    simp only [← ih]
    -- The head and the tail each succeed or do not; only if both do is there a list.
    rcases f a with e | b
    · exact ⟨nofun, nofun⟩
    · rcases l.mapM f with e | bs'
      · exact ⟨nofun, nofun⟩
      · constructor
        · intro h
          cases h
          exact ⟨b, bs', rfl, rfl, rfl⟩
        · rintro ⟨_, _, hb, hbs, rfl⟩
          cases hb
          cases hbs
          rfl

/-- What holds of two lists place by place can be chained. -/
theorem forall₂_comp {α β γ : Type} {P : α → β → Prop} {Q : β → γ → Prop} {as : List α} {bs : List β}
    {cs : List γ} (h : List.Forall₂ P as bs) (h' : List.Forall₂ Q bs cs) :
    List.Forall₂ (Relation.Comp P Q) as cs := by
  induction h generalizing cs with
  | nil =>
    cases h'
    exact .nil
  | cons hp _ ih =>
    cases h' with
    | cons hq hrest => exact .cons ⟨_, hp, hq⟩ (ih hrest)

variable {R : Type}

/-! ### Stores from lists of graphs -/

namespace GraphStore

variable {s : GraphStore R} {k : GraphKey} {g : Graph R} {gs : List (Graph R)}

/-- The graphs of a store are listed with their keys. -/
theorem mem_toList_iff : (k, g) ∈ s.toList ↔ s.get? k = some g :=
  Std.ExtTreeMap.mem_toList_iff_getElem?_eq_some

/-- No key is listed twice. -/
theorem nodup_keys (s : GraphStore R) : (s.toList.map Prod.fst).Nodup := by
  refine List.pairwise_map.mpr (s.graphs.distinct_keys_toList.imp fun hne heq => hne ?_)
  rw [heq]
  exact Std.ReflCmp.compare_self

/-- Putting graphs under their own keys leaves the other keys as they are. -/
theorem get?_foldl_insert_of_notMem (h : k ∉ gs.map Graph.key) :
    (gs.foldl insert s).get? k = s.get? k := by
  induction gs generalizing s with
  | nil => rfl
  | cons g gs ih =>
    rw [List.map_cons, List.mem_cons, not_or] at h
    rw [List.foldl_cons, ih h.2, insert, get?_set_ne _ _ (Ne.symm h.1)]

/-- Graphs with different keys are all found under them. -/
theorem get?_foldl_insert (hnodup : (gs.map Graph.key).Nodup) (hg : g ∈ gs) :
    (gs.foldl insert s).get? g.key = some g := by
  induction gs generalizing s with
  | nil => cases hg
  | cons g' gs ih =>
    obtain ⟨hnew, hnodup⟩ := List.nodup_cons.mp hnodup
    rw [List.foldl_cons]
    rcases List.mem_cons.mp hg with rfl | hg
    · rw [get?_foldl_insert_of_notMem hnew, insert, get?_set_self]
    · exact ih hnodup hg

/-- A store in which graphs are under their own keys is that of its graphs. So nothing is lost by
writing the graphs without their keys. -/
theorem foldl_insert_toList (h : ∀ k g, s.get? k = some g → g.key = k) :
    (s.toList.map Prod.snd).foldl insert ∅ = s := by
  -- Graphs are put back under their own keys, which are the keys they were listed under.
  have hkeys : (s.toList.map Prod.snd).map Graph.key = s.toList.map Prod.fst := by
    rw [List.map_map]
    exact List.map_congr_left fun x hx => h x.1 x.2 (mem_toList_iff.mp hx)
  refine ext_get? fun k => ?_
  cases hget : s.get? k with
  | none =>
    rw [get?_foldl_insert_of_notMem]
    · exact Std.ExtTreeMap.getElem?_empty
    · rw [hkeys]
      rintro hk
      obtain ⟨x, hx, rfl⟩ := List.mem_map.mp hk
      cases (mem_toList_iff.mp hx).symm.trans hget
  | some g =>
    have hmem : g ∈ s.toList.map Prod.snd := List.mem_map.mpr ⟨(k, g), mem_toList_iff.mpr hget, rfl⟩
    have hfound := get?_foldl_insert (s := ∅) (hkeys ▸ s.nodup_keys) hmem
    rwa [h k g hget] at hfound

end GraphStore

/-! ### Keys that come out of an archive -/

namespace Catalog

variable {c : Catalog} {p q : Procedure} {k : GraphKey}

/-- Where the graph of a key is found after loading: under the first procedure that has the name of
the key's procedure. -/
def restoredKey (c : Catalog) (k : GraphKey) : GraphKey :=
  match (c.procedure k.procedure).toOption.bind fun p => (c.procedureNamed p.name).toOption with
  | some q => ⟨k.base, q.id⟩
  | none => k

/-- A graph comes back under the first procedure with the name of its own. -/
theorem restoredKey_eq (hp : c.procedure k.procedure = .ok p) (hq : c.procedureNamed p.name = .ok q) :
    c.restoredKey k = ⟨k.base, q.id⟩ := by
  rw [restoredKey, hp]
  dsimp only [Except.toOption, Option.bind_some]
  rw [hq]

/-- Loading does not move what it has moved before. -/
theorem restoredKey_restoredKey (hvalid : c.validate = .ok ()) (k : GraphKey) :
    c.restoredKey (c.restoredKey k) = c.restoredKey k := by
  cases hp : c.procedure k.procedure with
  | error e => simp [restoredKey, hp, Except.toOption]
  | ok p =>
    cases hq : c.procedureNamed p.name with
    | error e => simp [restoredKey, hp, hq, Except.toOption]
    | ok q =>
      obtain ⟨hmem, hname⟩ := procedureNamed_ok hq
      rw [restoredKey_eq hp hq]
      exact restoredKey_eq (procedure_of_mem hvalid hmem) (hname ▸ hq)

end Catalog

/-! ### Graphs that are all in their records -/

/-- A graph of a procedure that is all in its record: nothing was counted since its probabilities were
derived, and they follow from the rest. -/
structure Graph.Saved [Scalar R] (g : Graph R) (c : Catalog) (p : Procedure) : Prop where
  found : c.procedure g.procedure = .ok p
  folded : g.Folded
  derived : g.derive = .ok g
  named : g.Named p c.partitions
  recorded : ∃ paths m, g.Recorded ⟨0, 1, 2⟩ paths m

namespace Graph.Saved

variable [Scalar R] {g g' : Graph R} {c : Catalog} {p : Procedure}

/-- A graph comes back if its procedure is found by its name. -/
theorem load (h : g.Saved c p) (hname : c.procedureNamed p.name = .ok p) :
    (g.recordOf p).load c = .ok (.ok g) := by
  obtain ⟨paths, m, hrecorded⟩ := h.recorded
  have hbuild : (g.recordOf p).build p = .ok ((g.recordOf p).skeleton p.id ⟨0, 1, 2⟩ : Graph R) :=
    GraphRecord.build_ok_iff.mpr ⟨_, h.named.wellFormed hrecorded, rfl⟩
  rw [GraphRecord.load_built hname h.named.partitions hbuild,
    derive_congr (h.folded.skeleton h.named.procedure hrecorded.initialized.placed), h.derived]
  rfl

/-- What comes back from the record of a graph is under the first procedure of the name. -/
theorem key_of_load (h : g.Saved c p) (hload : (g.recordOf p).load c = .ok (.ok g')) :
    (∃ q, c.procedureNamed p.name = .ok q) ∧ g'.key = c.restoredKey g.key := by
  obtain ⟨q, s, hq, _, hformed, hderive⟩ := GraphRecord.load_ok hload
  have hsame := ((hformed.initialized q.id).derive_same hderive).2
  refine ⟨⟨q, hq⟩, ?_⟩
  rw [Catalog.restoredKey_eq (k := g.key) h.found hq, key, hsame.frame]
  rfl

end Graph.Saved

/-! ### Archives of stores -/

namespace Archive

variable [Scalar R] {s : GraphStore R} {c : Catalog} {rs : List GraphRecord} {gs : List (Graph R)}

/-- Graphs are loaded one by one. All have to succeed, and the list of graphs goes along with the
list of records. -/
theorem loadGraphs_ok_iff :
    loadGraphs c rs = .ok (.ok gs) ↔ List.Forall₂ (fun r g => r.load c = .ok (.ok g)) rs gs := by
  induction rs generalizing gs with
  | nil =>
    rw [List.forall₂_nil_left_iff, loadGraphs]
    exact ⟨fun h => (Except.ok.inj (Except.ok.inj h)).symm, fun h => h ▸ rfl⟩
  | cons r rs ih =>
    rw [loadGraphs, List.forall₂_cons_left_iff]
    simp only [← ih]
    -- A record, and then the rest, are loaded, refused or stop the program.
    rcases hload : (r.load c : Except Fault (Except Error (Graph R))) with f | e | g
    · exact ⟨nofun, nofun⟩
    · exact ⟨nofun, nofun⟩
    · rcases hrest : (loadGraphs c rs : Except Fault (Except Error (List (Graph R))))
        with f | e | gs'
      · exact ⟨nofun, nofun⟩
      · exact ⟨nofun, nofun⟩
      · constructor
        · intro h
          cases h
          exact ⟨g, gs', rfl, rfl, rfl⟩
        · rintro ⟨_, _, hg, hgs, rfl⟩
          cases hg
          cases hgs
          rfl

/-- An archive that was made from records is loaded record by record. -/
theorem toGraphs_ofRecords (rs : List GraphRecord) (c : Catalog) :
    ((ofRecords rs).toGraphs c : Except Fault (Except Error (List (Graph R)))) = loadGraphs c rs := by
  rw [toGraphs, verify_ofRecords]
  rfl

/-- Its store has the graphs that were loaded, each under its own key. -/
theorem toStore_ofRecords_ok_iff :
    (ofRecords rs).toStore c = .ok (.ok s)
      ↔ ∃ gs, loadGraphs c rs = .ok (.ok gs) ∧ gs.foldl GraphStore.insert ∅ = s := by
  rw [toStore, toGraphs_ofRecords]
  rcases (loadGraphs c rs : Except Fault (Except Error (List (Graph R)))) with f | e | gs
  · exact ⟨nofun, nofun⟩
  · exact ⟨nofun, nofun⟩
  · constructor
    · intro h
      exact ⟨gs, rfl, Except.ok.inj (Except.ok.inj h)⟩
    · rintro ⟨_, hgs, rfl⟩
      cases hgs
      rfl

end Archive

namespace GraphStore

variable [Scalar R] {s : GraphStore R} {c : Catalog} {rs : List GraphRecord}

/-- The graphs of a store are under their own keys, and all in their records. -/
def Saved (s : GraphStore R) (c : Catalog) : Prop :=
  ∀ k g, s.get? k = some g → g.key = k ∧ ∃ p, g.Saved c p

/-- The procedures of all graphs are found by their names. -/
def FoundByName (s : GraphStore R) (c : Catalog) : Prop :=
  ∀ k, (s.get? k).isSome → ∀ p, c.procedure k.procedure = .ok p → c.procedureNamed p.name = .ok p

/-- The records of a store, graph by graph. -/
def Records (s : GraphStore R) (c : Catalog) (rs : List GraphRecord) : Prop :=
  List.Forall₂ (fun x r => x.2.key = x.1 ∧ s.get? x.1 = some x.2
    ∧ ∃ p, x.2.Saved c p ∧ r = x.2.recordOf p) s.toList rs

/-- A store of graphs that are in their records can be stored. All that storing asks for is the name
of the procedure of each graph. -/
theorem Saved.toArchive (h : s.Saved c) :
    ∃ rs, s.toArchive c = .ok (.ofRecords rs) ∧ s.Records c rs := by
  have hentry : ∀ x ∈ s.toList, x.2.key = x.1 ∧ s.get? x.1 = some x.2 ∧ ∃ p, x.2.Saved c p :=
    fun x hx =>
      have hget := mem_toList_iff.mp hx
      ⟨(h x.1 x.2 hget).1, hget, (h x.1 x.2 hget).2⟩
  -- Each graph has a record, so that all of them have.
  have hrecords : ∀ {l : List (GraphKey × Graph R)}, (∀ x ∈ l, ∃ p, x.2.Saved c p) →
      ∃ rs, (l.mapM fun x => x.2.toRecord c) = .ok rs := by
    intro l hl
    induction l with
    | nil => exact ⟨[], rfl⟩
    | cons x l ih =>
      obtain ⟨⟨p, hp⟩, hl⟩ := List.forall_mem_cons.mp hl
      obtain ⟨rs, hrs⟩ := ih hl
      refine ⟨x.2.recordOf p :: rs, ?_⟩
      rw [List.mapM_cons, Graph.toRecord_eq hp.found, hrs]
      rfl
  obtain ⟨rs, hrs⟩ := hrecords fun x hx => (hentry x hx).2.2
  refine ⟨rs, by rw [GraphStore.toArchive, hrs]; rfl, ?_⟩
  refine ((List.forall₂_and_left _ _).mpr ⟨hentry, Outcome.mapM_ok_iff.mp hrs⟩).imp fun x r hx => ?_
  obtain ⟨⟨hkey, hget, p, hp⟩, hr⟩ := hx
  exact ⟨hkey, hget, p, hp, Except.ok.inj (hr.symm.trans (Graph.toRecord_eq hp.found))⟩

/-- The graphs come back if their procedures are found by name. -/
theorem Records.load (h : s.Records c rs) (hnames : s.FoundByName c) :
    Archive.loadGraphs c rs = .ok (.ok (s.toList.map Prod.snd)) := by
  rw [Archive.loadGraphs_ok_iff, List.forall₂_map_right_iff]
  refine List.Forall₂.flip (h.imp fun x r hx => ?_)
  obtain ⟨hkey, hget, p, hp, rfl⟩ := hx
  refine hp.load (hnames x.1 (by rw [hget]; rfl) p ?_)
  rw [← hkey]
  exact hp.found

/-- If graphs come back, then under the first procedures of the names. A record names its procedure,
and the name is all that is looked up. -/
theorem Records.keys_of_load {gs : List (Graph R)} (h : s.Records c rs)
    (hload : Archive.loadGraphs c rs = .ok (.ok gs)) :
    gs.map Graph.key = (s.toList.map Prod.fst).map c.restoredKey
      ∧ ∀ x ∈ s.toList, ∃ p q, c.procedure x.1.procedure = .ok p
        ∧ c.procedureNamed p.name = .ok q := by
  -- Graph by graph, from what went in over its record to what came out.
  have hpairs : List.Forall₂ (fun (x : GraphKey × Graph R) g =>
      (∃ p q, c.procedure x.1.procedure = .ok p ∧ c.procedureNamed p.name = .ok q)
        ∧ c.restoredKey x.1 = g.key) s.toList gs := by
    refine (forall₂_comp h (Archive.loadGraphs_ok_iff.mp hload)).imp fun x g hx => ?_
    obtain ⟨_, ⟨hkey, _, p, hp, rfl⟩, hg⟩ := hx
    obtain ⟨⟨q, hq⟩, hrestored⟩ := hp.key_of_load hg
    rw [hkey] at hrestored
    exact ⟨⟨p, q, hkey ▸ hp.found, hq⟩, hrestored.symm⟩
  obtain ⟨hfound, hkeys⟩ := (List.forall₂_and_left _ _).mp hpairs
  refine ⟨?_, hfound⟩
  rw [List.map_map, ← List.forall₂_eq_eq_eq, List.forall₂_map_left_iff, List.forall₂_map_right_iff]
  exact List.Forall₂.flip (hkeys.imp fun _ _ => Eq.symm)

/-- Only then do the graphs come back under their keys. Two keys that are restored to one would
leave the store with fewer graphs; so restoring permutes the keys, and as it does nothing when
repeated it moves none of them. -/
theorem Records.foundByName (hvalid : c.validate = .ok ()) (h : s.Records c rs)
    {gs : List (Graph R)} (hload : Archive.loadGraphs c rs = .ok (.ok gs))
    (hs : gs.foldl insert ∅ = s) : s.FoundByName c := by
  obtain ⟨hkeys, hfound⟩ := h.keys_of_load hload
  let ks : List GraphKey := s.toList.map Prod.fst
  have hmem : ∀ {k}, k ∈ ks ↔ (s.get? k).isSome := by
    intro k
    rw [Option.isSome_iff_exists]
    constructor
    · intro hk
      obtain ⟨x, hx, rfl⟩ := List.mem_map.mp hk
      exact ⟨x.2, mem_toList_iff.mp hx⟩
    · rintro ⟨g, hg⟩
      exact List.mem_map.mpr ⟨(k, g), mem_toList_iff.mpr hg, rfl⟩
  -- Every key is one that came out, and as many went in.
  have hsubset : ks ⊆ ks.map c.restoredKey := fun k hk => by
    rw [← hkeys]
    by_contra hout
    have hnone := get?_foldl_insert_of_notMem (s := ∅) hout
    rw [hs, show (∅ : GraphStore R).get? k = none from Std.ExtTreeMap.getElem?_empty] at hnone
    rw [hmem, hnone] at hk
    cases hk
  have hperm : ks.Perm (ks.map c.restoredKey) :=
    (List.subperm_of_subset s.nodup_keys hsubset).perm_of_length_le (List.length_map _).le
  have hinj := List.inj_on_of_nodup_map (hperm.nodup s.nodup_keys)
  -- So keys are not merged, and none is moved, as it would be merged with the one it is moved to.
  intro k hk p hp
  have hkeep : c.restoredKey k = k :=
    hinj (hperm.mem_iff.mpr (List.mem_map_of_mem (hmem.mpr hk))) (hmem.mpr hk)
      (Catalog.restoredKey_restoredKey hvalid k)
  obtain ⟨g, hg⟩ := Option.isSome_iff_exists.mp hk
  obtain ⟨p', q, hp', hq⟩ := hfound (k, g) (mem_toList_iff.mpr hg)
  cases hp.symm.trans hp'
  rw [Catalog.restoredKey_eq hp hq] at hkeep
  have hprocedure : q.id = k.procedure := congrArg GraphKey.procedure hkeep
  have hq' := Catalog.procedure_of_mem hvalid (Catalog.procedureNamed_ok hq).1
  rw [hprocedure, hp] at hq'
  cases hq'
  exact hq

/-- A store of graphs that are in their records comes back from its archive if and only if the
procedures of the graphs are found by their names. -/
theorem Saved.restored_iff (hvalid : c.validate = .ok ()) (h : s.Saved c) (hrecords : s.Records c rs) :
    (Archive.ofRecords rs).toStore c = .ok (.ok s) ↔ s.FoundByName c := by
  rw [Archive.toStore_ofRecords_ok_iff]
  constructor
  · rintro ⟨gs, hload, hs⟩
    exact hrecords.foundByName hvalid hload hs
  · intro hnames
    exact ⟨_, hrecords.load hnames, foldl_insert_toList fun k g hg => (h k g hg).1⟩

end GraphStore

/-! ### Training -/

section Training

variable [Scalar R] {s : GraphStore R} {c : Catalog} {r : Router} {traces : List Trace} {n : Nat}
  {k : GraphKey} {g g₀ : Graph R} {accounts : List Account}

/-- A graph that accounts for traces is all in its record when it has been recomputed. Its window is
folded then, its probabilities are those derived from the totals, and its calls have distinct
vertices. -/
theorem GraphStore.Fits.saved (h : Fits g₀ c k accounts) (hrun : g₀.recompute = .ok g) :
    g.key = k ∧ ∃ p, g.Saved c p := by
  obtain ⟨⟨hkey, hpartitions, p, hp, hg⟩, _⟩ := h.recompute hrun
  obtain ⟨_, _, _, _, hg₀⟩ := h
  obtain ⟨paths, hrecorded, _⟩ := hg.paths
  have hfold := hg₀.tidy.initialized.foldWindow
  have hprocedure : g.procedure = k.procedure := congrArg GraphKey.procedure hkey
  refine ⟨hkey, p, ?_, (hfold.derive_same hrun).2.folded (Graph.folded_foldWindow g₀),
    hfold.derive_derive hrun, ⟨?_, hpartitions, fun v call hv => ?_, hg.tidy.apart⟩, paths, _,
    hrecorded⟩
  · rw [hprocedure, hp]
  · rw [hprocedure, (Catalog.procedure_ok hp).2]
  · have htyped := hg.typed v call hv
    rw [Call.Typed, Option.map_eq_some_iff] at htyped
    obtain ⟨_, hstatement, _⟩ := htyped
    rw [hstatement]
    rfl

/-- Training an empty store places every trace. Graphs are left where traces are placed, each of them
recomputed after the last trace. -/
theorem GraphStore.recomputed_of_train (htrain : train ∅ c r traces = .ok (s, .ok n)) :
    (∀ trace ∈ traces, ∃ p k, placeOf c r trace = .ok (p, k))
      ∧ (∀ k, (s.get? k).isSome ↔ ∃ trace ∈ traces, ∃ p, placeOf c r trace = .ok (p, k))
      ∧ ∀ k g, s.get? k = some g →
        ∃ g₀ accounts, Fits g₀ c k accounts ∧ g₀.recompute = .ok g := by
  obtain ⟨_, t, ks, hreplay, hrecomputed⟩ := train_ok_iff.mp htrain
  obtain ⟨told, htold, rfl, ht⟩ := accountsFor_empty.of_replayAll hreplay
  rw [List.append_nil] at ht
  obtain ⟨hs, _⟩ := ht.recomputed hrecomputed
  have hplaced : ∀ trace ∈ traces, ∃ p k, placeOf c r trace = .ok (p, k) :=
    ((List.forall₂_and_left _ _).mp (htold.imp fun trace x hx =>
      have ⟨p, hplace, _⟩ := accountOf_ok_iff.mp hx
      show (∃ p k, placeOf c r trace = .ok (p, k)) ∧ True from ⟨⟨p, x.1, hplace⟩, trivial⟩)).1
  refine ⟨hplaced, fun k => (hs.keys k).trans htold.mem_keys, fun k g hget => ?_⟩
  -- A graph that is there received a trace, and so was recomputed.
  have hk := hrecomputed k
  rw [if_pos ((hs.keys k).mp (hget ▸ rfl)), hget] at hk
  cases hget₀ : t.get? k with
  | none =>
    rw [hget₀] at hk
    cases hk
  | some g₀ =>
    rw [hget₀] at hk
    obtain ⟨g', hrun, hsome⟩ := Outcome.map_ok hk
    cases hsome
    exact ⟨g₀, _, ht.fits k g₀ hget₀, hrun⟩

/-- Training an empty store gives one whose graphs all can be saved. -/
theorem GraphStore.saved_of_train (htrain : train ∅ c r traces = .ok (s, .ok n)) : s.Saved c :=
  fun k g hget =>
    have ⟨_, _, hfits, hrun⟩ := (recomputed_of_train htrain).2.2 k g hget
    hfits.saved hrun

/-- Every procedure that a workload calls is the first of its name. -/
def Catalog.NamesCalls (c : Catalog) (traces : List Trace) : Prop :=
  ∀ trace ∈ traces, ∀ p, c.procedure trace.procedure = .ok p → c.procedureNamed p.name = .ok p

/-- The graphs of a trained store are those of the procedures that were called. -/
theorem GraphStore.foundByName_iff (htrain : train ∅ c r traces = .ok (s, .ok n)) :
    s.FoundByName c ↔ c.NamesCalls traces := by
  obtain ⟨hplaced, hkeys, _⟩ := recomputed_of_train htrain
  constructor
  · intro h trace htrace p hp
    obtain ⟨p', k, hplace⟩ := hplaced trace htrace
    cases hp.symm.trans (placeOf_ok hplace).1
    exact h k ((hkeys k).mpr ⟨trace, htrace, p, hplace⟩) p (procedure_of_placeOf hplace)
  · intro h k hk p hp
    obtain ⟨trace, htrace, p', hplace⟩ := (hkeys k).mp hk
    cases hp.symm.trans (procedure_of_placeOf hplace)
    exact h trace htrace p (placeOf_ok hplace).1

end Training

/-- A graph that holds paths is sane when it has been recomputed in exact arithmetic. -/
theorem Graph.Sealed.isSane_recompute {g g' : Graph Rat} {s : Sentinels} {steps : List (Nat × Nat)}
    (h : g.Sealed s) (htallied : g.Tallied steps) (hrun : g.recompute = .ok g') :
    g'.isSane = true := by
  obtain ⟨g₁, hrun', hsame, hsealed, htallied'⟩ := h.recompute_folded htallied
  cases hrun'.symm.trans hrun
  refine List.isEmpty_iff.mpr (sanityViolations_eq_nil (fun v => ?_) fun v hne => ?_)
  · have htargets := htallied'.nodup_targets v
    rwa [← map_fst_outgoing, List.map_map] at htargets
  · refine htallied'.outgoingMass_eq_one hsame.weight ?_ hne
    rw [← Bool.not_eq_true]
    exact fun hterminal => hne (hsealed.outgoing_eq_nil hterminal)

/-- What training saves, loading restores if names allow it. For a valid catalog and a workload that an
empty store is trained with, the store can be stored, and the archive passes verification. Loading it
gives the store again if and only if every procedure that is called is the first of its name, and then
gives its graphs in order. In exact arithmetic all of them are sane. -/
theorem GraphStore.train_restored_iff {c : Catalog} {r : Router} {traces : List Trace}
    (hvalid : c.validate = .ok ()) :
    (∀ {R : Type} [Scalar R] {s : GraphStore R} {n : Nat}, train ∅ c r traces = .ok (s, .ok n) →
        ∃ a, s.toArchive c = .ok a ∧ a.verify = .ok ()
          ∧ (a.toStore c = .ok (.ok s) ↔ c.NamesCalls traces)
          ∧ (c.NamesCalls traces → a.toGraphs c = .ok (.ok (s.toList.map Prod.snd))))
      ∧ ∀ {s : GraphStore Rat} {n : Nat}, train ∅ c r traces = .ok (s, .ok n) →
        ∀ x ∈ s.toList, x.2.isSane = true := by
  constructor
  · intro R _ s n htrain
    have hsaved := saved_of_train htrain
    obtain ⟨rs, hstore, hrecords⟩ := hsaved.toArchive
    refine ⟨.ofRecords rs, hstore, Archive.verify_ofRecords rs, ?_, fun hnames => ?_⟩
    · rw [hsaved.restored_iff hvalid hrecords, foundByName_iff htrain]
    · rw [Archive.toGraphs_ofRecords]
      exact hrecords.load ((foundByName_iff htrain).mpr hnames)
  · intro s n htrain x hx
    -- Every graph in the store was recomputed at the end of training.
    obtain ⟨g₀, accounts, hfits, hrun⟩ :=
      (recomputed_of_train htrain).2.2 x.1 x.2 (mem_toList_iff.mp hx)
    obtain ⟨_, _, p, _, hg₀⟩ := hfits
    obtain ⟨paths, hrecorded, _⟩ := hg₀.paths
    exact hrecorded.sealed.isSane_recompute hrecorded.tallied hrun

/-- The graphs of three procedures with names of their own come back. -/
theorem GraphStore.train_restored_counters :
    ∃ (s : GraphStore Rat) (a : Archive), train ∅ counters countersRouter
          [counted 1 0 true, counted 2 2 false, counted 3 1 true] = .ok (s, .ok 3)
      ∧ s.toList.length = 3 ∧ s.toArchive counters = .ok a ∧ a.toStore counters = .ok (.ok s)
      ∧ a.toGraphs counters = .ok (.ok (s.toList.map Prod.snd))
      ∧ ∀ x ∈ s.toList, x.2.isSane = true := by
  let traces : List Trace := [counted 1 0 true, counted 2 2 false, counted 3 1 true]
  have hnames : counters.NamesCalls traces := by
    intro trace _ p hp
    exact Catalog.procedureNamed_of_mem (by decide) (Catalog.procedure_ok hp).1
  obtain ⟨hrestored, hsane⟩ := @train_restored_iff counters countersRouter traces rfl
  have hsize : (train (∅ : GraphStore Rat) counters countersRouter traces).toOption.map
      (fun out => (out.2.toOption, out.1.toList.length)) = some (some 3, 3) := by
    decide +kernel
  -- The run was evaluated, so that training has accepted the workload.
  rcases htrain : train (∅ : GraphStore Rat) counters countersRouter traces with f | ⟨s, e | n⟩
  · rw [htrain] at hsize
    cases hsize
  · rw [htrain] at hsize
    cases hsize
  · rw [htrain] at hsize
    obtain ⟨hn, hlength⟩ := Prod.mk.inj (Option.some.inj hsize)
    cases hn
    obtain ⟨a, hstore, _, hback, hgraphs⟩ := hrestored htrain
    exact ⟨s, a, rfl, hlength, hstore, hback.mpr hnames, hgraphs hnames, hsane htrain⟩

/-- Two procedures of one name, of which the second has a statement that the first lacks. -/
def namesakes : Catalog :=
  ⟨1, [], [GraphRecord.payment,
    ⟨1, "pay", [], [⟨0, "debit", .update, [], []⟩, ⟨1, "credit", .update, [], []⟩], false, true, none⟩]⟩

/-- A transaction of the second procedure that runs this statement. -/
def crediting : Trace := (Trace.start 1 1 []).push 1 [] 0

/-- What is stored of it. -/
def credited : GraphRecord :=
  ⟨"pay", 1, 0, 1, 1, [⟨.start, 1, 0, 0⟩, ⟨.commit, 1, 0, 0⟩, ⟨.abort, 0, 0, 0⟩,
    ⟨.query ⟨1, 0, .singleton 0, .update⟩, 1, 0, 0⟩], [⟨0, 3, 1⟩, ⟨3, 1, 1⟩]⟩

/-- The catalog is valid and the workload is accepted. What is saved is refused on loading, as it is
looked up under the first procedure. -/
theorem GraphStore.namesakes_lost :
    namesakes.validate = .ok () ∧ ∃ s : GraphStore Rat,
      train ∅ namesakes GraphRecord.payRouter [crediting] = .ok (s, .ok 1)
        ∧ s.toArchive namesakes = .ok (.ofRecords [credited])
        ∧ (Archive.ofRecords [credited]).verify = .ok ()
        ∧ ((Archive.ofRecords [credited]).toStore namesakes
          : Except Fault (Except Error (GraphStore Rat)))
            = .ok (.error (.document (.unknownStatement 3 1 "pay"))) := by
  have hrefused : (credited.load namesakes : Except Fault (Except Error (Graph Rat)))
      = .ok (.error (.document (.unknownStatement 3 1 "pay"))) := by
    with_unfolding_all rfl
  have hstored : (train (∅ : GraphStore Rat) namesakes GraphRecord.payRouter [crediting]).toOption.map
      (fun out => (out.2.toOption,
        (out.1.toList.mapM fun (x : GraphKey × Graph Rat) => x.2.toRecord namesakes).toOption))
        = some (some 1, some [credited]) := by
    decide +kernel
  refine ⟨rfl, ?_⟩
  rcases htrain : train (∅ : GraphStore Rat) namesakes GraphRecord.payRouter [crediting]
    with f | ⟨s, e | n⟩
  · rw [htrain] at hstored
    cases hstored
  · rw [htrain] at hstored
    cases hstored
  · rw [htrain] at hstored
    -- The one record stored is the one that is refused.
    obtain ⟨hn, hrecords⟩ := Prod.mk.inj (Option.some.inj hstored)
    cases hn
    refine ⟨s, rfl, ?_, Archive.verify_ofRecords _, ?_⟩
    · rw [toArchive, Outcome.of_toOption hrecords]
      rfl
    · rw [Archive.toStore, Archive.toGraphs_ofRecords, Archive.loadGraphs, hrefused]

end TxnPath
