import TxnPath.Proofs.Forecast.Alongside
import TxnPath.Proofs.Forecast.Increments
import TxnPath.Proofs.Graph.Correspondence

/-!
# `TxnPath.Proofs.Forecast.Permutation`: training in another order

Training numbers vertices and edges as calls and steps come up, so that the numbers depend on the order
of the traces. Nothing else does. `GraphStore.train_perm` says that a workload is accepted in every
order if it is accepted in one, and that the graphs are the same but for their numbers
(`Graph.Renamed`): the same calls, the same edges between them, the same hits, measurements and edge
probabilities. Vertices of a graph without a cycle also have the same probabilities, if sums of three
do not depend on the order.

A store accounts for a workload key by key (`GraphStore.AccountsFor`). Which accounts there are is said
without a store, trace by trace (`GraphStore.accountOf`), so that a permutation of the traces is one
of the accounts, and what accounts determine they determine in every order.
-/

set_option autoImplicit false

namespace TxnPath

namespace GraphStore

variable {R : Type} {s s' t : GraphStore R} {k : GraphKey} {ks : List GraphKey} {g : Graph R}
  {c : Catalog} {r : Router} {trace : Trace} {traces traces' : List Trace} {a : Account} {n : Nat}
  {told told' : List (GraphKey × Account)}

/-! ### Accounts by key -/

/-- What a trace says, and the key of the graph that it is recorded in. -/
def accountOf (c : Catalog) (r : Router) (trace : Trace) : Except Error (GraphKey × Account) :=
  match placeOf c r trace with
  | .error e => .error e
  | .ok (p, k) => (trace.account p r k.base).map fun a => (k, a)

/-- The accounts under a key. -/
def accountsAt (k : GraphKey) (told : List (GraphKey × Account)) : List Account :=
  told.filterMap fun x => if x.1 = k then some x.2 else none

/-- An account is told at its own key. -/
theorem accountsAt_cons_self : accountsAt k ((k, a) :: told) = a :: accountsAt k told := by
  rw [accountsAt, List.filterMap_cons, if_pos rfl]
  rfl

/-- It is not told at any other. -/
theorem accountsAt_cons_ne {k' : GraphKey} (h : k ≠ k') :
    accountsAt k' ((k, a) :: told) = accountsAt k' told := by
  rw [accountsAt, List.filterMap_cons, if_neg h]
  rfl

/-- Where nothing was told there are no accounts. -/
theorem accountsAt_eq_nil (h : k ∉ told.map Prod.fst) : accountsAt k told = [] :=
  List.filterMap_eq_nil_iff.mpr fun x hx => if_neg fun (heq : x.1 = k) =>
    h (heq ▸ List.mem_map_of_mem hx)

/-- Telling the accounts in another order tells the same at each key, in another order. -/
theorem accountsAt_perm (hperm : told.Perm told') (k : GraphKey) :
    (accountsAt k told).Perm (accountsAt k told') := hperm.filterMap _

/-- A graph is that of a key, and accounts for some traces of its procedure. -/
structure Fits (g : Graph R) (c : Catalog) (k : GraphKey) (accounts : List Account) : Prop where
  key : g.key = k
  partitions : g.partitions = c.partitions
  accounts : ∃ p, c.procedure k.procedure = .ok p ∧ g.AccountsFor ⟨0, 1, 2⟩ p accounts

/-- The graphs of a store are those of the keys that were told, and account for what was told. -/
structure AccountsFor (s : GraphStore R) (c : Catalog) (told : List (GraphKey × Account)) : Prop where
  keys : ∀ k, (s.get? k).isSome ↔ k ∈ told.map Prod.fst
  fits : ∀ k g, s.get? k = some g → Fits g c k (accountsAt k told)

/-- A store without graphs accounts for nothing. -/
theorem accountsFor_empty : (∅ : GraphStore R).AccountsFor c [] := by
  have hnone : ∀ k, (∅ : GraphStore R).get? k = none := fun k => Std.ExtTreeMap.getElem?_empty
  refine ⟨fun k => ?_, fun k g hget => ?_⟩
  · rw [hnone]
    exact ⟨nofun, nofun⟩
  · rw [hnone] at hget
    cases hget

/-- In which order the accounts are told does not matter to the store. -/
theorem AccountsFor.perm (h : s.AccountsFor c told) (hperm : told.Perm told') :
    s.AccountsFor c told' where
  keys := fun k => (h.keys k).trans (hperm.map Prod.fst).mem_iff
  fits := fun k g hget => by
    obtain ⟨hkey, hpartitions, p, hp, hg⟩ := h.fits k g hget
    exact ⟨hkey, hpartitions, p, hp, hg.perm (accountsAt_perm hperm k)⟩

/-- A graph that is made when it is asked for accounts for what there is: nothing. -/
theorem AccountsFor.getOrCreate {p : Procedure} (h : s.AccountsFor c told)
    (hp : c.procedure k.procedure = .ok p) :
    Fits (s.getOrCreate k c.partitions).2 c k (accountsAt k told) := by
  cases hget : s.get? k with
  | some g =>
    rw [getOrCreate_of_get? hget]
    exact h.fits k g hget
  | none =>
    have hkey : k ∉ told.map Prod.fst := by
      rw [← h.keys, hget]
      exact nofun
    rw [GraphStore.getOrCreate, hget, accountsAt_eq_nil hkey]
    exact ⟨rfl, rfl, p, hp, Graph.accountsFor_fresh _ _ _⟩

/-- A graph that accounts for one trace more takes the place of the one before. Under all other keys
the same is accounted for as before. -/
theorem AccountsFor.set (h : s.AccountsFor c told) (hg : Fits g c k (a :: accountsAt k told)) :
    (s.set k g).AccountsFor c ((k, a) :: told) where
  keys := fun k' => by
    rw [List.map_cons, List.mem_cons, ← h.keys]
    by_cases hk : k = k'
    · rw [← hk, get?_set_self]
      exact ⟨fun _ => .inl rfl, fun _ => rfl⟩
    · rw [get?_set_ne _ _ hk]
      exact ⟨.inr, fun hor => hor.resolve_left (Ne.symm hk)⟩
  -- Under its own key the graph has one account more, and other keys are not concerned.
  fits := fun k' g' hget => by
    by_cases hk : k = k'
    · subst hk
      rw [get?_set_self] at hget
      cases hget
      rwa [accountsAt_cons_self]
    · rw [get?_set_ne _ _ hk] at hget
      rw [accountsAt_cons_ne hk]
      exact h.fits k' g' hget

section Training

variable [Scalar R]

/-! ### Replaying -/

/-- A trace has an account if it can be placed, and if its queries can be resolved at that place.
Both depend on catalog and router only, and not on what has been recorded. -/
theorem accountOf_ok_iff : accountOf c r trace = .ok (k, a)
    ↔ ∃ p, placeOf c r trace = .ok (p, k) ∧ trace.account p r k.base = .ok a := by
  rw [accountOf]
  rcases placeOf c r trace with e | ⟨p, k'⟩
  · exact ⟨nofun, nofun⟩
  · dsimp only
    -- The trace was placed; what is left is to resolve its queries there.
    constructor
    · intro h
      cases haccount : trace.account p r k'.base with
      | error e =>
        rw [haccount] at h
        cases h
      | ok a' =>
        rw [haccount] at h
        cases h
        exact ⟨p, rfl, haccount⟩
    · rintro ⟨_, hplace, haccount⟩
      cases hplace
      rw [haccount]
      rfl

/-- The procedure of the graph where a trace is placed is that of the trace. -/
theorem procedure_of_placeOf {p : Procedure} (h : placeOf c r trace = .ok (p, k)) :
    c.procedure k.procedure = .ok p := by
  obtain ⟨hp, _, hkey⟩ := placeOf_ok h
  rw [hkey, (Catalog.procedure_ok hp).2, hp]

/-- A trace that is accepted has an account, and the store then accounts for it as well. So the
order in which traces are accepted shows in the order of the accounts only. -/
theorem AccountsFor.replay (h : s.AccountsFor c told) (hrun : s.replay c r trace = .ok (s', .ok k)) :
    ∃ a, accountOf c r trace = .ok (k, a) ∧ s'.AccountsFor c ((k, a) :: told) := by
  rw [GraphStore.replay] at hrun
  split at hrun
  · cases hrun
  case h_2 p k' hplace =>
  obtain ⟨hkey, hpartitions, p', hp', hg⟩ := h.getOrCreate (procedure_of_placeOf hplace)
  cases (procedure_of_placeOf hplace).symm.trans hp'
  dsimp only at hrun
  split at hrun
  · cases hrun
  · cases hrun
  -- The trace was accepted. Its graph accounts for it, and still belongs to its key.
  case h_3 g' path hreplay =>
  cases hrun
  obtain ⟨a, haccount, hg'⟩ := hg.replay hreplay
  obtain ⟨links, hrecording, _⟩ := hg.tidy.initialized.recording_replay hreplay
  have hext := hrecording.extends
  rw [show Graph.base _ = k.base from congrArg GraphKey.base hkey] at haccount
  refine ⟨a, accountOf_ok_iff.mpr ⟨p, hplace, haccount⟩, ?_⟩
  rw [getOrCreate_fst, set_set]
  exact h.set ⟨hext.key.trans hkey, hext.partitions.trans hpartitions, p, hp', hg'⟩

/-- A trace that has an account is accepted. -/
theorem AccountsFor.replay_total (h : s.AccountsFor c told)
    (haccount : accountOf c r trace = .ok (k, a)) : ∃ s', s.replay c r trace = .ok (s', .ok k) := by
  obtain ⟨p, hplace, haccount⟩ := accountOf_ok_iff.mp haccount
  obtain ⟨hkey, _, _, _, hg⟩ := h.getOrCreate (procedure_of_placeOf hplace)
  obtain ⟨paths, hrecorded, _⟩ := hg.paths
  rw [← show Graph.base _ = k.base from congrArg GraphKey.base hkey] at haccount
  obtain ⟨g', path, hrun⟩ := hrecorded.replay_total haccount
  exact ⟨_, replay_placed hplace hrun⟩

/-- What traces say, if each of them has an account. -/
def Tell (c : Catalog) (r : Router) (traces : List Trace) (told : List (GraphKey × Account)) :
    Prop :=
  List.Forall₂ (fun trace x => accountOf c r trace = .ok x) traces told

/-- Traces in another order say the same in another order. -/
theorem Tell.perm (h : Tell c r traces told) (hperm : traces.Perm traces') :
    ∃ told', Tell c r traces' told' ∧ told'.Perm told := List.perm_comp_forall₂ hperm.symm h

/-- What traces say is told by them alone. -/
theorem Tell.unique (h : Tell c r traces told) (h' : Tell c r traces told') : told = told' :=
  List.right_unique_forall₂' (fun _ _ _ hx hy => Except.ok.inj (hx.symm.trans hy)) h h'

/-- The keys that were told are those of the places of the traces. It does not matter in which order
they were told. -/
theorem Tell.mem_keys (h : Tell c r traces told) :
    k ∈ told.map Prod.fst ↔ ∃ trace ∈ traces, ∃ p, placeOf c r trace = .ok (p, k) := by
  induction h with
  | nil => exact ⟨nofun, nofun⟩
  | @cons trace x traces told haccount _ ih =>
    obtain ⟨p, hplace, _⟩ := accountOf_ok_iff.mp haccount
    have hhead : k = x.1 ↔ ∃ p, placeOf c r trace = .ok (p, k) := by
      rw [hplace]
      refine ⟨fun heq => ⟨p, by rw [heq]⟩, ?_⟩
      rintro ⟨_, heq⟩
      cases heq
      rfl
    rw [List.map_cons, List.mem_cons, ih, hhead]
    simp only [List.mem_cons, exists_eq_or_imp]

/-- Traces that are accepted have accounts. -/
theorem AccountsFor.of_replayAll (h : s.AccountsFor c told)
    (hrun : replayAll c r s traces = .ok (s', .ok ks)) :
    ∃ new, Tell c r traces new ∧ ks = new.map Prod.fst ∧ s'.AccountsFor c (new ++ told) := by
  induction traces generalizing s told ks with
  | nil =>
    cases hrun
    exact ⟨[], .nil, rfl, h⟩
  | cons trace traces ih =>
    obtain ⟨t, k, ks, hstep, hrest, rfl⟩ := replayAll_cons_ok.mp hrun
    obtain ⟨a, haccount, ht⟩ := h.replay hstep
    obtain ⟨new, hnew, rfl, hs'⟩ := ih ht hrest
    exact ⟨(k, a) :: new, .cons haccount hnew, rfl, hs'.perm List.perm_middle⟩

/-- Traces that have accounts are accepted. -/
theorem AccountsFor.replayAll_total {new : List (GraphKey × Account)} (h : s.AccountsFor c told)
    (hnew : Tell c r traces new) : ∃ s' ks, replayAll c r s traces = .ok (s', .ok ks) := by
  induction hnew generalizing s told with
  | nil => exact ⟨s, [], rfl⟩
  | @cons trace x traces new haccount _ ih =>
    obtain ⟨t, hstep⟩ := h.replay_total haccount
    obtain ⟨_, _, ht⟩ := h.replay hstep
    obtain ⟨s', ks, hrest⟩ := ih ht
    exact ⟨s', x.1 :: ks, replayAll_cons_ok.mpr ⟨t, x.1, ks, hstep, hrest, rfl⟩⟩

/-! ### Recomputing -/

/-- Recomputing a graph changes nothing that it accounts for. -/
theorem Fits.recompute {g' : Graph R} {accounts : List Account} (h : Fits g c k accounts)
    (hrun : g.recompute = .ok g') : Fits g' c k accounts ∧ g'.Derived := by
  obtain ⟨hkey, hpartitions, p, hp, hg⟩ := h
  obtain ⟨paths, hrecorded, _⟩ := hg.paths
  have hsame := Graph.sameRecord_recompute hrun
  exact ⟨⟨hsame.key.trans hkey, hsame.partitions.trans hpartitions, p, hp, hg.recompute hrun⟩,
    hrecorded.derived hrun⟩

/-- Recomputing graphs changes nothing that the store accounts for. The graphs that were asked for
are derived afterwards; all others, and the set of keys, are what they were. -/
theorem AccountsFor.recomputed (h : t.AccountsFor c told) (hrecomputed : Recomputed t ks s) :
    s.AccountsFor c told ∧ ∀ k ∈ ks, ∀ g, s.get? k = some g → g.Derived := by
  have hgraph : ∀ k, (s.get? k).isSome = (t.get? k).isSome ∧ ∀ g, s.get? k = some g →
      Fits g c k (accountsAt k told) ∧ (k ∈ ks → g.Derived) := by
    -- A graph whose key is not listed is left alone, and no graph comes or goes.
    intro k
    have hk := hrecomputed k
    split at hk
    case isFalse hmem =>
      rw [hk]
      exact ⟨rfl, fun g hget => ⟨h.fits k g hget, fun hin => absurd hin hmem⟩⟩
    case isTrue hmem =>
    cases hget : t.get? k with
    | none =>
      rw [hget] at hk
      rw [← Except.ok.inj hk]
      exact ⟨rfl, nofun⟩
    | some g₀ =>
      rw [hget] at hk
      obtain ⟨g₁, hrun, hsome⟩ := Outcome.map_ok hk
      obtain ⟨hfits, hderived⟩ := (h.fits k g₀ hget).recompute hrun
      rw [← hsome]
      refine ⟨rfl, fun g hg => ?_⟩
      cases hg
      exact ⟨hfits, fun _ => hderived⟩
  refine ⟨⟨fun k => ?_, fun k g hget => ((hgraph k).2 g hget).1⟩,
    fun k hmem g hget => ((hgraph k).2 g hget).2 hmem⟩
  rw [(hgraph k).1, h.keys]

/-- Graphs that account for traces can be recomputed. -/
theorem AccountsFor.recompute_total (h : s.AccountsFor c told) (k : GraphKey) :
    ∃ s', s.recompute k = .ok s' := by
  rw [GraphStore.recompute]
  cases hget : s.get? k with
  | none => exact ⟨s, rfl⟩
  | some g =>
    obtain ⟨_, _, p, _, hg⟩ := h.fits k g hget
    obtain ⟨paths, hrecorded, _⟩ := hg.paths
    obtain ⟨g', hrun, _⟩ := hrecorded.recompute
    exact ⟨s.set k g', congrArg (Except.map (s.set k)) hrun⟩

/-- The graphs of a store that accounts for traces can be recomputed, whichever of them. -/
theorem AccountsFor.recomputed_total (h : s.AccountsFor c told) (ks : List GraphKey) :
    ∃ s', Recomputed s ks s' := by
  simp only [← foldlM_recompute_ok_iff]
  induction ks generalizing s with
  | nil => exact ⟨s, rfl⟩
  | cons k ks ih =>
    obtain ⟨t, ht⟩ := h.recompute_total k
    obtain ⟨s', hs'⟩ := ih (h.recomputed (recompute_ok_iff.mp ht)).1
    exact ⟨s', Outcome.foldlM_cons_iff.mpr ⟨t, ht, hs'⟩⟩

/-! ### Training -/

/-- A workload that an empty store is trained with has accounts. The store then accounts for them,
and has the probabilities of all its graphs derived. -/
theorem train_empty_ok (htrain : train ∅ c r traces = .ok (s, .ok n)) :
    n = traces.length ∧ ∃ told, Tell c r traces told ∧ s.AccountsFor c told
      ∧ ∀ k g, s.get? k = some g → g.Derived := by
  obtain ⟨hn, t, ks, hreplay, hrecomputed⟩ := train_ok_iff.mp htrain
  obtain ⟨told, htold, rfl, ht⟩ := accountsFor_empty.of_replayAll hreplay
  rw [List.append_nil] at ht
  obtain ⟨hs, hderived⟩ := ht.recomputed hrecomputed
  -- There is a graph only where a trace was recorded, so that all of them are recomputed.
  refine ⟨hn, told, htold, hs, fun k g hget => hderived k ?_ g hget⟩
  rw [← hs.keys, hget]
  rfl

/-- A workload that has accounts is one that an empty store can be trained with. -/
theorem train_empty_total (htold : Tell c r traces told) :
    ∃ s : GraphStore R, train ∅ c r traces = .ok (s, .ok traces.length) := by
  obtain ⟨t, ks, hreplay⟩ := (accountsFor_empty (R := R)).replayAll_total htold
  obtain ⟨_, _, _, ht⟩ := accountsFor_empty.of_replayAll hreplay
  obtain ⟨s, hrecomputed⟩ := ht.recomputed_total ks
  exact ⟨s, train_ok_iff.mpr ⟨rfl, t, ks, hreplay, hrecomputed⟩⟩

/-- Training does not depend on the order of the traces. A workload that an empty store is trained
with is accepted in every order, and leaves graphs under the same keys, those where traces are placed.
They are the same but for the numbers of vertices and edges, probabilities of edges included. Where
there is no cycle, the probabilities of vertices are the same as well, if sums do not depend on the
order of their terms. -/
theorem train_perm (htrain : train ∅ c r traces = .ok (s, .ok n)) (hperm : traces.Perm traces') :
    ∃ s', train ∅ c r traces' = .ok (s', .ok n) ∧ ∀ k,
      ((s.get? k).isSome ↔ ∃ trace ∈ traces, ∃ p, placeOf c r trace = .ok (p, k))
        ∧ Option.Rel (fun g g' => ∃ σ, Graph.Renamed σ g g'
          ∧ ((∀ a b c : R, a + b + c = a + c + b) → g.shape.Acyclic →
            ∀ v < g.vertices.size, g'.table (σ v) = g.table v)) (s.get? k) (s'.get? k) := by
  obtain ⟨rfl, told, htold, hs, hderived⟩ := train_empty_ok htrain
  obtain ⟨told', htold', hreordered⟩ := htold.perm hperm
  obtain ⟨s', htrain'⟩ := train_empty_total (R := R) htold'
  obtain ⟨_, told₁, htold₁, hs', hderived'⟩ := train_empty_ok htrain'
  obtain rfl := htold'.unique htold₁
  rw [hperm.length_eq]
  refine ⟨s', htrain', fun k => ⟨(hs.keys k).trans htold.mem_keys, ?_⟩⟩
  have hs' := hs'.perm hreordered
  have hkeys := (hs.keys k).trans (hs'.keys k).symm
  cases hget : s.get? k with
  | none =>
    rw [hget] at hkeys
    rw [Option.not_isSome_iff_eq_none.mp (mt hkeys.mpr nofun)]
    exact .none
  -- Both stores have a graph under the key, accounting for the same traces in another order.
  | some g =>
    rw [hget] at hkeys
    obtain ⟨g', hget'⟩ := Option.isSome_iff_exists.mp (hkeys.mp rfl)
    rw [hget']
    obtain ⟨hkey, hpartitions, p, hp, hg⟩ := hs.fits k g hget
    obtain ⟨hkey', hpartitions', p', hp', hg'⟩ := hs'.fits k g' hget'
    cases hp.symm.trans hp'
    have hd := hderived k g hget
    have hd' := hderived' k g' hget'
    obtain ⟨σ, hσ⟩ := hg.renamed hg' hd hd' (hkey'.trans hkey.symm)
      (hpartitions'.trans hpartitions.symm)
    exact .some ⟨σ, hσ, hσ.tables hg.tidy.initialized hd hd'⟩

end Training

/-- A transaction that writes without reading. -/
def blind (txn : TxnId) (p : ProcedureId) : Trace := (Trace.start txn p []).push 1 [] 0

/-- Whichever of two transactions comes first, reading or writing gets the lower number. The graph has
no cycle, and all its vertices have the same probabilities in both orders. -/
theorem train_perm_counters :
    ∃ (s s' : GraphStore Rat) (g g' : Graph Rat) (σ : Nat → Nat),
      train ∅ counters countersRouter [counted 1 0 true, blind 2 0] = .ok (s, .ok 2)
        ∧ train ∅ counters countersRouter [blind 2 0, counted 1 0 true] = .ok (s', .ok 2)
        ∧ s.get? ⟨0, 0⟩ = some g ∧ s'.get? ⟨0, 0⟩ = some g'
        ∧ g.kinds[3]? = some (.query ⟨0, 0, .singleton 0, .select⟩)
        ∧ g'.kinds[3]? = some (.query ⟨1, 0, .singleton 1, .update⟩)
        ∧ Graph.Renamed σ g g' ∧ g.shape.Acyclic
        ∧ ∀ v < g.vertices.size, g'.table (σ v) = g.table v := by
  -- A run that is seen to leave a graph has a store and a graph behind it.
  have hleaves : ∀ (x : Except Fault (GraphStore Rat × Except Error Nat)) (n : Nat) (d : Digraph)
      (kind : Option VertexKind),
      x.toOption.bind (fun out => out.2.toOption.bind fun n =>
          (out.1.get? ⟨0, 0⟩).map fun g => (n, g.shape, g.kinds[3]?)) = some (n, d, kind) →
      ∃ s g, x = .ok (s, .ok n) ∧ s.get? ⟨0, 0⟩ = some g ∧ g.shape = d ∧ g.kinds[3]? = kind := by
    rintro (f | ⟨s, e | m⟩) n d kind h
    · cases h
    · cases h
    · obtain ⟨g, hget, heq⟩ := Option.map_eq_some_iff.mp h
      cases heq
      exact ⟨s, g, rfl, hget, rfl, rfl⟩
  obtain ⟨s, g, htrain, hget, hshape, hkind⟩ := hleaves
    (train ∅ counters countersRouter [counted 1 0 true, blind 2 0]) 2
    ⟨5, [⟨0, 0, 3⟩, ⟨1, 3, 4⟩, ⟨2, 4, 1⟩, ⟨3, 0, 4⟩]⟩
    (some (.query ⟨0, 0, .singleton 0, .select⟩)) (by decide +kernel)
  obtain ⟨s₁, g₁, htrain₁, hget₁, _, hkind₁⟩ := hleaves
    (train ∅ counters countersRouter [blind 2 0, counted 1 0 true]) 2
    ⟨5, [⟨0, 0, 3⟩, ⟨1, 3, 1⟩, ⟨2, 0, 4⟩, ⟨3, 4, 3⟩]⟩
    (some (.query ⟨1, 0, .singleton 1, .update⟩)) (by decide +kernel)
  have hacyclic : g.shape.Acyclic := by
    rw [hshape]
    refine Digraph.Descends.acyclic (l := [0, 3, 4, 1, 2]) ?_ (by decide) (by decide)
    exact ⟨by decide, by decide, by decide, by decide, by decide, trivial⟩
  obtain ⟨s', htrain', hrel⟩ := train_perm htrain (List.Perm.swap _ _ _)
  cases htrain'.symm.trans htrain₁
  have hgraphs := (hrel ⟨0, 0⟩).2
  rw [hget, hget₁] at hgraphs
  obtain ⟨σ, hσ, htables⟩ := Option.rel_some_some.mp hgraphs
  exact ⟨s, s₁, g, g₁, σ, htrain, htrain₁, hget, hget₁, hkind, hkind₁, hσ, hacyclic,
    htables add_right_comm hacyclic⟩

end GraphStore

end TxnPath
