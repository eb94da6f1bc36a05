import TxnPath.Proofs.Catalog
import TxnPath.Proofs.Graph.Tracked
import TxnPath.Proofs.Graph.Windows

/-!
# `TxnPath.Proofs.Graph.Account`: what a trace says whatever the graph

Numbers of vertices depend on what was recorded before. The account of a trace does not: the calls
that its queries stand for, up to the first that aborts, each with the time it took, and how the
transaction ended (`Trace.account`). A graph accounts for traces (`Graph.AccountsFor`) if it holds one
path for each, whose vertices stand for the calls of the account in turn, and if its vertices and
measurements come from the accounts and from nowhere else.

A trace is recorded completely if and only if it has an account, and its graph then accounts for one
trace more (`AccountsFor.replay`, `Recorded.replay_total`). The order of the accounts does not matter
(`AccountsFor.perm`).
-/

set_option autoImplicit false

namespace TxnPath

/-! ### Accounts -/

/-- A call and the time it was measured to take, if it was. -/
structure Visit where
  call : Call
  elapsed : Option Nat

/-- What a vertex stands for that is there for a call. -/
def Visit.kind (x : Visit) : VertexKind := .query x.call

/-- The calls that queries stand for, up to the first that aborts. -/
def visitsOf (p : Procedure) (r : Router) (base : Nat) (called : List StatementId) :
    List Query → Except Error (List Visit)
  | [] => .ok []
  | q :: rest =>
    match q.resolve p r base called with
    | .error e => .error e
    | .ok c =>
      if q.aborted then .ok [⟨c, q.elapsed⟩]
      else (visitsOf p r base (called ++ [c.statement]) rest).map (⟨c, q.elapsed⟩ :: ·)

/-- What a trace says: the calls it made, and whether it aborted. -/
structure Account where
  visits : List Visit
  aborted : Bool

/-- What the vertices on the path of a trace stand for. -/
def Account.course (a : Account) : List VertexKind :=
  .start :: a.visits.map Visit.kind ++ [if a.aborted then .abort else .commit]

/-- What a trace says at a base partition, unless a query cannot be resolved. -/
def Trace.account (t : Trace) (p : Procedure) (r : Router) (base : Nat) : Except Error Account :=
  (visitsOf p r base [] t.queries).map fun visits => ⟨visits, t.isAborted⟩

/-- The times measured at the vertices of a kind. -/
def timesAt (visits : List Visit) (kind : VertexKind) : List Nat :=
  visits.filterMap fun x => if x.kind = kind then x.elapsed else none

/-- The time of a visit is measured at the vertex of its own kind. -/
theorem timesAt_cons_self (x : Visit) (visits : List Visit) :
    timesAt (x :: visits) x.kind = x.elapsed.toList ++ timesAt visits x.kind := by
  rw [timesAt, List.filterMap_cons, if_pos rfl]
  cases x.elapsed <;> rfl

/-- It is not measured at any other. -/
theorem timesAt_cons_ne {x : Visit} {kind : VertexKind} (h : x.kind ≠ kind) (visits : List Visit) :
    timesAt (x :: visits) kind = timesAt visits kind := by
  rw [timesAt, List.filterMap_cons, if_neg h]
  rfl

/-- Where nobody was, nothing is measured. -/
theorem timesAt_eq_nil {visits : List Visit} {kind : VertexKind} (h : ∀ x ∈ visits, x.kind ≠ kind) :
    timesAt visits kind = [] :=
  List.filterMap_eq_nil_iff.mpr fun x hx => if_neg (h x hx)

/-- The type of a call is that of its statement. -/
def Call.Typed (c : Call) (p : Procedure) : Prop :=
  (p.statement? c.statement).map Statement.queryType = some c.queryType

/-- Calls of one procedure that are not told apart are the same. -/
theorem Call.Typed.eq_of_sameAs {c d : Call} {p : Procedure} (hc : c.Typed p) (hd : d.Typed p)
    (h : c.sameAs d = true) : c = d := by
  simp only [Call.sameAs, Bool.and_eq_true, beq_iff_eq] at h
  obtain ⟨⟨hstatement, hoccurrence⟩, hpartitions⟩ := h
  have htype : some c.queryType = some d.queryType := by
    rw [← hc, ← hd, hstatement]
  cases c
  cases d
  cases hstatement
  cases hoccurrence
  cases hpartitions
  cases htype
  rfl

/-- The call that a query is resolved to is of a statement of the procedure, and reads if and only
if the statement does. -/
theorem Query.resolve_typed {q : Query} {p : Procedure} {r : Router} {base : Nat}
    {called : List StatementId} {c : Call} (h : q.resolve p r base called = .ok c) : c.Typed p := by
  rw [resolve] at h
  split at h
  · cases h
  case h_2 s hs =>
    split at h
    · cases h
    · split at h
      · cases h
      · cases h
        rw [Call.Typed, Procedure.statement?_id hs, hs]
        rfl

/-- What is measured at a vertex: how long its calls took, and how many of them were measured. -/
def Vertex.clock {R : Type} (x : Vertex R) : VertexKind × Nat × Nat :=
  (x.kind, x.execNanos, x.execSamples)

/-- What is measured at the vertex of a kind when calls were made: the sum of times stays at the
largest word. -/
def clockOf (visits : List Visit) (kind : VertexKind) : VertexKind × Nat × Nat :=
  (kind, min (timesAt visits kind).sum (wordLimit - 1), (timesAt visits kind).length)

/-- What is measured at other vertices stays as it is. -/
theorem clockOf_cons_ne {x : Visit} {kind : VertexKind} (h : x.kind ≠ kind) (visits : List Visit) :
    clockOf (x :: visits) kind = clockOf visits kind := by
  rw [clockOf, timesAt_cons_ne h, clockOf]

/-- A call that is not measured adds nothing to what is. -/
theorem clockOf_cons_none (c : Call) (visits : List Visit) (kind : VertexKind) :
    clockOf (⟨c, none⟩ :: visits) kind = clockOf visits kind := by
  by_cases hkind : (⟨c, none⟩ : Visit).kind = kind
  · rw [← hkind, clockOf, timesAt_cons_self]
    rfl
  · rw [clockOf_cons_ne hkind]

/-- Sums and counts of times do not depend on the order of the visits. -/
theorem clockOf_perm {visits visits' : List Visit} (h : visits.Perm visits') (kind : VertexKind) :
    clockOf visits' kind = clockOf visits kind := by
  have htimes : (timesAt visits kind).Perm (timesAt visits' kind) := h.filterMap _
  rw [clockOf, clockOf, htimes.sum_eq, htimes.length_eq]

namespace Graph

variable {R : Type} {g g' : Graph R} {s : Sentinels} {p : Procedure} {r : Router}
  {visits : List Visit} {c : Call} {q : Query} {t : Trace} {u v : Nat}
  {paths : List (List Nat)} {π : List Nat} {n : Nat}

/-! ### Calls of one procedure -/

/-- The calls in a graph are those of a procedure. -/
def Typed (g : Graph R) (p : Procedure) : Prop :=
  ∀ v c, g.kind? v = some (.query c) → c.Typed p

/-- That calls are of statements of the procedure is said of the kinds of the vertices alone. -/
theorem Typed.of_sameKinds (h : g.Typed p) (hsame : SameKinds g g') : g'.Typed p :=
  fun v c hv => h v c (hsame.kind v ▸ hv)

/-- A fresh graph has no calls. -/
theorem typed_fresh (procedure : ProcedureId) (base partitions : Nat) :
    (fresh procedure base partitions : Graph R).Typed p := by
  intro v c hv
  rcases v with _ | _ | _ | v <;> cases hv

/-- A typed call may be added. -/
theorem Typed.ensureCall (h : g.Typed p) (hc : c.Typed p) : (g.ensureCall c).1.Typed p := by
  rcases ensureCall_cases g c with ⟨v, hv⟩ | ⟨_, hnew⟩
  · rw [hv]
    exact h
  · rw [hnew]
    intro v d hv
    rw [kind?_pushVertex] at hv
    split at hv
    · cases hv
      exact hc
    · exact h v d hv

/-- So replaying a trace of the procedure keeps the calls typed, to its end or up to the query at
which it is rejected. -/
theorem keptBy_typed [Zero R] : KeptBy (fun g : Graph R => g.Typed p) p r where
  kinds := fun hsame h => h.of_sameKinds hsame
  call := fun hresolve h => h.ensureCall (Query.resolve_typed hresolve)

/-- The vertex found for a call stands for this very call. -/
theorem Typed.findCall? (h : g.Typed p) (hc : c.Typed p) (hfind : g.findCall? c = some v) :
    g.kind? v = some (.query c) := by
  obtain ⟨d, hd, hsame⟩ := findCall?_ok hfind
  rw [hd, hc.eq_of_sameAs (h v d hd) hsame]

/-- No two vertices of a tidy graph stand for the same. -/
theorem Tidy.kind?_inj (h : g.Tidy s) {kind : VertexKind} (hu : g.kind? u = some kind)
    (hv : g.kind? v = some kind) : u = v := by
  cases kind with
  | query c => exact h.apart u v c c hu hv (by simp [Call.sameAs])
  | start | commit | abort => exact h.initialized.once u v _ hu hv rfl

/-- The kinds of a graph are what its vertices stand for. -/
theorem mem_kinds_iff {kind : VertexKind} : kind ∈ g.kinds ↔ ∃ v, g.kind? v = some kind := by
  simp only [← getElem?_kinds, List.mem_iff_getElem?]

/-- The vertices of a graph are the sentinels and those of calls that were made, and measured was the
time of these calls. -/
structure Visited (g : Graph R) (visits : List Visit) : Prop where
  kinds : ∀ kind, kind ∈ g.kinds ↔ kind.call? = none ∨ ∃ x ∈ visits, x.kind = kind
  clock : ∀ v, (g.vertices[v]?).map Vertex.clock = (g.kind? v).map (clockOf visits)

/-- In a fresh graph nobody has been anywhere. -/
theorem visited_fresh (procedure : ProcedureId) (base partitions : Nat) :
    (fresh procedure base partitions : Graph R).Visited [] where
  kinds := fun kind => by
    have hkinds : (fresh procedure base partitions : Graph R).kinds = [.start, .commit, .abort] :=
      rfl
    rw [hkinds]
    cases kind <;> simp [VertexKind.call?]
  clock := fun v => by rcases v with _ | _ | _ | v <;> rfl

/-- The visits may be listed in any order. -/
theorem Visited.perm {visits' : List Visit} (h : g.Visited visits) (hperm : visits.Perm visits') :
    g.Visited visits' where
  kinds := fun kind => by simp only [h.kinds, hperm.mem_iff]
  clock := fun v => by simp only [h.clock, funext (clockOf_perm hperm)]

/-! ### What leaves the measurements as they are -/

/-- The same is measured at the vertices of two graphs. -/
def SameClocks (g g' : Graph R) : Prop :=
  ∀ v : Nat, (g'.vertices[v]?).map Vertex.clock = (g.vertices[v]?).map Vertex.clock

/-- Two operations that measure nothing measure nothing together. -/
theorem SameClocks.trans {g'' : Graph R} (h : SameClocks g g') (h' : SameClocks g' g'') :
    SameClocks g g'' := fun v => (h' v).trans (h v)

/-- Clocks are kept with what the vertices stand for. -/
theorem SameClocks.kind? (h : SameClocks g g') (v : Nat) : g'.kind? v = g.kind? v := by
  have hkind := congrArg (Option.map Prod.fst) (h v)
  rwa [Option.map_map, Option.map_map] at hkind

/-- A hit is no measurement. -/
theorem sameClocks_hitVertex (g : Graph R) (u : Nat) : SameClocks g (g.hitVertex u) := fun v => by
  rw [hitVertex, Array.getElem?_modify]
  split
  · rw [Option.map_map]
    rfl
  · rfl

/-- Nor is a link. -/
theorem sameClocks_link [Zero R] (g : Graph R) (u v : Nat) : SameClocks g (g.link u v).1 := by
  have hedge : SameClocks g ((g.ensureEdge u v).1.hitEdge (g.ensureEdge u v).2) := fun w => by
    show ((g.ensureEdge u v).1.vertices[w]?).map Vertex.clock = _
    rw [vertices_ensureEdge]
  have hsource := hedge.trans (sameClocks_hitVertex _ u)
  rw [link]
  dsimp only
  split
  · exact hsource.trans (sameClocks_hitVertex _ v)
  · exact hsource

/-- Nor is it one to count a transaction. -/
theorem sameClocks_recordTxn (g : Graph R) : SameClocks g g.recordTxn := fun _ => rfl

/-- Two graphs in which the same is recorded have the same clocks. Recomputing, in particular, does
not touch them. -/
theorem SameRecord.sameClocks (h : g.SameRecord g') : SameClocks g g' := fun v => by
  have hrecord := congrArg (Option.map fun x => (x.1, x.2.2)) (h.vertices v)
  rwa [Option.map_map, Option.map_map] at hrecord

/-- The visits of a graph are known from its kinds and clocks. -/
theorem Visited.of_sameClocks (h : g.Visited visits) (hsame : SameClocks g g') :
    g'.Visited visits where
  kinds := fun kind => by
    rw [← h.kinds, mem_kinds_iff, mem_kinds_iff]
    simp only [hsame.kind?]
  clock := fun v => by rw [hsame, hsame.kind?, h.clock]

/-! ### Recording a visit -/

/-- One measurement more at the vertex of a call. -/
theorem clock_addTime {x : Vertex R} (h : x.clock = clockOf visits (.query c)) (nanos : Nat) :
    (x.addTime nanos).clock = clockOf (⟨c, some nanos⟩ :: visits) (.query c) := by
  simp only [Vertex.clock, clockOf, Prod.mk.injEq] at h
  obtain ⟨hkind, hnanos, hsamples⟩ := h
  have htimes : timesAt (⟨c, some nanos⟩ :: visits) (.query c)
      = nanos :: timesAt visits (.query c) := timesAt_cons_self ⟨c, some nanos⟩ visits
  rw [Vertex.clock, clockOf, htimes, Vertex.addTime, List.sum_cons, List.length_cons, hkind, hnanos,
    hsamples]
  -- A sum that has reached the largest word stays there.
  have hsum : min (min (timesAt visits (.query c)).sum (wordLimit - 1) + nanos) (wordLimit - 1)
      = min (nanos + (timesAt visits (.query c)).sum) (wordLimit - 1) := by omega
  rw [hsum]

/-- A call has a vertex, and without a measurement nothing is added there. If the vertex is new then
nobody has visited the call before, so that its clock of zero is right. -/
theorem Visited.ensureCall (h : g.Visited visits) (htidy : g.Tidy s) (htyped : g.Typed p)
    (hc : c.Typed p) : (g.ensureCall c).1.Visited (⟨c, none⟩ :: visits) where
  -- What there are vertices for grows by the kind of this call, if it was not among them.
  kinds := fun kind => by
    have hfound := (htyped.ensureCall hc).findCall? hc (findCall?_ensureCall g c)
    simp only [List.mem_cons, exists_eq_or_imp]
    rw [or_left_comm, ← h.kinds]
    constructor
    · intro hkind
      rw [kinds_ensureCall, List.mem_append] at hkind
      refine hkind.elim .inr fun hnew => .inl ?_
      split at hnew
      · cases hnew
      · exact (List.mem_singleton.mp hnew).symm
    · rintro (rfl | hold)
      · exact mem_kinds_iff.mpr ⟨_, hfound⟩
      · exact (extends_ensureCall g c).kinds.subset hold
  clock := fun v => by
    rw [funext (clockOf_cons_none c visits)]
    rcases ensureCall_cases g c with ⟨w, hw⟩ | ⟨hfind, hnew⟩
    · rw [hw]
      exact h.clock v
    -- The call was never made before, as no vertex stands for it.
    have hnever : ∀ x ∈ visits, x.kind ≠ .query c := by
      intro x hx hkind
      obtain ⟨w, hw⟩ := mem_kinds_iff.mp ((h.kinds _).mpr (.inr ⟨x, hx, hkind⟩))
      have hself : c.sameAs c = true := by simp [Call.sameAs]
      have hsome := htidy.findCall?_iff.mpr ⟨c, hw, hself⟩
      rw [hfind] at hsome
      cases hsome
    rw [hnew, kind?_pushVertex, pushVertex, Array.getElem?_push]
    split
    · rw [Option.map_some, Option.map_some, clockOf, timesAt_eq_nil hnever]
      rfl
    · exact h.clock v

/-- A measurement goes to the vertex of its call. Graphs are tidy here: if two vertices stood for
the call, then the clock of one of them would miss it. -/
theorem Visited.addTime (h : g.Visited (⟨c, none⟩ :: visits)) (htidy : g.Tidy s)
    (hv : g.kind? v = some (.query c)) (nanos : Nat) :
    (g.addTime v nanos).Visited (⟨c, some nanos⟩ :: visits) where
  kinds := fun kind => by
    have hkinds := h.kinds kind
    rw [mem_kinds_iff] at hkinds ⊢
    simp only [(sameKinds_addTime g v nanos).kind, hkinds, List.mem_cons, exists_eq_or_imp]
    rfl
  clock := fun u => by
    have hclock := h.clock u
    rw [clockOf_cons_none c visits |> funext] at hclock
    rw [(sameKinds_addTime g v nanos).kind, Graph.addTime, Array.getElem?_modify]
    -- The clock of the vertex goes on by the time measured; no other vertex stands for the same
    -- call, so the others keep theirs.
    by_cases huv : v = u
    · subst huv
      obtain ⟨x, hx, _⟩ := Option.map_eq_some_iff.mp hv
      rw [hx, hv, Option.map_some, Option.map_some, Option.some.injEq] at hclock
      rw [if_pos rfl, hx, hv]
      exact congrArg some (clock_addTime hclock nanos)
    · rw [if_neg huv, hclock]
      cases hu : g.kind? u with
      | none => rfl
      | some kind =>
        have hother : (⟨c, some nanos⟩ : Visit).kind ≠ kind := by
          rintro rfl
          exact huv (htidy.kind?_inj hv hu)
        rw [Option.map_some, Option.map_some, clockOf_cons_ne hother]

section Replay

variable [Zero R] {step : Step} {called called' : List StatementId}

/-- The graph prepared for a call has its vertex, with its time. -/
theorem Visited.prepared (h : g.Visited visits) (htidy : g.Tidy s) (htyped : g.Typed p)
    (hc : c.Typed p) (q : Query) : (g.prepared c q).Visited (⟨c, q.elapsed⟩ :: visits) := by
  have hcall := h.ensureCall htidy htyped hc
  have htidy' := htidy.recording ((Recording.refl g).call c)
  have hfound := (htyped.ensureCall hc).findCall? hc (findCall?_ensureCall g c)
  rw [Graph.prepared]
  cases q.elapsed with
  | none => exact hcall
  | some nanos => exact hcall.addTime htidy' hfound nanos

/-- Once its vertex is prepared, the step to a call measures nothing. -/
theorem sameClocks_advance (hrun : g.advance u c q = .ok (g', step)) :
    SameClocks (g.prepared c q) g' := by
  obtain ⟨⟨g₁, i⟩, hlink, hrun⟩ := advance_ok hrun
  rw [link?] at hlink
  split at hlink
  case isFalse => cases hlink
  have hlinked := sameClocks_link (g.prepared c q) u (g.ensureCall c).2
  rw [Except.ok.inj hlink] at hlinked
  split at hrun
  · obtain ⟨s', _, rfl, _⟩ := hrun
    exact hlinked.trans (sameClocks_link g₁ _ _)
  · obtain ⟨rfl, _⟩ := hrun
    exact hlinked

/-- A query that is recorded is a visit to the vertex of its call, and to ABORT if it aborts. The
call is the one that the query resolves to at the base partition of the graph, whatever the graph
holds. -/
theorem Visited.observe (h : g.Visited visits) (htidy : g.Tidy s) (htyped : g.Typed p)
    (hrun : g.observe u q p r called = .ok (.ok (g', step, called'))) :
    ∃ c, q.resolve p r g.base called = .ok c ∧ called' = called ++ [c.statement]
      ∧ g'.Visited (⟨c, q.elapsed⟩ :: visits) ∧ g'.kind? step.vertex = some (.query c)
      ∧ step.abort = if q.aborted then some s.abort else none := by
  obtain ⟨links, hrecording, _⟩ := htidy.initialized.recording_observe hrun
  have hplaced := (htidy.recording hrecording).initialized.placed
  have htyped' := keptBy_typed.observe hrun htyped
  obtain ⟨c, hresolve, hadvance, hcalled⟩ := observe_ok hrun
  have hc := Query.resolve_typed hresolve
  obtain ⟨_, hfind, _, _, _, habort⟩ := advance_traces hadvance
  -- Advancing takes no time: the measurement was noted when the vertex was made.
  refine ⟨c, hresolve, hcalled, ?_, htyped'.findCall? hc hfind, ?_⟩
  · exact (h.prepared htidy htyped hc q).of_sameClocks (sameClocks_advance hadvance)
  · split at habort
    case isTrue haborted =>
      obtain ⟨s', hs', habort, _⟩ := habort
      rw [hplaced] at hs'
      cases hs'
      rw [if_pos haborted, habort]
    case isFalse hopen => rw [if_neg hopen, habort]

/-- The vertices visited by queries stand for their calls in turn, and the last one for ABORT if they
abort. -/
theorem Visited.replayQueries {qs : List Query} {visited : List Nat} {aborted : Bool}
    (h : g.Visited visits) (htidy : g.Tidy s) (htyped : g.Typed p)
    (hrun : Graph.replayQueries p r g u called qs = .ok (g', visited, .ok aborted)) :
    ∃ new, visitsOf p r g.base called qs = .ok new ∧ g'.Visited (new ++ visits)
      ∧ visited.map g'.kind?
        = (new.map Visit.kind ++ if aborted then [VertexKind.abort] else []).map some := by
  -- Each query starts where the one before led, with its visit among those made before.
  rw [replayQueries_ok_iff] at hrun
  generalize hresult : Except.ok aborted = result at hrun
  induction hrun generalizing visits with
  | done =>
    cases hresult
    exact ⟨[], rfl, h, rfl⟩
  | rejected => cases hresult
  | @aborted _ _ _ _ _ q _ step hobserve hended =>
    cases hresult
    obtain ⟨links, hrecording, _⟩ := htidy.initialized.recording_observe hobserve
    have hinit := (htidy.recording hrecording).initialized
    obtain ⟨c, hresolve, rfl, h₁, hvertex, habort⟩ := h.observe htidy htyped hobserve
    have haborted : q.aborted = true := by
      by_contra hopen
      rw [habort, if_neg hopen] at hended
      cases hended
    refine ⟨[⟨c, q.elapsed⟩], ?_, h₁, ?_⟩
    · rw [visitsOf, hresolve]
      exact if_pos haborted
    · rw [Step.path, habort, if_pos haborted]
      simp [hvertex, hinit.abort, Visit.kind]
  | @went _ _ _ _ _ _ q _ step _ _ hobserve hopen hrest ih =>
    obtain ⟨links, hrecording, _⟩ := htidy.initialized.recording_observe hobserve
    obtain ⟨c, hresolve, rfl, h₁, hvertex, habort⟩ := h.observe htidy htyped hobserve
    have haborted : ¬ q.aborted = true := fun haborted => by
      rw [habort, if_pos haborted] at hopen
      cases hopen
    have hext := extends_replayQueries (replayQueries_ok_iff.mpr hrest)
    obtain ⟨new, hnew, h', hkinds⟩ :=
      ih h₁ (htidy.recording hrecording) (keptBy_typed.observe hobserve htyped) hresult
    rw [(extends_observe hobserve).base] at hnew
    refine ⟨⟨c, q.elapsed⟩ :: new, ?_, h'.perm List.perm_middle, ?_⟩
    · rw [visitsOf, hresolve]
      dsimp only
      rw [if_neg haborted, hnew]
      rfl
    · rw [List.map_cons, hext.kind? (lt_size hvertex), hvertex, hkinds]
      rfl

/-- Queries whose calls can be told are recorded behind a path. Resolving is the only thing about a
query that can fail, since steps lead on from the vertex that the path has come to. -/
theorem Recorded.replayQueries_total {qs : List Query} {visits : List Visit}
    (h : g.Recorded s (π :: paths) n) (hlast : π.getLast? = some u) (hinner : g.isTerminal u = false)
    (hvisits : visitsOf p r g.base called qs = .ok visits) :
    ∃ g' visited aborted, Graph.replayQueries p r g u called qs = .ok (g', visited, .ok aborted) := by
  induction qs generalizing g u π called visits with
  | nil => exact ⟨g, [], false, rfl⟩
  | cons q qs ih =>
    rw [visitsOf] at hvisits
    split at hvisits
    · cases hvisits
    case h_2 c hresolve =>
    rw [Graph.replayQueries]
    rcases h.observe_total hlast q p r called with ⟨e, hobserve⟩ | ⟨g₁, step, called', hobserve⟩
    -- The only error is one of resolving the query, and this one is resolved.
    · rw [Graph.observe, hresolve] at hobserve
      dsimp only at hobserve
      split at hobserve <;> cases hobserve
    obtain ⟨hstep, habort, hcall⟩ := h.observe hlast hinner hobserve
    obtain ⟨c', hresolve', _, rfl⟩ := observe_ok hobserve
    cases hresolve.symm.trans hresolve'
    rw [hobserve]
    dsimp only
    rw [habort]
    cases haborted : q.aborted with
    | true => exact ⟨g₁, step.path, true, rfl⟩
    | false =>
      rw [haborted, if_neg Bool.false_ne_true] at hvisits
      rw [Step.path, habort, haborted] at hstep
      cases hrest : visitsOf p r g.base (called ++ [c.statement]) qs with
      | error e =>
        rw [hrest] at hvisits
        cases hvisits
      | ok rest =>
        rw [← (extends_observe hobserve).base] at hrest
        obtain ⟨g', visited, aborted, hrun⟩ := ih hstep List.getLast?_concat hcall hrest
        simp only [Bool.false_eq_true, if_false, Option.isSome_none]
        rw [hrun]
        exact ⟨g', step.vertex :: visited, aborted, rfl⟩

/-- A trace that has an account is recorded completely. Its queries can be resolved, which is the
only thing that recording can fail for. -/
theorem Recorded.replay_total {a : Account} (h : g.Recorded s paths n)
    (haccount : t.account p r g.base = .ok a) :
    ∃ g' path, g.replay t p r = .ok (g', .ok path) := by
  rw [Trace.account] at haccount
  cases hvisits : visitsOf p r g.base [] t.queries with
  | error e =>
    rw [hvisits] at haccount
    cases haccount
  | ok visits =>
    have hlast : [s.start].getLast? = some s.start := rfl
    obtain ⟨g₁, visited, aborted, hqueries⟩ :=
      h.begin.replayQueries_total hlast (isTerminal_start h.initialized) hvisits
    rw [Graph.replay, Outcome.bind_of_ok h.initialized.requireSentinels_eq,
      Outcome.bind_of_ok hqueries]
    cases aborted <;> exact ⟨_, _, rfl⟩

end Replay

/-! ### Graphs that account for traces -/

/-- A path leads along the vertices that an account tells of. -/
def Along (g : Graph R) (π : List Nat) (a : Account) : Prop := π.map g.kind? = a.course.map some

/-- A graph holds a path for each account, along the vertices that it tells of, and has no other
vertex and no other measurement. -/
structure AccountsFor (g : Graph R) (s : Sentinels) (p : Procedure) (accounts : List Account) :
    Prop where
  tidy : g.Tidy s
  typed : g.Typed p
  paths : ∃ paths, g.Recorded s paths accounts.length ∧ List.Forall₂ g.Along paths accounts
  visited : g.Visited (accounts.flatMap Account.visits)

/-- A fresh graph accounts for no trace at all. -/
theorem accountsFor_fresh (procedure : ProcedureId) (base partitions : Nat) :
    (fresh procedure base partitions : Graph R).AccountsFor ⟨0, 1, 2⟩ p [] where
  tidy := tidy_fresh procedure base partitions
  typed := typed_fresh procedure base partitions
  paths := ⟨[], recorded_fresh procedure base partitions, .nil⟩
  visited := visited_fresh procedure base partitions

variable {accounts accounts' : List Account}

/-- The order of the accounts does not matter. -/
theorem AccountsFor.perm (h : g.AccountsFor s p accounts) (hperm : accounts.Perm accounts') :
    g.AccountsFor s p accounts' where
  tidy := h.tidy
  typed := h.typed
  paths := by
    obtain ⟨paths, hrecorded, halong⟩ := h.paths
    obtain ⟨paths', halong', hpaths⟩ := List.perm_comp_forall₂ hperm.symm halong.flip
    exact ⟨paths', hperm.length_eq ▸ hrecorded.perm hpaths.symm, halong'.flip⟩
  visited := h.visited.perm (hperm.flatMap_right Account.visits)

/-- Recomputing adds no account. -/
theorem AccountsFor.recompute [Scalar R] (h : g.AccountsFor s p accounts)
    (hrun : g.recompute = .ok g') : g'.AccountsFor s p accounts := by
  obtain ⟨paths, hrecorded, halong⟩ := h.paths
  obtain ⟨g₁, hrun', hrecorded'⟩ := hrecorded.recompute
  cases hrun.symm.trans hrun'
  have hsame := hrecorded.sameKinds_recompute hrun
  refine ⟨Edit.tidy (e := .recompute) h.tidy hrun, h.typed.of_sameKinds hsame,
    ⟨paths, hrecorded', ?_⟩, h.visited.of_sameClocks (sameRecord_recompute hrun).sameClocks⟩
  have halong' : g'.Along = g.Along := by
    unfold Along
    rw [funext hsame.kind]
  rwa [halong']

/-- What stands where paths end. -/
theorem Initialized.kind?_end (h : g.Initialized s) (aborted : Bool) :
    g.kind? (if aborted then s.abort else s.commit)
      = some (if aborted then .abort else .commit) := by
  cases aborted with
  | true => exact h.abort
  | false => exact h.commit

/-- A trace that is recorded completely leaves a path along its account. The calls along the path
are those that its queries were resolved to, up to the first that aborted, and the end of the path
is how the account says that the transaction ended. -/
theorem AccountsFor.replay_along [Zero R] {path : List Nat} (h : g.AccountsFor s p accounts)
    (hrun : g.replay t p r = .ok (g', .ok path)) :
    ∃ a, t.account p r g.base = .ok a ∧ g'.Along path a
      ∧ g'.Visited ((a :: accounts).flatMap Account.visits) := by
  obtain ⟨paths, hrecorded, _⟩ := h.paths
  obtain ⟨links, hrecording, _⟩ := h.tidy.initialized.recording_replay hrun
  have hinit := hrecording.initialized h.tidy.initialized
  rw [Graph.replay, Outcome.bind_of_ok h.tidy.initialized.requireSentinels_eq] at hrun
  obtain ⟨⟨g₁, visited, stop⟩, hqueries, hrun⟩ := Outcome.bind_ok hrun
  obtain ⟨_, hstands⟩ := hrecorded.begin.replayQueries rfl (isTerminal_start hrecorded.initialized)
    hqueries
  rcases stop with e | aborted
  · cases hrun
  obtain ⟨hany, _⟩ := hstands aborted rfl
  obtain ⟨new, hnew, hvisited, hkinds⟩ := h.visited.replayQueries h.tidy h.typed hqueries
  refine ⟨⟨new, t.isAborted⟩, by rw [Trace.account, hnew]; rfl, ?_⟩
  rw [Along, Account.course, Trace.isAborted, ← hany]
  -- Queries that abort end the path; else it ends as the trace says.
  cases aborted with
  | true =>
    cases hrun
    have hsame := sameClocks_recordTxn g₁
    refine ⟨?_, hvisited.of_sameClocks hsame⟩
    rw [List.map_cons, hinit.start, funext hsame.kind?, hkinds]
    simp
  | false =>
    cases hrun
    let last := (s.start :: visited).getLast (List.cons_ne_nil _ _)
    have hsame := (sameClocks_link g₁ last (if t.aborted then s.abort else s.commit)).trans
      (sameClocks_recordTxn _)
    refine ⟨?_, hvisited.of_sameClocks hsame⟩
    rw [List.map_append, List.map_cons, hinit.start, List.map_singleton,
      hinit.kind?_end t.aborted, funext hsame.kind?, hkinds]
    simp

/-- A trace that is recorded completely has an account, and the graph then accounts for one trace
more. -/
theorem AccountsFor.replay [Zero R] {path : List Nat} (h : g.AccountsFor s p accounts)
    (hrun : g.replay t p r = .ok (g', .ok path)) :
    ∃ a, t.account p r g.base = .ok a ∧ g'.AccountsFor s p (a :: accounts) := by
  obtain ⟨paths, hrecorded, halong⟩ := h.paths
  obtain ⟨hadded, hpath⟩ := hrecorded.replay hrun
  obtain ⟨links, hrecording, _⟩ := h.tidy.initialized.recording_replay hrun
  have hext := hrecording.extends
  obtain ⟨a, haccount, hnew, hvisited⟩ := h.replay_along hrun
  refine ⟨a, haccount, h.tidy.recording hrecording, keptBy_typed.replay hrun h.typed,
    ⟨path :: paths, (hpath path rfl).1 ▸ hadded, .cons hnew ?_⟩, hvisited⟩
  -- The vertices of the other paths stand for what they stood for.
  have hold : ∀ π ∈ paths, π.map g'.kind? = π.map g.kind? := fun π hπ =>
    List.map_congr_left fun v hv => hext.kind? ((hrecorded.path π hπ).inside v hv)
  refine List.forall₂_iff_get.mpr ⟨halong.length_eq, fun i hπ ha => ?_⟩
  rw [Along, hold _ (List.get_mem ..)]
  exact halong.get hπ ha

end Graph

end TxnPath
