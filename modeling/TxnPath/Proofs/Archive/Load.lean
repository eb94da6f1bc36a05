import TxnPath.Proofs.Archive.Build
import TxnPath.Proofs.Graph.Tangled
import TxnPath.Proofs.Walk.Itinerary

/-!
# `TxnPath.Proofs.Archive.Load`: what stored graphs can do to their reader

Whatever is stored, loading it should give a graph or an error. `load_and_use` says how far this
goes. Loading stops if and only if the record is well formed and its graph is tangled, with edges
that both enter and leave COMMIT or ABORT: the checks on edges do not look at sentinels, and peeling
trusts that nothing leaves these two. A graph that is loaded can always be recomputed. A walk over it
fails if and only if it comes to a call of a partition that the graph does not have, which nothing
checks on loading either.
-/

set_option autoImplicit false

namespace TxnPath

namespace Graph

variable {R : Type} {g g' : Graph R}

/-- Folding the window leaves the edges where they are. -/
theorem shape_foldWindow (g : Graph R) : g.foldWindow.shape = g.shape := by
  simp [shape, foldWindow, List.zipIdx_map, Function.comp_def]

variable [Scalar R] {s : Sentinels}

/-- A graph whose probabilities could be derived can be recomputed. -/
theorem Initialized.recompute_total (h : g.Initialized s) (hclear : ¬ g.Tangled) :
    ∃ g', g.recompute = .ok g' := by
  have hclear' : ¬ g.foldWindow.Tangled := fun htangled =>
    hclear ((tangled_congr (shape_foldWindow g) rfl).mp htangled)
  obtain ⟨g', hrun, _⟩ := h.foldWindow.derive_total hclear'
  exact ⟨g', hrun⟩

end Graph

namespace GraphRecord

variable {R : Type} [Scalar R] {r : GraphRecord} {c : Catalog} {g : Graph R} {p : Procedure}

/-- A record of the catalog from which a graph can be built is loaded as far as this graph's
probabilities can be derived. -/
theorem load_built (hp : c.procedureNamed r.procedure = .ok p) (hparts : r.partitions = c.partitions)
    (hbuild : r.build p = .ok g) : r.load c = g.derive.map .ok := by
  rw [load, hp]
  dsimp only
  rw [if_neg (not_not.mpr hparts), hbuild]

/-- Every other record is refused. A record is loaded if its procedure is known, if it has been made
for as many partitions as there are, and if the graph can be built. -/
theorem load_cases (r : GraphRecord) (c : Catalog) :
    (∃ e, (r.load c : Except Fault (Except Error (Graph R))) = .ok (.error e))
      ∨ ∃ p, ∃ g : Graph R, c.procedureNamed r.procedure = .ok p ∧ r.partitions = c.partitions
        ∧ r.build p = .ok g := by
  cases hp : c.procedureNamed r.procedure with
  | error e => exact .inl ⟨e, by rw [load, hp]⟩
  | ok p =>
    by_cases hparts : r.partitions = c.partitions
    -- What remains is whether the graph can be built from the record.
    · cases hbuild : (r.build p : Except DocumentError (Graph R)) with
      | error e =>
        refine .inl ⟨.document e, ?_⟩
        rw [load, hp]
        dsimp only
        rw [if_neg (not_not.mpr hparts), hbuild]
      | ok g => exact .inr ⟨p, g, rfl, hparts, hbuild⟩
    · refine .inl ⟨.document (.partitionCount r.procedure r.partitions c.partitions), ?_⟩
      rw [load, hp]
      dsimp only
      rw [if_pos hparts]

/-- Loading stops exactly on the records of tangled graphs. All other records are refused with an
error or loaded, and it is deriving that stops, after the graph has been built. -/
theorem load_error_iff :
    (∃ f, (r.load c : Except Fault (Except Error (Graph R))) = .error f)
      ↔ ∃ p, ∃ g : Graph R, c.procedureNamed r.procedure = .ok p ∧ r.partitions = c.partitions
        ∧ r.build p = .ok g ∧ g.Tangled := by
  constructor
  · rintro ⟨f, hload⟩
    rcases load_cases (R := R) r c with ⟨e, hrefused⟩ | ⟨p, g, hp, hparts, hbuild⟩
    · cases hload.symm.trans hrefused
    · obtain ⟨s, hformed, rfl⟩ := build_ok_iff.mp hbuild
      rw [load_built hp hparts hbuild] at hload
      have hderive := Outcome.map_error hload
      exact ⟨p, _, hp, hparts, hbuild, (hformed.initialized p.id).derive_error_iff.mp ⟨f, hderive⟩⟩
  · rintro ⟨p, g, hp, hparts, hbuild, htangled⟩
    obtain ⟨s, hformed, rfl⟩ := build_ok_iff.mp hbuild
    obtain ⟨f, hderive⟩ := (hformed.initialized p.id).derive_error htangled
    exact ⟨f, by rw [load_built hp hparts hbuild, hderive]; rfl⟩

/-- A loaded graph is that of a well-formed record, with its probabilities derived. -/
theorem load_ok (hload : r.load c = .ok (.ok g)) :
    ∃ p s, c.procedureNamed r.procedure = .ok p ∧ r.partitions = c.partitions
      ∧ r.WellFormed p s ∧ (r.skeleton p.id s).derive = .ok g := by
  rcases load_cases (R := R) r c with ⟨e, hrefused⟩ | ⟨p, g₀, hp, hparts, hbuild⟩
  · cases hload.symm.trans hrefused
  · obtain ⟨s, hformed, rfl⟩ := build_ok_iff.mp hbuild
    rw [load_built hp hparts hbuild] at hload
    obtain ⟨g', hderive, heq⟩ := Outcome.map_ok hload
    exact ⟨p, s, hp, hparts, hformed, Except.ok.inj heq ▸ hderive⟩

/-- What stored graphs can do to their reader. Loading stops exactly on records of tangled graphs. A
loaded graph can be recomputed, and a walk over it from START fails exactly if it comes to a call of
a partition that the graph does not have. The bounds are those of the numbers that vertices and
partitions get. -/
theorem load_and_use (r : GraphRecord) (c : Catalog) :
    ((∃ f, (r.load c : Except Fault (Except Error (Graph R))) = .error f)
        ↔ ∃ p, ∃ g : Graph R, c.procedureNamed r.procedure = .ok p ∧ r.partitions = c.partitions
          ∧ r.build p = .ok g ∧ g.Tangled)
      ∧ ∀ g : Graph R, r.load c = .ok (.ok g) →
        (∃ g', g.recompute = .ok g')
          ∧ ∃ s, g.sentinels = some s ∧ ∀ (j : Journey R) (w : Walker R), j.graph = g → w.Rested →
            r.vertices.length ≤ halfWordLimit → c.partitions < halfWordLimit →
            ((∃ f, w.traverse j s.start = .error f)
              ↔ ∃ v ∈ j.itinerary s.start, ¬ g.InRange v) := by
  refine ⟨load_error_iff, fun g hload => ?_⟩
  obtain ⟨p, s, hp, hcount, hformed, hderive⟩ := load_ok hload
  have hinit := hformed.initialized (R := R) p.id
  obtain ⟨hclear, hsame⟩ := hinit.derive_same hderive
  have hinit' := hinit.unsetTables.weighEdges.of_sameButTables hsame
  -- Deriving does not touch the shape, so that the graph that was loaded is tangled only if the
  -- record's graph is.
  have hshape : g.shape = (r.skeleton p.id s : Graph R).shape :=
    hsame.shape.trans (Graph.shape_weighEdges _)
  have hsize : g.vertices.size = r.vertices.length := by
    simpa [Graph.shape, skeleton] using congrArg Digraph.size hshape
  have hparts : g.partitions = c.partitions := by
    rw [hsame.frame]
    exact hcount
  refine ⟨hinit'.recompute_total fun htangled => hclear ?_, s, hinit'.placed, ?_⟩
  · exact (Graph.tangled_congr hshape (by rw [hinit'.placed]; rfl)).mp htangled
  · rintro j w rfl hw hroom hnumbers
    exact Walker.traverse_error_iff hinit' hw (Graph.lt_size hinit'.start) (hsize ▸ hroom)
      (hparts ▸ hnumbers)

section Pay

/-- A procedure of one statement. -/
def payment : Procedure := ⟨0, "pay", [], [⟨0, "debit", .update, [], []⟩], false, true, none⟩

/-- The procedure alone, at one partition. -/
def pay : Catalog := ⟨1, [], [payment]⟩

/-- Everything belongs to the partition. -/
def payRouter : Router := ⟨1, fun _ _ => .ok 0, fun _ _ _ _ => .ok (.singleton 0)⟩

/-- A record in which an edge enters COMMIT and another leaves it. -/
def entwined : GraphRecord :=
  ⟨"pay", 0, 0, 1, 1, [⟨.start, 1, 0, 0⟩, ⟨.commit, 1, 0, 0⟩, ⟨.abort, 1, 0, 0⟩],
    [⟨0, 1, 1⟩, ⟨1, 2, 1⟩]⟩

/-- A record of a call that touches the sixth partition of one. -/
def stray : GraphRecord :=
  ⟨"pay", 0, 0, 1, 1, [⟨.start, 1, 0, 0⟩, ⟨.commit, 1, 0, 0⟩, ⟨.abort, 0, 0, 0⟩,
    ⟨.query ⟨0, 0, .singleton 5, .update⟩, 1, 0, 0⟩], [⟨0, 3, 1⟩, ⟨3, 1, 1⟩]⟩

/-- A walk that goes wherever edges lead. -/
def anywhere (g : Graph Rat) : Journey Rat where
  graph := g
  procedure := payment
  mappings := ∅
  router := payRouter
  args := []
  policy := .firstFound
  force := true
  minHitsForAbort := 1

/-- A record with edges that enter and leave COMMIT stops the loading. -/
theorem entwined_stops :
    ∃ f, (entwined.load pay : Except Fault (Except Error (Graph Rat))) = .error f := by
  have hstop : (entwined.load pay : Except Fault (Except Error (Graph Rat))).isOk = false := by
    decide +kernel
  cases hload : (entwined.load pay : Except Fault (Except Error (Graph Rat))) with
  | error f => exact ⟨f, rfl⟩
  | ok result =>
    rw [hload] at hstop
    cases hstop

/-- A record with a call of a partition that there is not is loaded, and a walk over its graph
fails. -/
theorem stray_loads :
    ∃ g : Graph Rat, stray.load pay = .ok (.ok g) ∧ g.sentinels = some ⟨0, 1, 2⟩
      ∧ ∃ f, Walker.new.traverse (anywhere g) 0 = .error f := by
  have hloaded : ((stray.load pay : Except Fault (Except Error (Graph Rat))).toOption.bind
      Except.toOption).map (fun g => (g.sentinels, (Walker.new.traverse (anywhere g) 0).isOk))
        = some (some ⟨0, 1, 2⟩, false) := by
    decide +kernel
  -- Loading was evaluated to a graph, so that the two other outcomes are excluded.
  rcases hload : (stray.load pay : Except Fault (Except Error (Graph Rat))) with f | e | g
  · rw [hload] at hloaded
    cases hloaded
  · rw [hload] at hloaded
    cases hloaded
  · rw [hload] at hloaded
    obtain ⟨hsentinels, hwalk⟩ := Prod.mk.inj (Option.some.inj hloaded)
    refine ⟨g, rfl, hsentinels, ?_⟩
    cases hrun : Walker.new.traverse (anywhere g) 0 with
    | error f => exact ⟨f, rfl⟩
    | ok w =>
      rw [hrun] at hwalk
      cases hwalk

/-- The graph of the first record is tangled. The second record is loaded, and a walk over its graph
comes to the call. -/
theorem load_and_use_pay :
    (∃ p, ∃ g : Graph Rat, pay.procedureNamed entwined.procedure = .ok p
        ∧ entwined.partitions = pay.partitions ∧ entwined.build p = .ok g ∧ g.Tangled)
      ∧ ∃ g : Graph Rat, stray.load pay = .ok (.ok g) ∧ (∃ g', g.recompute = .ok g')
        ∧ ∃ v ∈ (anywhere g).itinerary 0, ¬ g.InRange v := by
  refine ⟨(load_and_use entwined pay).1.mp entwined_stops, ?_⟩
  obtain ⟨g, hload, hsentinels, hwalk⟩ := stray_loads
  obtain ⟨hrecompute, s, hs, hwalks⟩ := (load_and_use stray pay).2 g hload
  obtain rfl := Option.some.inj (hsentinels.symm.trans hs)
  exact ⟨g, hload, hrecompute,
    (hwalks (anywhere g) .new rfl Walker.rested_new (by decide) (by decide)).mp hwalk⟩

/-- The catalog is valid, and yet loading a record for it stops, and so does a walk over the graph
that is loaded from another. -/
theorem entwined_stops_stray_strays :
    pay.validate = .ok ()
      ∧ (∃ f, (entwined.load pay : Except Fault (Except Error (Graph Rat))) = .error f)
      ∧ ∃ g : Graph Rat, stray.load pay = .ok (.ok g)
        ∧ ∃ f, Walker.new.traverse (anywhere g) 0 = .error f := by
  obtain ⟨g, hload, _, hwalk⟩ := stray_loads
  exact ⟨rfl, entwined_stops, g, hload, hwalk⟩

end Pay

end GraphRecord

end TxnPath
