import TxnPath.Proofs.Forecast.Reuse

/-!
# `TxnPath.Proofs.Forecast.Lending`: a forecaster gets back what it lends

A forecaster borrows a walker and an estimate before steps that can fail. The walker goes back
when the call ends, however it ends. The estimate changes owner only when the call succeeds: it
goes to the forecast, which keeps it until it is closed or given up. So between calls no walker
is out, and the estimates that are out are those that open forecasts hold.

`Forecaster.Lent f w e` says how many walkers and estimates are out. There is one lemma per
operation, in the form "what is out before, and what is out after" (`Lent.start`, `Lent.advance`,
`Lent.close`, `Lent.follow`, …). The pool counts down with truncated subtraction, so a lemma for
something that is put back asks that it was out. `Desk.lent_of_converse` runs this over all that
a forecaster is asked, traces that it follows included.
-/

set_option autoImplicit false

namespace TxnPath

variable {R : Type}

/-- How many estimates a forecast holds: the initial one, and one per batch. -/
def Forecast.held (x : Forecast R) : Nat := 1 + x.estimates.length

namespace Forecaster

variable {f f' : Forecaster R} {x x' : Forecast R} {w e : Nat}

/-- `w` walkers and `e` estimates of a forecaster are out. -/
structure Lent (f : Forecaster R) (w e : Nat) : Prop where
  walkers : f.walkers.active = w
  estimates : f.estimates.active = e

/-- A new forecaster has lent nothing out. -/
theorem lent_new (catalog : Catalog) (router : Router) (mappings : MappingTable R)
    (config : Config R) (store : GraphStore R) :
    (new catalog router mappings config store).Lent 0 0 := ⟨rfl, rfl⟩

/-- Graphs are no business of the pools. -/
theorem Lent.setStore (h : f.Lent w e) (store : GraphStore R) :
    Lent { f with store := store } w e := ⟨h.walkers, h.estimates⟩

/-- Estimates that were out come back, one by one. -/
theorem Lent.returnEstimates {es : List (Estimate R)} (h : f.Lent w (e + es.length))
    (hrun : f.returnEstimates es = .ok f') : f'.Lent w e := by
  obtain ⟨pool, hpool, rfl⟩ := Outcome.map_ok hrun
  have hactive := Pool.active_releaseAll hpool
  refine ⟨h.walkers, ?_⟩
  rw [h.estimates] at hactive
  simp only [hactive, Nat.add_sub_cancel]

/-- A forecast that is given up leaves nothing out. -/
theorem Lent.discard (h : f.Lent w (e + x.held)) (hrun : f.discard x = .ok f') : f'.Lent w e := by
  refine Lent.returnEstimates ?_ hrun
  simpa [Forecast.held, Nat.add_comm] using h

variable [Scalar R]

/-- One walker and one estimate more are out. -/
theorem Lent.borrow {walker : Walker R} {idle : Estimate R} (h : f.Lent w e)
    (hrun : f.borrow = .ok (f', walker, idle)) : f'.Lent (w + 1) (e + 1) := by
  rw [Forecaster.borrow] at hrun
  split at hrun
  case h_1 => cases hrun
  case h_2 hwalkers =>
    split at hrun
    case h_1 => cases hrun
    case h_2 hestimates =>
      cases hrun
      constructor
      · simp only [Pool.active_borrow hwalkers, h.walkers]
      · simp only [Pool.active_borrow hestimates, h.estimates]

/-- A walker that was out comes back. -/
theorem Lent.returnWalker {walker : Walker R} (h : f.Lent (w + 1) e)
    (hrun : f.returnWalker walker = .ok f') : f'.Lent w e := by
  obtain ⟨pool, hpool, rfl⟩ := Outcome.map_ok hrun
  have hactive := Pool.active_release hpool
  refine ⟨?_, h.estimates⟩
  rw [h.walkers] at hactive
  simp only [hactive, Nat.add_sub_cancel]

/-! ### Opening and advancing a forecast -/

/-- A forecast that begins holds one estimate. If none begins, nothing has been borrowed: a
procedure that is not known and arguments that tell no base partition are found out before. -/
theorem Lent.start {txn : TxnId} {procedure : ProcedureId} {args : List Value}
    {result : Except Error (Forecast R)} (h : f.Lent w e)
    (hrun : f.start txn procedure args = .ok (f', result)) :
    f'.Lent w (e + (result.toOption.toList.map Forecast.held).sum) := by
  rw [Forecaster.start] at hrun
  split at hrun
  case h_1 =>
    cases hrun
    exact h
  case h_2 =>
    split at hrun
    case h_1 =>
      cases hrun
      exact h
    case h_2 =>
      -- The walker sets out on a graph that is there. It is put back, and the estimate stays with
      -- the forecast.
      obtain ⟨⟨f₁, walker, idle⟩, hborrow, hrun⟩ := Outcome.bind_ok hrun
      obtain ⟨s, _, hrun⟩ := Outcome.bind_ok hrun
      obtain ⟨walker', _, hrun⟩ := Outcome.bind_ok hrun
      obtain ⟨f₂, hreturn, hrun⟩ := Outcome.bind_ok hrun
      cases hrun
      have hout := (h.setStore _).borrow hborrow
      show f'.Lent w (e + 1)
      exact hout.returnWalker hreturn

/-- What is recorded of a batch leaves the estimates of its forecast as they are. So the account of
estimates changes at the end of a batch only. -/
theorem held_of_record {p : Procedure} {r : Router} {g g' : Graph R} {qs : List Query}
    {result : Except Error Unit} (hrun : record p r g x qs = .ok (g', x', result)) :
    x'.held = x.held := by
  induction qs generalizing g x with
  | nil =>
    cases hrun
    rfl
  | cons q rest ih =>
    rw [record] at hrun
    split at hrun
    case h_1 => cases hrun
    case h_2 =>
      cases hrun
      rfl
    case h_3 =>
      dsimp only at hrun
      split at hrun
      case h_1 => cases hrun
      case h_2 =>
        split at hrun
        case isTrue =>
          cases hrun
          rfl
        -- The query was recorded, which adds to the path of the forecast and not to its estimates.
        case isFalse =>
          rw [ih hrun]
          rfl

/-- The end of a batch puts the walker back. The estimate goes to the forecast or back to the
pool. -/
theorem Lent.endBatch {walker : Walker R} {idle : Estimate R} {p : Procedure} {g : Graph R}
    {stop : Except Error Unit} {result : Except Error (Estimate R)}
    (h : f.Lent (w + 1) (e + x.held + 1))
    (hrun : f.endBatch walker idle p g x stop = .ok (f', x', result)) :
    f'.Lent w (e + x'.held) := by
  have hstored := h.setStore (f.store.set x.key g)
  cases stop with
  -- A failed batch has no estimate, so that the one it borrowed goes back with the walker.
  | error failure =>
    obtain ⟨f₁, hestimate, hrun⟩ := Outcome.bind_ok hrun
    obtain ⟨f₂, hwalker, hrun⟩ := Outcome.bind_ok hrun
    cases hrun
    have hback : f₁.Lent (w + 1) (e + x.held) := Lent.returnEstimates hstored hestimate
    exact hback.returnWalker hwalker
  | ok _ =>
    obtain ⟨walker', _, hrun⟩ := Outcome.bind_ok hrun
    obtain ⟨f₁, hwalker, hrun⟩ := Outcome.bind_ok hrun
    cases hrun
    have hback := hstored.returnWalker hwalker
    simpa [Forecast.held, Nat.add_assoc] using hback

/-- A batch leaves out what its forecast holds by then, whether it succeeds or fails, and wherever
it fails. -/
theorem Lent.advance {qs : List Query} {result : Except Error (Estimate R)}
    (h : f.Lent w (e + x.held)) (hrun : f.advance x qs = .ok (f', x', result)) :
    f'.Lent w (e + x'.held) := by
  rcases advance_cases hrun with ⟨rfl, rfl, _⟩ | ⟨p, f₁, walker, idle, g, y, stop, hborrow, hend,
    hrecord⟩
  · exact h
  have hy : y.held = x.held := by
    rcases hrecord with ⟨_, rfl⟩ | ⟨_, hrecord⟩
    · rfl
    · exact held_of_record hrecord
  -- The estimate that was borrowed is out, but no forecast holds it yet.
  refine Lent.endBatch ?_ hend
  rw [hy]
  exact h.borrow hborrow

/-- Advancing by several batches keeps the accounts, also where one of them is rejected: the
estimates of the batches before it are held by the forecast. -/
theorem Lent.advanceAll {batches : List (List Query)} {result : Except Error Unit}
    (h : f.Lent w (e + x.held)) (hrun : f.advanceAll x batches = .ok (f', x', result)) :
    f'.Lent w (e + x'.held) := by
  induction batches generalizing f x with
  | nil =>
    cases hrun
    exact h
  | cons batch rest ih =>
    rw [Forecaster.advanceAll] at hrun
    split at hrun
    case h_1 => cases hrun
    case h_2 hadvance =>
      cases hrun
      exact h.advance hadvance
    case h_3 hadvance =>
      -- The batch went well, and nothing follows it if it has aborted.
      have hnext := h.advance hadvance
      split at hrun
      case isTrue =>
        cases hrun
        exact hnext
      case isFalse => exact ih hnext hrun

/-- A trace leaves its forecast open. When a batch fails, the forecast is given up with all that it
holds by then. -/
theorem Lent.follow {t : Trace} {result : Except Error (Forecast R)} (h : f.Lent w e)
    (hrun : f.follow t = .ok (f', result)) :
    f'.Lent w (e + (result.toOption.toList.map Forecast.held).sum) := by
  rw [Forecaster.follow] at hrun
  split at hrun
  case h_1 => cases hrun
  case h_2 hstart =>
    cases hrun
    exact h.start hstart
  case h_3 f₁ x hstart =>
    have hopen : f₁.Lent w (e + x.held) := h.start hstart
    split at hrun
    case h_1 => cases hrun
    -- A batch was rejected, and the forecast is given up with all that it holds.
    case h_2 hadvance =>
      obtain ⟨f₂, hdiscard, hrun⟩ := Outcome.map_ok hrun
      cases hrun
      exact (hopen.advanceAll hadvance).discard hdiscard
    case h_3 hadvance =>
      cases hrun
      exact hopen.advanceAll hadvance

/-! ### Closing a forecast -/

/-- Closing a forecast gives back all the estimates that it holds. Whether its graph has drifted
does not matter to the pools. -/
theorem Lent.endClose {g : Graph R} {drifted : Bool} (h : f.Lent w (e + x.held))
    (hrun : f.endClose x g = .ok (f', drifted)) : f'.Lent w e := by
  have hdone : ∀ {g₁ : Graph R} {b : Bool},
      (Forecaster.discard { f with store := f.store.set x.key g₁ } x >>= fun f => pure (f, b))
        = .ok (f', drifted) → f'.Lent w e := by
    intro g₁ b hend
    obtain ⟨f₁, hdiscard, hend⟩ := Outcome.bind_ok hend
    cases hend
    exact (h.setStore _).discard hdiscard
  rw [Forecaster.endClose] at hrun
  dsimp only at hrun
  split at hrun
  · obtain ⟨g₁, _, hrun⟩ := Outcome.bind_ok hrun
    exact hdone hrun
  · obtain ⟨g₁, _, hrun⟩ := Outcome.bind_ok hrun
    exact hdone hrun

/-- So does a request to close it, which records the end of its path first. -/
theorem Lent.close {committed drifted : Bool} (h : f.Lent w (e + x.held))
    (hrun : f.close x committed = .ok (f', drifted)) : f'.Lent w e := by
  rw [Forecaster.close] at hrun
  obtain ⟨s, _, hrun⟩ := Outcome.bind_ok hrun
  split at hrun
  case isTrue => exact h.endClose hrun
  case isFalse =>
    obtain ⟨⟨g, _⟩, _, hrun⟩ := Outcome.bind_ok hrun
    exact h.endClose hrun

end Forecaster

/-! ### A forecaster and its open forecasts -/

namespace Desk

variable {d d' : Desk R}

/-- How many estimates the open forecasts hold. -/
def held (d : Desk R) : Nat := (d.active.map Forecast.held).sum

/-- What the forecasts of two lists hold together. -/
theorem held_append (f : Forecaster R) (xs ys : List (Forecast R)) :
    (⟨f, xs ++ ys⟩ : Desk R).held = (xs.map Forecast.held).sum + (ys.map Forecast.held).sum := by
  simp [held]

/-- What is held splits into what one forecast holds and what the others hold. -/
theorem held_eraseIdx {i : Nat} {x : Forecast R} (hx : d.active[i]? = some x) (f : Forecaster R) :
    d.held = (⟨f, d.active.eraseIdx i⟩ : Desk R).held + x.held := by
  obtain ⟨hlt, rfl⟩ := List.getElem?_eq_some_iff.mp hx
  have hperm := (List.getElem_cons_eraseIdx_perm hlt).map Forecast.held
  have hsum := hperm.sum_eq
  simp only [List.map_cons, List.sum_cons] at hsum
  unfold held
  dsimp only
  omega

/-- A forecast that changes is counted with what it holds now, the others with what they held. -/
theorem held_set {i : Nat} (hlt : i < d.active.length) (x : Forecast R) (f : Forecaster R) :
    (⟨f, d.active.set i x⟩ : Desk R).held = (⟨f, d.active.eraseIdx i⟩ : Desk R).held + x.held := by
  have hperm := (List.set_perm_cons_eraseIdx hlt x).map Forecast.held
  have hsum := hperm.sum_eq
  simp only [List.map_cons, List.sum_cons] at hsum
  unfold held
  dsimp only
  omega

/-- What a forecaster is called for: a request, or a trace to follow. -/
inductive Call where
  | ask (q : Request)
  | follow (t : Trace)

variable [Scalar R]

/-- What is done on a call. The forecast of a trace that was followed to its end stays open. -/
def serve (d : Desk R) : Call → Except Fault (Desk R × Answer R)
  | .ask q => d.respond q
  | .follow t => do
    let (f, result) ← d.forecaster.follow t
    pure (⟨f, d.active ++ result.toOption.toList⟩, .started result)

/-- No walker is out, and the estimates that are out are those that open forecasts hold. -/
def Lent (d : Desk R) : Prop := d.forecaster.Lent 0 d.held

/-- Every request keeps the accounts of a desk: no walker is out between two requests, and as many
estimates as the open forecasts hold. A request about one forecast is answered with the others set
aside (`held_eraseIdx`), so that the lemma about the operation applies to this one alone; requests
to learn do not touch the pools. -/
theorem Lent.respond {q : Request} {answer : Answer R} (h : d.Lent)
    (hrun : d.respond q = .ok (d', answer)) : d'.Lent := by
  cases q with
  | start txn procedure args =>
    obtain ⟨⟨f, result⟩, hstart, hrun⟩ := Outcome.bind_ok hrun
    cases hrun
    rw [Lent, held_append]
    exact Forecaster.Lent.start h hstart
  | advance i queries =>
    rw [Desk.respond] at hrun
    split at hrun
    case h_1 =>
      cases hrun
      exact h
    case h_2 x hx =>
      obtain ⟨⟨f, y, result⟩, hadvance, hrun⟩ := Outcome.bind_ok hrun
      cases hrun
      obtain ⟨hlt, _⟩ := List.getElem?_eq_some_iff.mp hx
      rw [Lent, held_eraseIdx hx f] at h
      rw [Lent, held_set hlt]
      exact Forecaster.Lent.advance h hadvance
  | close i committed =>
    rw [Desk.respond] at hrun
    split at hrun
    case h_1 =>
      cases hrun
      exact h
    case h_2 x hx =>
      obtain ⟨⟨f, drifted⟩, hclose, hrun⟩ := Outcome.bind_ok hrun
      cases hrun
      rw [Lent, held_eraseIdx hx f] at h
      exact Forecaster.Lent.close h hclose
  | discard i =>
    rw [Desk.respond] at hrun
    split at hrun
    case h_1 =>
      cases hrun
      exact h
    case h_2 x hx =>
      obtain ⟨f, hdiscard, hrun⟩ := Outcome.bind_ok hrun
      cases hrun
      rw [Lent, held_eraseIdx hx f] at h
      exact Forecaster.Lent.discard h hdiscard
  -- Learning changes graphs. It borrows nothing.
  | train traces =>
    obtain ⟨⟨f, result⟩, htrain, hrun⟩ := Outcome.bind_ok hrun
    cases hrun
    obtain ⟨⟨store, n⟩, _, htrain⟩ := Outcome.map_ok htrain
    cases htrain
    exact Forecaster.Lent.setStore h store
  | recompute =>
    obtain ⟨f, hrecompute, hrun⟩ := Outcome.bind_ok hrun
    cases hrun
    obtain ⟨store, _, rfl⟩ := Outcome.map_ok hrecompute
    exact Forecaster.Lent.setStore h store

/-- A call that comes to an answer, good or bad, leaves out what open forecasts hold. -/
theorem Lent.serve {call : Call} {answer : Answer R} (h : d.Lent)
    (hrun : d.serve call = .ok (d', answer)) : d'.Lent := by
  cases call with
  | ask q => exact h.respond hrun
  | follow t =>
    obtain ⟨⟨f, result⟩, hfollow, hrun⟩ := Outcome.bind_ok hrun
    cases hrun
    rw [Lent, held_append]
    exact Forecaster.Lent.follow h hfollow

/-- So do all requests of a conversation, one after the other, whatever they are answered with. -/
theorem lent_of_converse {calls : List Call} {answers : List (Answer R)} (h : d.Lent)
    (hrun : converse Desk.serve d calls = .ok (d', answers)) : d'.Lent := by
  induction calls generalizing d answers with
  | nil =>
    cases hrun
    exact h
  | cons call rest ih =>
    obtain ⟨⟨d₁, answer⟩, hcall, hrun⟩ := Outcome.bind_ok hrun
    obtain ⟨⟨d₂, later⟩, hrest, hrun⟩ := Outcome.bind_ok hrun
    cases hrun
    exact ih (h.serve hcall) hrest

/-- A forecaster gets back what it lends. Whatever it has been called for, and whichever calls
failed, no walker is out by then, and the estimates that are out are one for every open forecast
and one more for every batch that it was advanced by with success. -/
theorem lent_is_held {catalog : Catalog} {router : Router} {mappings : MappingTable R}
    {config : Config R} {store : GraphStore R} {calls : List Call} {answers : List (Answer R)}
    (hrun : converse serve ⟨.new catalog router mappings config store, []⟩ calls
      = .ok (d, answers)) :
    d.forecaster.walkers.active = 0
      ∧ d.forecaster.estimates.active = (d.active.map fun x => 1 + x.estimates.length).sum := by
  have hnew : (⟨.new catalog router mappings config store, []⟩ : Desk R).Lent :=
    Forecaster.lent_new catalog router mappings config store
  have hlent := lent_of_converse hnew hrun
  exact ⟨hlent.walkers, hlent.estimates⟩

/-- A transfer is advanced by two batches, the second of which breaks off at an unknown statement. A
call for an unknown procedure fails, one trace is followed to its end, and one up to the unknown
statement in its second batch. A third transfer is begun and closed, and a fourth is given up. -/
def errands : List Call :=
  [.ask (.start 1 0 []), .ask (.advance 0 [⟨0, [], 0, false, none⟩]),
    .ask (.advance 0 [⟨1, [], 0, false, none⟩, ⟨9, [], 0, false, none⟩]), .ask (.start 2 7 []),
    .follow ⟨3, 0, [], [⟨0, [], 0, false, none⟩, ⟨1, [], 1, true, none⟩], false⟩,
    .follow ⟨4, 0, [], [⟨0, [], 0, false, none⟩, ⟨9, [], 1, false, none⟩], false⟩,
    .ask (.start 5 0 []), .ask (.close 2 true), .ask (.start 6 0 []), .ask (.discard 2)]

/-- Two forecasts are open in the end, with one and with two batches. -/
theorem lent_is_held_errands :
    ∃ d answers, converse serve ⟨Forecaster.teller, []⟩ errands = .ok (d, answers)
      ∧ d.active.map (fun x => x.estimates.length) = [1, 2]
      ∧ d.forecaster.walkers.active = 0 ∧ d.forecaster.estimates.active = 5 := by
  have hresult : (converse serve ⟨Forecaster.teller, []⟩ errands).toOption.map
      (fun out => out.1.active.map fun x => x.estimates.length) = some [1, 2] := by
    decide +kernel
  obtain ⟨⟨d, answers⟩, hrun, hopen⟩ := Option.map_eq_some_iff.mp hresult
  obtain ⟨hwalkers, hestimates⟩ := lent_is_held (Outcome.of_toOption hrun)
  refine ⟨d, answers, Outcome.of_toOption hrun, hopen, hwalkers, ?_⟩
  have hsum := congrArg (fun ns => (ns.map (1 + ·)).sum) hopen
  simp only [List.map_map, Function.comp_def] at hsum
  rw [hestimates, hsum]
  simp

end Desk

end TxnPath
