import Mathlib.Data.List.Induction
import Mathlib.Data.List.Perm.Basic
import Mathlib.Order.Bounds.Basic
import TxnPath.Proofs.Outcome
import TxnPath.Txn.Dependency

/-!
# `TxnPath.Proofs.Pool`: what a pool keeps account of

A pool stops when it meets an object in use where it expects none. Where finishing an object always
puts it out of use, and new ones are out of use, it never stops (`borrow_total`, `release_total`).

Objects have no names, so two that are alike cannot be told apart. `Numbered` gives each the number
of those that were made before it, which nothing that is done with an object changes, and which
makes no difference to the pool (`borrow_forget`, `release_forget`). `Pool.Loans` is a pool beside
the objects that are out, and remembers which of those that came back were not kept. Every object
that was made is out, idle or discarded, and only one of these (`Loans.Accounted.objects`); the
counters of the pool are read off this. One deal keeps the accounts (`Accounted.step`), so that any
number of deals does (`Loans.accounted_of_run`).
-/

set_option autoImplicit false

namespace TxnPath

/-- An object with a number of its own: how many were made before it. -/
structure Numbered (α : Type) where
  number : Nat
  content : α
  deriving DecidableEq

/-- A number says nothing about use, and finishing an object leaves it its number. -/
instance {α : Type} [Poolable α] : Poolable (Numbered α) where
  isInitialized a := Poolable.isInitialized a.content
  finish a := { a with content := Poolable.finish a.content }

namespace Numbered

variable {α : Type}

/-- New objects are numbered as they are made. -/
def ofMake (make : Nat → α) (n : Nat) : Numbered α := ⟨n, make n⟩

/-- A change of an object. -/
def change (f : α → α) (a : Numbered α) : Numbered α := { a with content := f a.content }

/-- An object that is made gets the number it was made with. -/
@[simp] theorem number_ofMake (make : Nat → α) (n : Nat) : (ofMake make n).number = n := rfl

/-- Working with an object does not change its number. -/
@[simp] theorem number_change (f : α → α) (a : Numbered α) : (a.change f).number = a.number := rfl

/-- Nor does finishing it. -/
@[simp] theorem number_finish [Poolable α] (a : Numbered α) :
    (Poolable.finish a).number = a.number := rfl

end Numbered

namespace Pool

variable {α : Type} [Poolable α] {p q : Pool α} {P : α → Prop} {make : Nat → α} {a : α}

/-! ### What one operation does -/

/-- An idle object is handed out if there is one, the one returned last, and else a new one. Either
way it is not initialized, as borrowing stops otherwise. -/
theorem borrow_cases (h : p.borrow make = .ok (q, a)) :
    Poolable.isInitialized a = false
      ∧ ((∃ rest, p.idle = a :: rest
          ∧ q = { p with idle := rest, active := p.active + 1, peak := max p.peak (p.active + 1) })
        ∨ (p.idle = [] ∧ a = make p.created
          ∧ q = { p with active := p.active + 1, created := p.created + 1,
                         peak := max p.peak (p.active + 1) })) := by
  obtain ⟨name, maxIdle, limit, idle, active, created, peak⟩ := p
  -- With nothing idle a new object is made, at the number of those made so far.
  cases idle with
  | nil =>
    rw [borrow] at h
    dsimp only at h
    split at h
    case isTrue => cases h
    case isFalse hrest =>
      cases h
      exact ⟨Bool.eq_false_iff.mpr hrest, .inr ⟨rfl, rfl, rfl⟩⟩
  | cons b rest =>
    rw [borrow] at h
    dsimp only at h
    split at h
    case isTrue => cases h
    case isFalse hrest =>
      cases h
      exact ⟨Bool.eq_false_iff.mpr hrest, .inl ⟨rest, rfl, rfl⟩⟩

/-- An object that comes back is finished, and idle unless there are enough of these. If there are,
it is dropped, and counted neither as out nor as idle. -/
theorem release_cases (h : p.release a = .ok q) :
    Poolable.isInitialized (Poolable.finish a) = false
      ∧ ((p.idle.length < p.maxIdle
          ∧ q = { p with idle := Poolable.finish a :: p.idle, active := p.active - 1 })
        ∨ (p.maxIdle ≤ p.idle.length ∧ q = { p with active := p.active - 1 })) := by
  rw [release] at h
  split at h
  case isTrue => cases h
  case isFalse hrest =>
    cases h
    refine ⟨Bool.eq_false_iff.mpr hrest, ?_⟩
    by_cases hroom : p.idle.length < p.maxIdle
    · exact .inl ⟨hroom, by rw [if_pos hroom]⟩
    · exact .inr ⟨Nat.le_of_not_lt hroom, by rw [if_neg hroom]⟩

/-- A pool with a limit hands out nothing where as many objects are out as it allows. The answer
names the pool, and tells how many are out and how many are allowed. -/
theorem tryBorrow_eq_error_iff {e : PoolExhausted} : p.tryBorrow make = .ok (.error e) ↔
    ∃ limit, p.limit = some limit ∧ limit ≤ p.active ∧ e = ⟨p.name, p.active, limit⟩ := by
  rw [tryBorrow]
  cases hlimit : p.limit with
  | none =>
    simp only [Option.filter_none, reduceCtorEq, false_and, exists_const, iff_false]
    intro h
    obtain ⟨_, _, h⟩ := Outcome.map_ok h
    cases h
  | some limit =>
    -- With a limit it depends on how many objects are out; the pool itself is asked only if there
    -- is room.
    by_cases hfull : limit ≤ p.active
    · simp only [Option.filter_some, hfull, decide_true, if_true, Except.ok.injEq,
        Except.error.injEq, Option.some_inj, exists_eq_left', true_and]
      exact eq_comm
    · simp only [Option.filter_some, hfull, decide_false, Bool.false_eq_true, if_false,
        Option.some_inj, exists_eq_left', false_and, iff_false]
      intro h
      obtain ⟨_, _, h⟩ := Outcome.map_ok h
      cases h

/-- What a pool with a limit does hand out it hands out as if it had none. -/
theorem tryBorrow_cases (h : p.borrow make = .ok (q, a)) :
    (∃ e, p.tryBorrow make = .ok (.error e)) ∨ p.tryBorrow make = .ok (.ok (q, a)) := by
  rw [tryBorrow]
  split
  case h_1 => exact .inl ⟨_, rfl⟩
  case h_2 =>
    rw [h]
    exact .inr rfl

/-- The peak goes up with the number of objects out. -/
theorem peak_borrow (h : p.borrow make = .ok (q, a)) : q.peak = max q.active p.peak := by
  obtain ⟨-, ⟨_, -, rfl⟩ | ⟨-, -, rfl⟩⟩ := borrow_cases h
  · exact Nat.max_comm ..
  · exact Nat.max_comm ..

/-- It does not come down when they come back. -/
theorem peak_release (h : p.release a = .ok q) : q.peak = p.peak := by
  obtain ⟨-, ⟨-, rfl⟩ | ⟨-, rfl⟩⟩ := release_cases h
  · rfl
  · rfl

/-! ### Counts of a pool -/

/-- One object more is out. -/
theorem active_borrow (h : p.borrow make = .ok (q, a)) :
    q.active = p.active + 1 := by
  have hstats := congrArg PoolStats.active (stats_borrow h)
  simpa [stats, PoolStats.borrow] using hstats

/-- One object less. -/
theorem active_release (h : p.release a = .ok q) : q.active = p.active - 1 := by
  have hstats := congrArg PoolStats.active (stats_release h)
  simpa [stats, PoolStats.release] using hstats

/-- Putting several back takes off as many. -/
theorem active_releaseAll {as : List α} (h : p.releaseAll as = .ok q) :
    q.active = p.active - as.length := by
  unfold releaseAll at h
  induction as generalizing p with
  | nil =>
    cases h
    simp
  | cons a rest ih =>
    obtain ⟨m, hm, hrest⟩ := Outcome.foldlM_cons_ok h
    have hone := active_release hm
    have hall := ih hrest
    simp only [List.length_cons]
    omega

/-! ### Pools that never stop -/

/-- A pool that holds only objects of a kind that is not in use hands out one of this kind. What is
handed out was idle or is made for the purpose, and both are of the kind. -/
theorem borrow_total (hP : ∀ a, P a → Poolable.isInitialized a = false)
    (hidle : ∀ a ∈ p.idle, P a) (make : Nat → α) (hmake : ∀ n, P (make n)) :
    ∃ p' a, p.borrow make = .ok (p', a) ∧ P a ∧ ∀ b ∈ p'.idle, P b := by
  have hidle' : ∀ {a}, P a → ¬ Poolable.isInitialized a = true := fun ha => by
    rw [hP _ ha]
    exact Bool.false_ne_true
  rw [borrow]
  cases hlist : p.idle with
  | nil =>
    exact ⟨⟨p.name, p.maxIdle, p.limit, [], p.active + 1, p.created + 1, max p.peak (p.active + 1)⟩,
      make p.created, if_neg (hidle' (hmake _)), hmake _, nofun⟩
  | cons a rest =>
    rw [hlist] at hidle
    obtain ⟨ha, hrest⟩ := List.forall_mem_cons.mp hidle
    exact ⟨⟨p.name, p.maxIdle, p.limit, rest, p.active + 1, p.created, max p.peak (p.active + 1)⟩,
      a, if_neg (hidle' ha), ha, hrest⟩

/-- A pool takes an object back that is of this kind once it is finished. -/
theorem release_total (hP : ∀ a, P a → Poolable.isInitialized a = false)
    (hfinish : ∀ a, P (Poolable.finish a)) (hidle : ∀ a ∈ p.idle, P a) (a : α) :
    ∃ p', p.release a = .ok p' ∧ ∀ b ∈ p'.idle, P b := by
  rw [release, hP _ (hfinish a)]
  refine ⟨_, rfl, ?_⟩
  dsimp only
  split
  · exact List.forall_mem_cons.mpr ⟨hfinish a, hidle⟩
  · exact hidle

/-- Any number of objects can be put back, if finishing puts an object out of use. -/
theorem releaseAll_total (hP : ∀ a, P a → Poolable.isInitialized a = false)
    (hfinish : ∀ a, P (Poolable.finish a)) (hidle : ∀ a ∈ p.idle, P a) (as : List α) :
    ∃ p', p.releaseAll as = .ok p' ∧ ∀ b ∈ p'.idle, P b := by
  rw [releaseAll]
  induction as generalizing p with
  | nil => exact ⟨p, rfl, hidle⟩
  | cons a as ih =>
    obtain ⟨p₁, hrelease, hidle₁⟩ := release_total hP hfinish hidle a
    rw [List.foldlM_cons, hrelease]
    exact ih hidle₁

/-! ### Numbers make no difference -/

/-- A pool without the numbers of its objects. -/
def forget (p : Pool (Numbered α)) : Pool α :=
  ⟨p.name, p.maxIdle, p.limit, p.idle.map Numbered.content, p.active, p.created, p.peak⟩

/-- A pool that does not know the numbers lends out the same objects. -/
theorem borrow_forget (p : Pool (Numbered α)) (make : Nat → α) :
    p.forget.borrow make
      = (p.borrow (.ofMake make)).map fun (q, a) => (q.forget, a.content) := by
  obtain ⟨name, maxIdle, limit, idle, active, created, peak⟩ := p
  cases idle with
  | nil =>
    show (if Poolable.isInitialized (make created) then _ else _) = Except.map _ (if _ then _ else _)
    rw [apply_ite (Except.map _)]
    rfl
  | cons b rest =>
    show (if Poolable.isInitialized b.content then _ else _) = Except.map _ (if _ then _ else _)
    rw [apply_ite (Except.map _)]
    rfl

/-- It takes them back in the same way. -/
theorem release_forget (p : Pool (Numbered α)) (a : Numbered α) :
    p.forget.release a.content = (p.release a).map forget := by
  rw [release, release, apply_ite (Except.map forget)]
  by_cases hroom : p.idle.length < p.maxIdle
  · simp [forget, hroom]
    rfl
  · simp [forget, hroom]
    rfl

/-! ### A pool beside what is out -/

/-- What is done with a pool and with objects that it handed out. Handles are counted from the
oldest that is live. -/
inductive Deal (α : Type) where
  | borrow
  | tryBorrow
  | change (handle : Nat) (f : α → α)
  | drop (handle : Nat)
  | clone

/-- A pool, the objects that are out, and what is remembered of those that were. -/
structure Loans (α : Type) where
  pool : Pool (Numbered α)
  /-- The objects of live handles, the one borrowed first first. -/
  held : List (Numbered α)
  /-- The objects that were handed out, as they were then. -/
  handed : List (Numbered α)
  /-- The numbers of the objects that came back and were not kept. -/
  discarded : List Nat

namespace Loans

/-- A pool that nothing has been borrowed from. -/
def opened (name : String) (maxIdle : Nat) (limit : Option Nat) : Loans α :=
  ⟨.new name maxIdle limit, [], [], []⟩

/-- A new handle on an object. -/
def handOut (l : Loans α) (pool : Pool (Numbered α)) (a : Numbered α) : Loans α :=
  { l with pool := pool, held := l.held ++ [a], handed := l.handed ++ [a] }

/-- The end of a handle. If the object is not idle by then, it is lost. -/
def takeBack (l : Loans α) (pool : Pool (Numbered α)) (i : Nat) (a : Numbered α) : Loans α :=
  { l with
    pool := pool
    held := l.held.eraseIdx i
    discarded :=
      if a.number ∈ pool.idle.map Numbered.number then l.discarded else l.discarded ++ [a.number] }

/-- One deal. A clone of a pool is the same pool, and a handle that is not live cannot be used. -/
def step (make : Nat → α) (l : Loans α) : Deal α → Except Fault (Loans α)
  | .borrow => do
    let (pool, a) ← l.pool.borrow (.ofMake make)
    pure (l.handOut pool a)
  | .tryBorrow => do
    match ← l.pool.tryBorrow (.ofMake make) with
    | .error _ => pure l
    | .ok (pool, a) => pure (l.handOut pool a)
  | .change i f => pure { l with held := l.held.modify i (.change f) }
  | .drop i =>
    match l.held[i]? with
    | none => pure l
    | some a => do
      let pool ← l.pool.release a
      pure (l.takeBack pool i a)
  | .clone => pure l

/-- Deals one after another. -/
def run (make : Nat → α) (l : Loans α) (deals : List (Deal α)) : Except Fault (Loans α) :=
  deals.foldlM (step make) l

/-- The accounts of a pool that was opened with a bound on idle objects and a limit. -/
structure Accounted (name : String) (maxIdle : Nat) (limit : Option Nat) (l : Loans α) : Prop where
  called : l.pool.name = name
  keeps : l.pool.maxIdle = maxIdle
  limited : l.pool.limit = limit
  /-- Every object that was made is out, idle or discarded, and once only. -/
  objects : ((l.held ++ l.pool.idle).map Numbered.number ++ l.discarded).Perm
    (List.range l.pool.created)
  active : l.pool.active = l.held.length
  peak : l.pool.active ≤ l.pool.peak
  room : l.pool.idle.length ≤ maxIdle
  resting : ∀ a ∈ l.pool.idle, Poolable.isInitialized a = false
  fresh : ∀ a ∈ l.handed, Poolable.isInitialized a = false
  /-- While no more objects were out than a pool keeps, none was discarded, and a new one was made
  only when more were out than ever before. -/
  reused : l.pool.peak ≤ maxIdle → l.discarded = [] ∧ l.pool.created = l.pool.peak

variable {name : String} {maxIdle : Nat} {limit : Option Nat} {l l' : Loans α}
  {pool : Pool (Numbered α)} {b : Numbered α} {i : Nat}

omit [Poolable α] in
/-- Working with an object that is out changes no number. -/
theorem numbers_modify (f : α → α) (as : List (Numbered α)) (i : Nat) :
    (as.modify i (.change f)).map Numbered.number = as.map Numbered.number := by
  refine List.ext_getElem? fun j => ?_
  rw [List.getElem?_map, List.getElem?_map, List.getElem?_modify]
  cases as[j]? with
  | none => rfl
  | some a => split <;> rfl

/-- The accounts of a pool that has just been opened are in order: nothing was made. -/
theorem accounted_opened : Accounted name maxIdle limit (opened name maxIdle limit : Loans α) where
  called := rfl
  keeps := rfl
  limited := rfl
  objects := .refl _
  active := rfl
  peak := Nat.le_refl 0
  room := Nat.zero_le _
  resting := nofun
  fresh := nofun
  reused _ := ⟨rfl, rfl⟩

namespace Accounted

/-- Every object that was made is out, idle or discarded, so that the counters add up. -/
theorem created_eq (h : l.Accounted name maxIdle limit) :
    l.pool.created = l.pool.active + l.pool.idle.length + l.discarded.length := by
  have hlength := h.objects.length_eq
  simp only [List.length_append, List.length_map, List.length_range] at hlength
  rw [h.active, hlength]

/-- No two objects that are out, idle or discarded are the same. -/
theorem nodup (h : l.Accounted name maxIdle limit) :
    ((l.held ++ l.pool.idle).map Numbered.number ++ l.discarded).Nodup :=
  h.objects.nodup_iff.mpr List.nodup_range

/-- Handing an object out keeps the accounts, be it an idle one or a new one. The delicate part is
how many were made: as many as the most that were out at once, as long as none was lost. -/
theorem handOut (h : l.Accounted name maxIdle limit)
    (hborrow : l.pool.borrow (.ofMake make) = .ok (pool, b)) :
    (l.handOut pool b).Accounted name maxIdle limit := by
  obtain ⟨hb, ⟨rest, hidle, rfl⟩ | ⟨hidle, rfl, rfl⟩⟩ := borrow_cases hborrow
  case inl =>
    have hcreated := h.created_eq
    have hroom := h.room
    have hresting := h.resting
    rw [hidle] at hcreated hroom hresting
    rw [List.length_cons] at hcreated hroom
    refine ⟨h.called, h.keeps, h.limited, ?_, ?_, Nat.le_max_right .., ?_, ?_, ?_,
      fun hpeak => ?_⟩
    · have hobjects := h.objects
      rw [hidle] at hobjects
      simpa [Loans.handOut] using hobjects
    · simp [Loans.handOut, h.active]
    · exact Nat.le_of_succ_le hroom
    · exact fun a ha => hresting a (List.mem_cons_of_mem b ha)
    · exact List.forall_mem_append.mpr ⟨h.fresh, List.forall_mem_singleton.mpr hb⟩
    · obtain ⟨hlost, hmade⟩ := h.reused ((Nat.le_max_left ..).trans hpeak)
      rw [hlost, List.length_nil] at hcreated
      refine ⟨hlost, ?_⟩
      -- An idle object was out when the most objects were, beside those that are out now.
      show l.pool.created = max l.pool.peak (l.pool.active + 1)
      omega
  case inr =>
    have hcreated := h.created_eq
    rw [hidle, List.length_nil] at hcreated
    refine ⟨h.called, h.keeps, h.limited, ?_, ?_, Nat.le_max_right .., h.room, h.resting, ?_,
      fun hpeak => ?_⟩
    · have hobjects := h.objects
      rw [hidle, List.append_nil] at hobjects
      simp only [Loans.handOut, hidle, List.append_nil, List.map_append, List.map_cons,
        List.map_nil, Numbered.number_ofMake, List.range_succ, List.append_assoc,
        List.singleton_append]
      exact (List.perm_middle.trans (hobjects.cons _)).trans (List.perm_append_singleton ..).symm
    · simp [Loans.handOut, h.active]
    · exact List.forall_mem_append.mpr ⟨h.fresh, List.forall_mem_singleton.mpr hb⟩
    · obtain ⟨hlost, hmade⟩ := h.reused ((Nat.le_max_left ..).trans hpeak)
      rw [hlost, List.length_nil] at hcreated
      refine ⟨hlost, ?_⟩
      show l.pool.created + 1 = max l.pool.peak (l.pool.active + 1)
      omega

/-- An object that comes back moves from the live handles to the idle objects, or to those that are
discarded. -/
theorem takeBack (h : l.Accounted name maxIdle limit) (hb : l.held[i]? = some b)
    (hrelease : l.pool.release b = .ok pool) :
    (l.takeBack pool i b).Accounted name maxIdle limit := by
  obtain ⟨hlt, rfl⟩ := List.getElem?_eq_some_iff.mp hb
  have hcreated := h.created_eq
  have hlength : (l.held.eraseIdx i).length = l.held.length - 1 := List.length_eraseIdx_of_lt hlt
  have hout : l.pool.active - 1 = (l.held.eraseIdx i).length := by rw [hlength, h.active]
  have hpeak : l.pool.active - 1 ≤ l.pool.peak := (Nat.sub_le ..).trans h.peak
  have hmoved : (l.held[i].number :: (l.held.eraseIdx i ++ l.pool.idle).map Numbered.number
      ++ l.discarded).Perm (List.range l.pool.created) := by
    refine List.Perm.trans (List.Perm.append_right _ ?_) h.objects
    exact ((List.getElem_cons_eraseIdx_perm hlt).append_right l.pool.idle).map Numbered.number
  obtain ⟨hrest, ⟨hroom, rfl⟩ | ⟨hfull, rfl⟩⟩ := release_cases hrelease
  -- There is room, and the object becomes idle.
  case inl =>
    have hkept : (l.takeBack { l.pool with
        idle := Poolable.finish l.held[i] :: l.pool.idle, active := l.pool.active - 1 } i
        l.held[i]).discarded = l.discarded := if_pos List.mem_cons_self
    refine ⟨h.called, h.keeps, h.limited, ?_, hout, hpeak, ?_, ?_, h.fresh, fun hpeak => ?_⟩
    · rw [hkept]
      refine List.Perm.trans (List.Perm.append_right _ ?_) hmoved
      simp [Loans.takeBack, List.perm_middle]
    · rw [h.keeps] at hroom
      exact hroom
    · exact List.forall_mem_cons.mpr ⟨hrest, h.resting⟩
    · rw [hkept]
      exact h.reused hpeak
  -- The pool keeps as many idle objects as it may, and this one is discarded. Its number is not
  -- among theirs.
  case inr =>
    have hnew : l.held[i].number ∉ l.pool.idle.map Numbered.number := by
      intro hmem
      have hdistinct := (List.nodup_append.mp h.nodup).1
      rw [List.map_append, List.nodup_append] at hdistinct
      exact hdistinct.2.2 _ (List.mem_map_of_mem (List.getElem_mem hlt)) _ hmem rfl
    have hlost : (l.takeBack { l.pool with active := l.pool.active - 1 } i l.held[i]).discarded
        = l.discarded ++ [l.held[i].number] := if_neg hnew
    refine ⟨h.called, h.keeps, h.limited, ?_, hout, hpeak, h.room, h.resting, h.fresh,
      fun hpeak => ?_⟩
    · rw [hlost]
      refine List.Perm.trans ?_ hmoved
      rw [← List.append_assoc]
      exact List.perm_append_singleton ..
    · -- Idle objects are as many as a pool keeps, and one was out besides.
      obtain ⟨hnone, hmade⟩ := h.reused hpeak
      have hpeak' : l.pool.peak ≤ maxIdle := hpeak
      rw [h.keeps] at hfull
      rw [hnone, h.active, hmade] at hcreated
      simp only [List.length_nil] at hcreated
      omega

/-- Working with an object that is out keeps the accounts. Objects are told apart by their numbers,
and working with one does not change its number. -/
theorem change (h : l.Accounted name maxIdle limit) (f : α → α) (i : Nat) :
    Accounted name maxIdle limit { l with held := l.held.modify i (.change f) } where
  called := h.called
  keeps := h.keeps
  limited := h.limited
  objects := by
    rw [List.map_append, numbers_modify, ← List.map_append]
    exact h.objects
  active := by
    rw [List.length_modify]
    exact h.active
  peak := h.peak
  room := h.room
  resting := h.resting
  fresh := h.fresh
  reused := h.reused

/-- Any deal can be done, and keeps the accounts. The two conditions are on the type of objects: new
ones and finished ones are not initialized, without which a pool would refuse its own objects. -/
theorem step (hmake : ∀ n, Poolable.isInitialized (make n) = false)
    (hfinish : ∀ a : α, Poolable.isInitialized (Poolable.finish a) = false)
    (h : l.Accounted name maxIdle limit) (deal : Deal α) :
    ∃ l', l.step make deal = .ok l' ∧ l'.Accounted name maxIdle limit
      ∧ l'.pool.peak = max l'.pool.active l.pool.peak := by
  have hsame : l.pool.peak = max l.pool.active l.pool.peak := (Nat.max_eq_right h.peak).symm
  -- One lemma for each deal. What is asked for and not given, and what is cloned without a look at
  -- the pool, changes nothing.
  cases deal with
  | borrow =>
    obtain ⟨pool, b, hborrow, -, -⟩ :=
      borrow_total (fun _ => id) h.resting (.ofMake make) fun n => hmake n
    refine ⟨l.handOut pool b, ?_, h.handOut hborrow, peak_borrow hborrow⟩
    rw [Loans.step, hborrow]
    rfl
  | tryBorrow =>
    obtain ⟨pool, b, hborrow, -, -⟩ :=
      borrow_total (fun _ => id) h.resting (.ofMake make) fun n => hmake n
    rcases tryBorrow_cases hborrow with ⟨e, htry⟩ | htry
    · refine ⟨l, ?_, h, hsame⟩
      rw [Loans.step, htry]
      rfl
    · refine ⟨l.handOut pool b, ?_, h.handOut hborrow, peak_borrow hborrow⟩
      rw [Loans.step, htry]
      rfl
  | change i f => exact ⟨_, rfl, h.change f i, hsame⟩
  | drop i =>
    cases hb : l.held[i]? with
    | none =>
      refine ⟨l, ?_, h, hsame⟩
      rw [Loans.step, hb]
      rfl
    | some b =>
      obtain ⟨pool, hrelease, -⟩ :=
        release_total (fun _ => id) (fun a => hfinish a.content) h.resting b
      have hback := h.takeBack hb hrelease
      refine ⟨l.takeBack pool i b, ?_, hback, ?_⟩
      · rw [Loans.step, hb]
        dsimp only
        rw [hrelease]
        rfl
      · have hpeak : (l.takeBack pool i b).pool.peak = l.pool.peak := peak_release hrelease
        rw [← hpeak]
        exact (Nat.max_eq_right hback.peak).symm
  | clone => exact ⟨l, rfl, h, hsame⟩

end Accounted

/-- How many objects were out at one time or another. -/
def Reached (make : Nat → α) (l : Loans α) (deals : List (Deal α)) : Set Nat :=
  { n | ∃ before l', before <+: deals ∧ l.run make before = .ok l' ∧ l'.pool.active = n }

/-- The last of the deals is made after the others. -/
theorem run_concat (deals : List (Deal α)) (deal : Deal α) :
    l.run make (deals ++ [deal]) = l.run make deals >>= fun l => l.step make deal := by
  simp only [run, List.foldlM_append, List.foldlM_cons, List.foldlM_nil, bind_pure]

/-- Without a deal only the number of objects out at the beginning was reached. -/
theorem reached_nil : l.Reached make [] = {l.pool.active} := by
  ext n
  simp only [Reached, List.prefix_nil, Set.mem_ofPred_eq, Set.mem_singleton_iff]
  refine ⟨?_, fun h => ⟨[], l, rfl, rfl, h.symm⟩⟩
  rintro ⟨_, l', rfl, hrun, rfl⟩
  cases hrun
  rfl

/-- One deal more reaches one number more, which may be one that was reached before. A prefix of the
longer list is the list itself or a prefix of the shorter. -/
theorem reached_concat {deals : List (Deal α)} {deal : Deal α}
    (h : l.run make (deals ++ [deal]) = .ok l') :
    l.Reached make (deals ++ [deal]) = insert l'.pool.active (l.Reached make deals) := by
  ext n
  simp only [Reached, List.prefix_concat_iff, Set.mem_ofPred_eq, Set.mem_insert_iff]
  constructor
  · rintro ⟨before, m, rfl | hbefore, hrun, rfl⟩
    · rw [h] at hrun
      cases hrun
      exact .inl rfl
    · exact .inr ⟨before, m, hbefore, hrun, rfl⟩
  · rintro (rfl | ⟨before, m, hbefore, hrun, rfl⟩)
    · exact ⟨_, l', .inl rfl, h, rfl⟩
    · exact ⟨before, m, .inr hbefore, hrun, rfl⟩

/-- Any deals can be done one after another. They keep the accounts, and the peak is the largest
number of objects that were out. The induction takes the last deal first. -/
theorem accounted_of_run (hmake : ∀ n, Poolable.isInitialized (make n) = false)
    (hfinish : ∀ a : α, Poolable.isInitialized (Poolable.finish a) = false)
    (deals : List (Deal α)) :
    ∃ l, (opened name maxIdle limit).run make deals = .ok l ∧ l.Accounted name maxIdle limit
      ∧ IsGreatest ((opened name maxIdle limit).Reached make deals) l.pool.peak := by
  induction deals using List.reverseRecOn with
  | nil =>
    refine ⟨_, rfl, accounted_opened, ?_⟩
    rw [reached_nil]
    exact isGreatest_singleton
  | append_singleton deals deal ih =>
    obtain ⟨l, hrun, haccounts, hgreatest⟩ := ih
    obtain ⟨l', hstep, haccounts', hpeak⟩ := haccounts.step hmake hfinish deal
    have hrun' : (opened name maxIdle limit).run make (deals ++ [deal]) = .ok l' := by
      rw [run_concat, hrun]
      exact hstep
    refine ⟨l', hrun', haccounts', ?_⟩
    rw [reached_concat hrun', hpeak]
    exact hgreatest.insert _

/-- The accounts of a pool balance. Where new objects and finished ones are not in use, any deals
with a pool can be done. No two objects that are out or idle are the same then; every object that
was made is out, idle or discarded; no more are idle than the pool keeps; the peak is the largest
number that was ever out; nothing is handed out exactly if the pool has a limit that is reached, and
this changes nothing; all that was handed out was not in use. If the pool keeps as many objects as
were ever out at once, it made no others. -/
theorem accounts_balance (hmake : ∀ n, Poolable.isInitialized (make n) = false)
    (hfinish : ∀ a : α, Poolable.isInitialized (Poolable.finish a) = false)
    (name : String) (maxIdle : Nat) (limit : Option Nat) (deals : List (Deal α)) :
    ∃ l, (opened name maxIdle limit).run make deals = .ok l
      ∧ ((l.held ++ l.pool.idle).map Numbered.number).Nodup
      ∧ ((l.held ++ l.pool.idle).map Numbered.number ++ l.discarded).Perm
          (List.range l.pool.created)
      ∧ l.pool.active = l.held.length
      ∧ l.pool.created = l.pool.active + l.pool.idle.length + l.discarded.length
      ∧ l.pool.idle.length ≤ maxIdle
      ∧ IsGreatest ((opened name maxIdle limit).Reached make deals) l.pool.peak
      ∧ (∀ e, l.pool.tryBorrow (.ofMake make) = .ok (.error e)
          ↔ ∃ most, limit = some most ∧ most ≤ l.pool.active ∧ e = ⟨name, l.pool.active, most⟩)
      ∧ (∀ e, l.pool.tryBorrow (.ofMake make) = .ok (.error e) → l.step make .tryBorrow = .ok l)
      ∧ (∀ a ∈ l.handed, Poolable.isInitialized a = false)
      ∧ (l.pool.peak ≤ maxIdle → l.pool.created = l.pool.peak) := by
  obtain ⟨l, hrun, h, hgreatest⟩ := accounted_of_run hmake hfinish deals
  -- All of this is part of the accounts but for the limit, which lending asks for when it comes to
  -- it.
  refine ⟨l, hrun, (List.nodup_append.mp h.nodup).1, h.objects, h.active, h.created_eq, h.room,
    hgreatest, fun e => ?_, fun e htry => ?_, h.fresh, fun hpeak => (h.reused hpeak).2⟩
  · rw [tryBorrow_eq_error_iff, h.called, h.limited]
  · rw [step, htry]
    rfl

/-- Two records are out and in use, one more is refused and lent all the same. The first two come
back, and one of them goes out again. -/
def dealings : List (Deal DependencyRecord) :=
  [.borrow, .tryBorrow, .change 0 fun _ => .fresh 3 7, .tryBorrow, .clone, .borrow, .drop 0, .drop 0,
    .tryBorrow]

/-- The pool keeps one idle record and allows two to be out. Three were out, so one is discarded. -/
theorem accounts_balance_dealings :
    ∃ l : Loans DependencyRecord, (opened "records" 1 (some 2)).run (fun _ => .new) dealings = .ok l
      ∧ l.held.map Numbered.number = [2, 0] ∧ l.discarded = [1] ∧ l.pool.active = 2
      ∧ l.pool.created = 3
      ∧ IsGreatest ((opened "records" 1 (some 2)).Reached (fun _ => .new) dealings) 3
      ∧ l.pool.tryBorrow (.ofMake fun _ => .new) = .ok (.error ⟨"records", 2, 2⟩)
      ∧ ∀ a ∈ l.handed, a.content.dependency = none := by
  have hmake : ∀ n : Nat, Poolable.isInitialized ((fun _ => DependencyRecord.new) n) = false :=
    fun _ => rfl
  have hfinish : ∀ a : DependencyRecord, Poolable.isInitialized (Poolable.finish a) = false :=
    fun _ => rfl
  have hresult : ((opened "records" 1 (some 2)).run (fun _ => .new) dealings).toOption.map
      (fun l => (l.held.map Numbered.number, l.discarded, l.pool.created, l.pool.peak))
        = some ([2, 0], [1], 3, 3) := by
    decide +kernel
  obtain ⟨l, hrun, -, -, hactive, -, -, hpeak, hrefused, -, hfresh, -⟩ :=
    accounts_balance hmake hfinish "records" 1 (some 2) dealings
  rw [hrun] at hresult
  obtain ⟨hheld, hlost, hcreated, htop⟩ : l.held.map Numbered.number = [2, 0]
      ∧ l.discarded = [1] ∧ l.pool.created = 3 ∧ l.pool.peak = 3 := by
    simpa [Except.toOption] using hresult
  -- Two objects are out, and that is as many as the limit allows.
  have hout : l.pool.active = 2 := by
    rw [hactive, ← List.length_map Numbered.number, hheld]
    rfl
  refine ⟨l, hrun, hheld, hlost, hout, hcreated, htop ▸ hpeak, ?_, fun a ha => ?_⟩
  · exact (hrefused _).mpr ⟨2, rfl, hout.ge, by rw [hout]⟩
  · exact Option.isNone_iff_eq_none.mp (Option.isSome_eq_false_iff.mp (hfresh a ha))

end Loans

end Pool

end TxnPath
