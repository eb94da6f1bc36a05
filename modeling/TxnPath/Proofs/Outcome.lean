import TxnPath.Fault

/-!
# `TxnPath.Proofs.Outcome`: taking results apart

Operations give a result or stop with a fault. A chain of operations that gives a result
did so at every link: these are the inversions by which proofs take chains apart. Two chains agree
that agree at every link (`Agree`). Where the two run on states of different types, and with errors
other than faults, they come out alike (`Alike`).
-/

set_option autoImplicit false

namespace TxnPath.Outcome

variable {α β : Type} {x : Except Fault α} {f : Fault}

/-- What is mapped gives a result if it does so itself. -/
theorem map_ok {g : α → β} {b : β} (h : x.map g = .ok b) : ∃ a, x = .ok a ∧ g a = b := by
  cases x with
  | error f => cases h
  | ok a => exact ⟨a, rfl, Except.ok.inj h⟩

/-- And it stops with the fault that it stops with itself. -/
theorem map_error {g : α → β} (h : x.map g = .error f) : x = .error f := by
  cases x with
  | error f' => exact congrArg Except.error (Except.error.inj h)
  | ok a => cases h

/-- A result that is there is a result. -/
theorem of_toOption {ε : Type} {y : Except ε α} {a : α} (h : y.toOption = some a) : y = .ok a := by
  cases y with
  | error e => cases h
  | ok b => exact congrArg _ (Option.some.inj h)

/-- A chain gives a result if both of its links do, the second one from what the first one gave. -/
theorem bind_ok {g : α → Except Fault β} {b : β} (h : x >>= g = .ok b) :
    ∃ a, x = .ok a ∧ g a = .ok b := by
  cases x with
  | error f => cases h
  | ok a => exact ⟨a, rfl, h⟩

/-- A chain goes on with the result of its first link. -/
theorem bind_of_ok {g : α → Except Fault β} {a : α} (h : x = .ok a) : x >>= g = g a := by
  rw [h]
  rfl

/-- It stops at the first link, or at the second one with what the first one gave. -/
theorem bind_error {g : α → Except Fault β} (h : x >>= g = .error f) :
    x = .error f ∨ ∃ a, x = .ok a ∧ g a = .error f := by
  cases x with
  | error f' => exact .inl (congrArg Except.error (Except.error.inj h))
  | ok a => exact .inr ⟨a, rfl, h⟩

/-- A guarded operation that stops does so with the fault of its guard. -/
theorem guard_error {P : Prop} [Decidable P] {a : α} {g : Fault}
    (h : (if P then .ok a else .error g : Except Fault α) = .error f) : f = g := by
  split at h
  · cases h
  · exact (Except.error.inj h).symm

/-- A run over a list that is not empty is one step and a run over the rest. -/
theorem foldlM_cons_ok {g : β → α → Except Fault β} {b b' : β} {a : α} {l : List α}
    (h : (a :: l).foldlM g b = .ok b') : ∃ m, g b a = .ok m ∧ l.foldlM g m = .ok b' := by
  rw [List.foldlM_cons] at h
  exact bind_ok h

/-- A loop stops in its first turn, or in one of the others. -/
theorem foldlM_cons_error {g : β → α → Except Fault β} {b : β} {a : α} {l : List α}
    (h : (a :: l).foldlM g b = .error f) :
    g b a = .error f ∨ ∃ m, g b a = .ok m ∧ l.foldlM g m = .error f := by
  rw [List.foldlM_cons] at h
  exact bind_error h

/-- A run over a list that is not empty gives a result if its first step does, and the run over the
rest from there. This holds of errors of any type. -/
theorem foldlM_cons_iff {ε : Type} {g : β → α → Except ε β} {b b' : β} {a : α} {l : List α} :
    (a :: l).foldlM g b = .ok b' ↔ ∃ m, g b a = .ok m ∧ l.foldlM g m = .ok b' := by
  rw [List.foldlM_cons]
  cases g b a with
  | error e => exact ⟨nofun, nofun⟩
  | ok m => exact ⟨fun h => ⟨m, rfl, h⟩, fun ⟨_, hm, h⟩ => Except.ok.inj hm ▸ h⟩

/-- What every step of a run keeps, the run keeps. -/
theorem foldlM_rel (rel : β → β → Prop) (hrefl : ∀ b, rel b b)
    (htrans : ∀ {b b' b''}, rel b b' → rel b' b'' → rel b b'') {g : β → α → Except Fault β}
    (hstep : ∀ {b a b'}, g b a = .ok b' → rel b b') {b b' : β} {l : List α}
    (h : l.foldlM g b = .ok b') : rel b b' := by
  induction l generalizing b with
  | nil => cases h; exact hrefl _
  | cons a rest ih =>
    obtain ⟨m, hm, hrest⟩ := foldlM_cons_ok h
    exact htrans (hstep hm) (ih hrest)

/-- A list of operations that all have to give a result stops where one of them does. -/
theorem mapM_error {g : α → Except Fault β} {l : List α} (h : l.mapM g = .error f) :
    ∃ a ∈ l, g a = .error f := by
  induction l with
  | nil => cases h
  | cons a rest ih =>
    rw [List.mapM_cons] at h
    rcases bind_error h with ha | ⟨b, _, hrest⟩
    · exact ⟨a, List.mem_cons_self, ha⟩
    · rcases bind_error hrest with hrest | ⟨_, _, hpure⟩
      · obtain ⟨a', hmem, ha'⟩ := ih hrest
        exact ⟨a', List.mem_cons_of_mem _ hmem, ha'⟩
      · cases hpure

/-- A list of operations that all give a result gives the list of their results. -/
theorem mapM_eq_ok {g : α → Except Fault β} {k : α → β} {l : List α}
    (h : ∀ a ∈ l, g a = .ok (k a)) : l.mapM g = .ok (l.map k) := by
  induction l with
  | nil => rfl
  | cons a rest ih =>
    obtain ⟨ha, hrest⟩ := List.forall_mem_cons.mp h
    rw [List.mapM_cons, ha, ih hrest]
    rfl

/-- The results of a list of operations stand at the places of the operations. -/
theorem mapM_ok {g : α → Except Fault β} {l : List α} {bs : List β} (h : l.mapM g = .ok bs)
    {i : Nat} {b : β} (hb : bs[i]? = some b) : ∃ a, l[i]? = some a ∧ g a = .ok b := by
  induction l generalizing bs i with
  | nil => cases h; cases hb
  | cons a rest ih =>
    rw [List.mapM_cons] at h
    obtain ⟨c, hc, h⟩ := bind_ok h
    obtain ⟨cs, hcs, h⟩ := bind_ok h
    cases h
    cases i with
    | zero => cases hb; exact ⟨a, rfl, hc⟩
    | succ i => exact ih hcs hb

/-- A list is mapped to one as long. -/
theorem length_mapM {g : α → Except Fault β} {l : List α} {bs : List β}
    (h : l.mapM g = .ok bs) : bs.length = l.length := by
  induction l generalizing bs with
  | nil => cases h; rfl
  | cons a rest ih =>
    rw [List.mapM_cons] at h
    obtain ⟨c, _, h⟩ := bind_ok h
    obtain ⟨cs, hcs, h⟩ := bind_ok h
    cases h
    exact congrArg (· + 1) (ih hcs)

/-! ### Two runs side by side -/

/-- Two operations agree: they stop with the same fault, or give the same result beside states that
are related. -/
inductive Agree {σ : Type} (rel : σ → σ → Prop) :
    Except Fault (σ × α) → Except Fault (σ × α) → Prop
  | error (f : Fault) : Agree rel (.error f) (.error f)
  | ok {s s' : σ} (h : rel s s') (a : α) : Agree rel (.ok (s, a)) (.ok (s', a))

section Agree

variable {σ : Type} {rel : σ → σ → Prop} {y z : Except Fault (σ × α)} {s : σ} {a : α}

/-- Operations agree if they go on in the same way after operations that agree. -/
theorem Agree.bind {τ : Type} {rel' : τ → τ → Prop} {k l : σ × α → Except Fault (τ × β)}
    (h : Agree rel y z) (hkl : ∀ {s s'} a, rel s s' → Agree rel' (k (s, a)) (l (s', a))) :
    Agree rel' (y >>= k) (z >>= l) := by
  cases h with
  | error f => exact .error f
  | ok hs a => exact hkl a hs

/-- What is related in one way is related in another. -/
theorem Agree.mono {rel' : σ → σ → Prop} (h : Agree rel y z)
    (hrel : ∀ {s s'}, rel s s' → rel' s s') : Agree rel' y z := by
  cases h with
  | error f => exact .error f
  | ok hs a => exact .ok (hrel hs) a

/-- If two chains agree and the first one gives a result, then so does the second, with related
states. -/
theorem Agree.ok_right (h : Agree rel y z) (hy : y = .ok (s, a)) :
    ∃ s', z = .ok (s', a) ∧ rel s s' := by
  cases h with
  | error f => cases hy
  | ok hs a => cases hy; exact ⟨_, rfl, hs⟩

/-- And the other way round. -/
theorem Agree.ok_left (h : Agree rel y z) (hz : z = .ok (s, a)) :
    ∃ s', y = .ok (s', a) ∧ rel s' s := by
  cases h with
  | error f => cases hz
  | ok hs a => cases hz; exact ⟨_, rfl, hs⟩

end Agree

/-- Two operations on different states come out alike: they stop with the same error, or give results
that are related. -/
inductive Alike {ε σ τ : Type} (rel : σ → τ → Prop) : Except ε σ → Except ε τ → Prop
  | error (e : ε) : Alike rel (.error e) (.error e)
  | ok {a : σ} {b : τ} (h : rel a b) : Alike rel (.ok a) (.ok b)

section Alike

variable {ε σ τ σ' τ' : Type} {rel : σ → τ → Prop} {rel' : σ' → τ' → Prop} {y : Except ε σ}
  {z : Except ε τ}

/-- Chains come out alike if their first links do, and then the rest from related results. The rest
may use what the second chain has come to, of which more may be known than the relation says. -/
theorem Alike.bind {k : σ → Except ε σ'} {l : τ → Except ε τ'} (h : Alike rel y z)
    (hkl : ∀ {a b}, z = .ok b → rel a b → Alike rel' (k a) (l b)) :
    Alike rel' (y >>= k) (z >>= l) := by
  cases h with
  | error e => exact .error e
  | ok hab => exact hkl rfl hab

/-- Two chains that come out alike still do when their results are mapped alike. -/
theorem Alike.map {k : σ → σ'} {l : τ → τ'} (h : Alike rel y z)
    (hkl : ∀ {a b}, rel a b → rel' (k a) (l b)) : Alike rel' (y.map k) (z.map l) := by
  cases h with
  | error e => exact .error e
  | ok hab => exact .ok (hkl hab)

/-- Runs over one list come out alike whose steps do. -/
theorem Alike.foldlM {α : Type} {k : σ → α → Except ε σ} {l : τ → α → Except ε τ}
    (hstep : ∀ {a b} i, rel a b → Alike rel (k a i) (l b i)) (is : List α) {a : σ} {b : τ}
    (h : rel a b) : Alike rel (is.foldlM k a) (is.foldlM l b) := by
  induction is generalizing a b with
  | nil => exact .ok h
  | cons i is ih =>
    rw [List.foldlM_cons, List.foldlM_cons]
    exact (hstep i h).bind fun _ h => ih h

/-- The second result is read off the first where the relation says how. -/
theorem Alike.map_eq {k : σ → τ} (h : Alike rel y z) (hk : ∀ {a b}, rel a b → k a = b) :
    y.map k = z := by
  cases h with
  | error e => rfl
  | ok hab => exact congrArg Except.ok (hk hab)

/-- If two chains come out alike and the first one gives a result, then so does the second, and the
results are related. -/
theorem Alike.ok_left {a : σ} (h : Alike rel y z) (hy : y = .ok a) : ∃ b, z = .ok b ∧ rel a b := by
  cases h with
  | error e => cases hy
  | ok hab => cases hy; exact ⟨_, rfl, hab⟩

/-- And the other way round. -/
theorem Alike.ok_right {b : τ} (h : Alike rel y z) (hz : z = .ok b) : ∃ a, y = .ok a ∧ rel a b := by
  cases h with
  | error e => cases hz
  | ok hab => cases hz; exact ⟨_, rfl, hab⟩

end Alike

end TxnPath.Outcome
