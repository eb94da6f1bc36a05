import Mathlib.Data.List.Forall2
import TxnPath.Proofs.Json.Scalars

/-!
# `TxnPath.Proofs.Json.Values`: values are read as they were written

Both layouts write lists and objects in one way: element by element, with commas between them, and
with blanks before and behind each that the layout decides on (`Json.joined`). What is written so is
read element by element if every element is (`readBracketed?_joined`). By induction every value that is
nested no deeper than the reader goes is read, in either layout, as the same value with its doubles
reread (`Rereads.spells_compact`, `Rereads.spells_indented`), and as itself if it holds whole numbers
only, of the size of words (`Json.Plain`).
-/

set_option autoImplicit false

namespace TxnPath.Json

variable {α : Type} {c : Char} {rest : List Char} {read : List Char → Option (α × List Char)}
  {write : List Char → List Char} {a : α}

/-! ### Blanks -/

/-- The compact layout writes no blanks. -/
theorem blank_nil : ∀ c ∈ ([] : List Char), isBlank c = true := nofun

/-- A space is a blank. -/
theorem blank_space : ∀ c ∈ [' '], isBlank c = true := List.forall_mem_singleton.mpr rfl

/-- Skipping stops at the first character that is not blank. -/
theorem skipBlanks_of_not_blank (h : isBlank c = false) : skipBlanks (c :: rest) = c :: rest :=
  List.dropWhile_cons_of_neg (by simp [h])

/-- Blanks that were written in front are skipped. -/
theorem skipBlanks_append {before : List Char} (h : ∀ c ∈ before, isBlank c = true)
    (rest : List Char) : skipBlanks (before ++ rest) = skipBlanks rest :=
  List.dropWhile_append_of_pos h

/-- What is written of a value begins with a character that is not blank. -/
theorem Spells.skipBlanks (h : Spells read write a) (rest : List Char) :
    skipBlanks (write rest) = write rest := by
  obtain ⟨c, tail, hcons, hblank, _⟩ := h.starts rest
  rw [hcons, skipBlanks_of_not_blank hblank]

/-- A blank ends a number. -/
theorem ends_of_blank (h : isBlank c = true) : Ends (c :: rest) := by
  simp only [isBlank, Bool.or_eq_true, decide_eq_true_eq] at h
  refine ends_cons ?_
  rcases h with ((rfl | rfl) | rfl) | rfl <;> decide

/-- A number may end in front of blanks, if it may end in front of what follows them. -/
theorem ends_append {after : List Char} (hafter : ∀ c ∈ after, isBlank c = true)
    (hrest : Ends rest) : Ends (after ++ rest) := by
  cases after with
  | nil => exact hrest
  | cons c after => exact ends_of_blank (hafter c List.mem_cons_self)

/-- An element is read together with the blanks around it. -/
theorem Spells.readSpaced? {before : List Char} (h : Spells read write a)
    (hbefore : ∀ c ∈ before, isBlank c = true) (hrest : Ends rest) :
    readSpaced? read (before ++ write rest) = some (a, Json.skipBlanks rest) := by
  rw [Json.readSpaced?, skipBlanks_append hbefore, h.skipBlanks, h.reads hrest]
  rfl

/-! ### Elements in a row -/

/-- Elements with commas between them, each with something before it, and with something behind the
last. -/
def joined (before after : List Char) : List (List Char → List Char) → List Char → List Char
  | [], rest => rest
  | [w], rest => before ++ w (after ++ rest)
  | w :: w' :: ws, rest => before ++ w (',' :: joined before after (w' :: ws) rest)

section Joined

variable {before after : List Char} {ws : List (List Char → List Char)} {as : List α} {close : Char}

/-- What is written of a list is at least as long as the list, so that a reader with that much fuel
comes to its end. -/
theorem length_joined (before after : List Char) (h : List.Forall₂ (Spells read) ws as)
    (rest : List Char) :
    ws.length + rest.length ≤ (joined before after ws rest).length := by
  induction h with
  | nil => simp [joined]
  | @cons w a ws as hw hws ih =>
    cases ws with
    | nil =>
      have hgrows := hw.grows (after ++ rest)
      simp only [joined, List.length_append, List.length_cons, List.length_nil] at hgrows ⊢
      omega
    | cons w' ws =>
      have hgrows := hw.grows (',' :: joined before after (w' :: ws) rest)
      simp only [joined, List.length_append, List.length_cons] at hgrows ih ⊢
      omega

/-- The brackets at which lists and objects end. -/
theorem ends_close (hclose : close = ']' ∨ close = '\x7d') : Ends (close :: rest) := by
  refine ends_cons ?_
  rcases hclose with rfl | rfl <;> decide

/-- A closing bracket is not skipped. -/
theorem skipBlanks_close (hclose : close = ']' ∨ close = '\x7d') :
    skipBlanks (close :: rest) = close :: rest := by
  refine skipBlanks_of_not_blank ?_
  rcases hclose with rfl | rfl <;> decide

/-- Elements in a row are read one by one up to the closing bracket. Between them there may be
blanks, in the same places each time; `sofar` are those read before, the last one first. -/
theorem readItems?_joined {fuel : Nat} (hbefore : ∀ c ∈ before, isBlank c = true)
    (hafter : ∀ c ∈ after, isBlank c = true) (hclose : close = ']' ∨ close = '\x7d')
    (h : List.Forall₂ (Spells read) ws as) (hne : ws ≠ []) (hfuel : ws.length ≤ fuel)
    (sofar : List α) (rest : List Char) :
    readItems? close read fuel sofar (joined before after ws (close :: rest))
      = some (sofar.reverse ++ as, rest) := by
  induction h generalizing fuel sofar with
  | nil => exact absurd rfl hne
  | @cons w a ws as hw hws ih =>
    rw [List.length_cons] at hfuel
    obtain ⟨fuel, rfl⟩ := Nat.exists_eq_succ_of_ne_zero (n := fuel) (by omega)
    -- Behind the last element stands the bracket, behind any other a comma.
    cases hws with
    | nil =>
      have hcomma : close ≠ ',' := by rcases hclose with rfl | rfl <;> decide
      rw [readItems?, joined, hw.readSpaced? hbefore (ends_append hafter (ends_close hclose)),
        skipBlanks_append hafter, skipBlanks_close hclose]
      dsimp only
      rw [if_neg hcomma, if_pos rfl, List.reverse_cons]
    | cons hw' hws =>
      have hskip : ∀ tail, skipBlanks (',' :: tail) = ',' :: tail := fun tail =>
        skipBlanks_of_not_blank rfl
      rw [readItems?, joined, hw.readSpaced? hbefore (ends_cons (by decide)), hskip]
      dsimp only
      rw [if_pos rfl, ih (List.cons_ne_nil _ _) (by omega), List.reverse_cons, List.append_assoc]
      rfl

/-- What stands in brackets is read element by element. An empty list ends at once, and otherwise
the first element is no bracket; then each is followed by a comma or the end. -/
theorem readBracketed?_joined (hbefore : ∀ c ∈ before, isBlank c = true)
    (hafter : ∀ c ∈ after, isBlank c = true) (hclose : close = ']' ∨ close = '\x7d')
    (h : List.Forall₂ (Spells read) ws as) (rest : List Char) :
    readBracketed? close read (joined before after ws (close :: rest)) = some (as, rest) := by
  have hlength := length_joined before after h (close :: rest)
  -- There is fuel enough, as every element takes up room in the text.
  have hitems : ws ≠ [] → readItems? close read
      ((joined before after ws (close :: rest)).length + 1) []
      (joined before after ws (close :: rest)) = some (as, rest) := fun hne =>
    readItems?_joined hbefore hafter hclose h hne (by omega) [] rest
  rw [readBracketed?]
  cases h with
  | nil =>
    rw [joined, skipBlanks_close hclose]
    exact if_pos rfl
  | @cons w a ws as hw hws =>
    obtain ⟨tail, htail⟩ : ∃ tail, joined before after (w :: ws) (close :: rest)
        = before ++ w tail := by
      cases ws with
      | nil => exact ⟨_, rfl⟩
      | cons => exact ⟨_, rfl⟩
    -- The first element cannot be taken for the bracket that would end an empty list.
    obtain ⟨c, after', hcons, hblank, hbracket, hbrace⟩ := hw.starts tail
    have hopen : c ≠ close := by rcases hclose with rfl | rfl <;> assumption
    have hskip : skipBlanks (joined before after (w :: ws) (close :: rest)) = c :: after' := by
      rw [htail, skipBlanks_append hbefore, hcons, skipBlanks_of_not_blank hblank]
    rw [hskip]
    dsimp only
    rw [if_neg hopen, hitems (List.cons_ne_nil _ _)]

end Joined

/-! ### Values -/

/-- A value that is nested at most so deep, and whose numbers are whole and fit words. -/
inductive Plain : Nat → Json → Prop
  | null (depth : Nat) : Plain depth .null
  | bool (depth : Nat) (b : Bool) : Plain depth (.bool b)
  | int (depth : Nat) {n : Int} : FitsWord n → Plain depth (.int n)
  | str (depth : Nat) (s : String) : Plain depth (.str s)
  | arr {depth : Nat} {items : List Json} : (∀ j ∈ items, Plain depth j) → Plain (depth + 1) (.arr items)
  | obj {depth : Nat} {fields : List (String × Json)} : (∀ f ∈ fields, Plain depth f.2) →
    Plain (depth + 1) (.obj fields)

/-- What a value that is nested at most so deep is read as when it has been written: its doubles as
`reread` says, and everything else as it was. -/
inductive Rereads : Nat → Json → Json → Prop
  | null (depth : Nat) : Rereads depth .null .null
  | bool (depth : Nat) (b : Bool) : Rereads depth (.bool b) (.bool b)
  | int (depth : Nat) {n : Int} : FitsWord n → Rereads depth (.int n) (.int n)
  | real (depth : Nat) {x y : Float} : reread x = some y → Rereads depth (.real x) (.real y)
  | str (depth : Nat) (s : String) : Rereads depth (.str s) (.str s)
  | arr {depth : Nat} {items : List (Json × Json)} : (∀ p ∈ items, Rereads depth p.1 p.2) →
    Rereads (depth + 1) (.arr (items.map fun p => p.1)) (.arr (items.map fun p => p.2))
  | obj {depth : Nat} {fields : List (String × Json × Json)} :
    (∀ f ∈ fields, Rereads depth f.2.1 f.2.2) →
    Rereads (depth + 1) (.obj (fields.map fun f => (f.1, f.2.1)))
      (.obj (fields.map fun f => (f.1, f.2.2)))

/-- A value whose numbers are whole has nothing that is reread as something else. Doubles are the
only values whose text may give another value back. -/
theorem Plain.rereads {depth : Nat} {j : Json} (h : Plain depth j) : Rereads depth j j := by
  induction h with
  | null depth => exact .null depth
  | bool depth b => exact .bool depth b
  | int depth hn => exact .int depth hn
  | str depth s => exact .str depth s
  | @arr depth items _ ih =>
    have hitems := @Rereads.arr depth (items.map fun j => (j, j)) (List.forall_mem_map.mpr ih)
    rw [List.map_map, List.map_map] at hitems
    have hself : items.map (fun j => j) = items := List.map_id items
    exact hself ▸ hitems
  | @obj depth fields _ ih =>
    have hfields := @Rereads.obj depth (fields.map fun f => (f.1, f.2, f.2))
      (List.forall_mem_map.mpr ih)
    rw [List.map_map, List.map_map] at hfields
    have hself : fields.map (fun f => (f.1, f.2)) = fields := List.map_id fields
    exact hself ▸ hfields

/-- A scalar is read as a value, at any depth. -/
theorem readValue?_of_readScalar? {input : List Char} {x : Json × List Char}
    (h : readScalar? input = some x) (depth : Nat) : readValue? depth input = some x := by
  cases depth with
  | zero => exact h
  | succ depth =>
    -- No scalar begins with a bracket or a brace.
    unfold readValue?
    split
    · cases h
    · cases h
    · exact h

/-- So what is written of a scalar spells a value. -/
theorem Spells.value {j : Json} (h : Spells readScalar? write j) (depth : Nat) :
    Spells (readValue? depth) write j where
  reads := fun hrest => readValue?_of_readScalar? (h.reads hrest) depth
  starts := h.starts
  grows := h.grows

/-- A name with its value, and with blanks before the value. The compact layout has no blanks there,
and the indented one has one. -/
theorem Spells.field {read : List Char → Option (Json × List Char)} {j : Json} {before : List Char}
    (h : Spells read write j) (hbefore : ∀ c ∈ before, isBlank c = true) (name : String) :
    Spells (readField? read) (fun rest => writeText name (':' :: (before ++ write rest)))
      (name, j) where
  reads := fun {rest} hrest => by
    have hcolon : Json.skipBlanks (':' :: (before ++ write rest)) = ':' :: (before ++ write rest) :=
      skipBlanks_of_not_blank rfl
    -- The name is read up to its closing quote, then the colon, then the blanks.
    rw [writeText_eq, readField?, readQuoted?_quoted]
    simp only [Option.bind_eq_bind, Option.bind_some]
    rw [hcolon]
    show (read (Json.skipBlanks (before ++ write rest))).map _ = _
    rw [skipBlanks_append hbefore, h.skipBlanks, h.reads hrest]
    rfl
  starts := fun rest => ⟨'"', _, writeText_eq name _, by decide, by decide, by decide⟩
  grows := fun rest => by
    have hgrows := h.grows rest
    have hquoted := length_quoted name.toList (':' :: (before ++ write rest))
    rw [writeText_eq]
    simp only [List.length_cons, List.length_append] at hquoted ⊢
    omega

section Brackets

variable {before after : List Char} {ws : List (List Char → List Char)} {depth : Nat}

/-- A list is spelled by its elements in brackets. -/
theorem spells_arr {items : List Json} (hbefore : ∀ c ∈ before, isBlank c = true)
    (hafter : ∀ c ∈ after, isBlank c = true)
    (h : List.Forall₂ (Spells (readValue? depth)) ws items) :
    Spells (readValue? (depth + 1)) (fun rest => '[' :: joined before after ws (']' :: rest))
      (.arr items) where
  reads := fun {rest} _ => by
    rw [readValue?, readBracketed?_joined hbefore hafter (.inl rfl) h]
    rfl
  starts := fun rest => ⟨'[', _, rfl, by decide, by decide, by decide⟩
  grows := fun rest => by
    have hlength := length_joined before after h (']' :: rest)
    simp only [List.length_cons] at hlength ⊢
    omega

/-- An object is spelled by its fields in braces. -/
theorem spells_obj {fields : List (String × Json)} (hbefore : ∀ c ∈ before, isBlank c = true)
    (hafter : ∀ c ∈ after, isBlank c = true)
    (h : List.Forall₂ (Spells (readField? (readValue? depth))) ws fields) :
    Spells (readValue? (depth + 1)) (fun rest => '\x7b' :: joined before after ws ('\x7d' :: rest))
      (.obj fields) where
  reads := fun {rest} _ => by
    rw [readValue?, readBracketed?_joined hbefore hafter (.inr rfl) h]
    rfl
  starts := fun rest => ⟨'\x7b', _, rfl, by decide, by decide, by decide⟩
  grows := fun rest => by
    have hlength := length_joined before after h ('\x7d' :: rest)
    simp only [List.length_cons] at hlength ⊢
    omega

end Brackets

/-! ### The compact layout -/

/-- The compact layout writes the elements of a list with nothing around them. -/
theorem writeItems_eq (items : List Json) (rest : List Char) :
    writeItems items rest = joined [] [] (items.map writeCompact) rest := by
  induction items with
  | nil => rfl
  | cons j items ih =>
    cases items with
    | nil => rfl
    | cons j' items =>
      rw [writeItems, ih]
      rfl

/-- A named value without blanks. -/
def writeField (f : String × Json) (rest : List Char) : List Char :=
  writeText f.1 (':' :: writeCompact f.2 rest)

/-- It writes the fields of an object in the same way. -/
theorem writeFields_eq (fields : List (String × Json)) (rest : List Char) :
    writeFields fields rest = joined [] [] (fields.map writeField) rest := by
  induction fields with
  | nil => rfl
  | cons f fields ih =>
    cases fields with
    | nil => rfl
    | cons f' fields =>
      rw [writeFields, ih]
      rfl

/-- What holds of the images of every element of a list holds of them place by place. -/
theorem forall₂_maps {β γ δ : Type} {P : γ → δ → Prop} {f : β → γ} {g : β → δ} {l : List β}
    (h : ∀ b ∈ l, P (f b) (g b)) : List.Forall₂ P (l.map f) (l.map g) :=
  List.forall₂_map_left_iff.mpr (List.forall₂_map_right_iff.mpr (List.forall₂_same.mpr h))

/-- Values without blanks are read with their doubles reread. The induction is over the value, which
goes along with the depth at which it is read. -/
theorem Rereads.spells_compact {depth : Nat} {j j' : Json} (h : Rereads depth j j') :
    Spells (readValue? depth) (writeCompact j) j' := by
  induction h with
  | null depth => exact spells_null.value depth
  | bool depth b =>
    cases b with
    | true => exact (spells_bool true).value depth
    | false => exact (spells_bool false).value depth
  | int depth hn => exact (spells_int hn).value depth
  | real depth hx => exact (spells_real hx).value depth
  | str depth s => exact (spells_text s).value depth
  -- The elements are written one after the other, and each of them is read one level deeper.
  | @arr depth items _ ih =>
    have hlist := spells_arr blank_nil blank_nil (forall₂_maps ih)
    have hwrite : writeCompact (.arr (items.map fun p => p.1)) = fun rest =>
        '[' :: joined [] [] (items.map fun p => writeCompact p.1) (']' :: rest) := by
      funext rest
      have hitems := writeItems_eq (items.map fun p => p.1) (']' :: rest)
      rw [List.map_map] at hitems
      exact congrArg ('[' :: ·) hitems
    rwa [hwrite]
  | @obj depth fields _ ih =>
    have hfields : ∀ f ∈ fields, Spells (readField? (readValue? depth)) (writeField (f.1, f.2.1))
        (f.1, f.2.2) := fun f hf => (ih f hf).field blank_nil f.1
    have hlist := spells_obj blank_nil blank_nil (forall₂_maps hfields)
    have hwrite : writeCompact (.obj (fields.map fun f => (f.1, f.2.1))) = fun rest =>
        '\x7b' :: joined [] [] (fields.map fun f => writeField (f.1, f.2.1)) ('\x7d' :: rest) := by
      funext rest
      have hfields := writeFields_eq (fields.map fun f => (f.1, f.2.1)) ('\x7d' :: rest)
      rw [List.map_map] at hfields
      exact congrArg ('\x7b' :: ·) hfields
    rwa [hwrite]

/-! ### The indented layout -/

/-- A new line is a number of blanks, whatever stands behind it. -/
theorem newline_eq (level : Nat) (rest : List Char) : newline level rest = newline level [] ++ rest := by
  rw [newline, newline, List.append_nil]
  rfl

/-- And nothing else. -/
theorem blank_newline (level : Nat) : ∀ c ∈ newline level [], isBlank c = true := by
  intro c hc
  rw [newline, List.append_nil, List.mem_cons] at hc
  rcases hc with rfl | hc
  · rfl
  · rw [List.eq_of_mem_replicate hc]
    rfl

/-- The indented layout writes the elements of a list with a new line in front of each. -/
theorem writeItemLines_eq (inner outer : Nat) {items : List Json} (hne : items ≠ [])
    (rest : List Char) :
    writeItemLines inner items (newline outer rest)
      = joined (newline inner []) (newline outer []) (items.map (writeIndented inner)) rest := by
  induction items with
  | nil => exact absurd rfl hne
  | cons j items ih =>
    cases items with
    | nil =>
      rw [writeItemLines, newline_eq inner, newline_eq outer]
      rfl
    | cons j' items =>
      rw [writeItemLines, newline_eq inner, ih (List.cons_ne_nil _ _)]
      rfl

/-- A named value in the indented layout. -/
def writeFieldLine (level : Nat) (f : String × Json) (rest : List Char) : List Char :=
  writeText f.1 (':' :: ' ' :: writeIndented level f.2 rest)

/-- It writes the fields of an object in the same way. -/
theorem writeFieldLines_eq (inner outer : Nat) {fields : List (String × Json)} (hne : fields ≠ [])
    (rest : List Char) :
    writeFieldLines inner fields (newline outer rest)
      = joined (newline inner []) (newline outer []) (fields.map (writeFieldLine inner)) rest := by
  induction fields with
  | nil => exact absurd rfl hne
  | cons f fields ih =>
    cases fields with
    | nil =>
      rw [writeFieldLines, newline_eq inner, newline_eq outer]
      rfl
    | cons f' fields =>
      rw [writeFieldLines, newline_eq inner, ih (List.cons_ne_nil _ _)]
      rfl

/-- Values on lines of their own are read with their doubles reread. As for compact values, with the
blanks of a line break around each element; only empty lists and objects are written without. -/
theorem Rereads.spells_indented {depth : Nat} {j j' : Json} (h : Rereads depth j j') (level : Nat) :
    Spells (readValue? depth) (writeIndented level j) j' := by
  induction h generalizing level with
  | null depth => exact spells_null.value depth
  | bool depth b =>
    cases b with
    | true => exact (spells_bool true).value depth
    | false => exact (spells_bool false).value depth
  | int depth hn => exact (spells_int hn).value depth
  | real depth hx => exact (spells_real hx).value depth
  | str depth s => exact (spells_text s).value depth
  | @arr depth items _ ih =>
    have hlist := spells_arr (blank_newline (level + 1)) (blank_newline level)
      (forall₂_maps fun p hp => ih p hp (level + 1))
    have hwrite : writeIndented level (.arr (items.map fun p => p.1)) = fun rest =>
        '[' :: joined (newline (level + 1) []) (newline level [])
          (items.map fun p => writeIndented (level + 1) p.1) (']' :: rest) := by
      -- An empty list is written without a line break.
      funext rest
      cases items with
      | nil => rfl
      | cons p items =>
        have hitems := writeItemLines_eq (level + 1) level
          (List.cons_ne_nil p.1 (items.map fun p => p.1)) (']' :: rest)
        rw [List.map_cons, List.map_map] at hitems
        exact congrArg ('[' :: ·) hitems
    rwa [hwrite]
  | @obj depth fields _ ih =>
    have hfields : ∀ f ∈ fields, Spells (readField? (readValue? depth))
        (writeFieldLine (level + 1) (f.1, f.2.1)) (f.1, f.2.2) := fun f hf =>
      (ih f hf (level + 1)).field blank_space f.1
    have hlist := spells_obj (blank_newline (level + 1)) (blank_newline level)
      (forall₂_maps hfields)
    have hwrite : writeIndented level (.obj (fields.map fun f => (f.1, f.2.1))) = fun rest =>
        '\x7b' :: joined (newline (level + 1) []) (newline level [])
          (fields.map fun f => writeFieldLine (level + 1) (f.1, f.2.1)) ('\x7d' :: rest) := by
      funext rest
      cases fields with
      | nil => rfl
      | cons f fields =>
        have hfields := writeFieldLines_eq (level + 1) level
          (List.cons_ne_nil (f.1, f.2.1) (fields.map fun f => (f.1, f.2.1))) ('\x7d' :: rest)
        rw [List.map_cons, List.map_map] at hfields
        exact congrArg ('\x7b' :: ·) hfields
    rwa [hwrite]

/-! ### Whole texts -/

/-- A text that spells a value is read as this value. -/
theorem Spells.parse? {j : Json} (h : Spells (readValue? depthLimit) write j) :
    Json.parse? (String.ofList (write [])) = some j := by
  have hread := h.readSpaced? blank_nil ends_nil
  rw [List.nil_append] at hread
  rw [Json.parse?, String.toList_ofList, hread]
  rfl

/-- The compact text of a value is read as the value with its doubles reread. -/
theorem Rereads.parse?_compact {j j' : Json} (h : Rereads depthLimit j j') :
    parse? j.compact = some j' := h.spells_compact.parse?

/-- So is its indented text. -/
theorem Rereads.parse?_indented {j j' : Json} (h : Rereads depthLimit j j') :
    parse? j.indented = some j' := (h.spells_indented 0).parse?

/-- A plain value has no doubles, and is read as itself. -/
theorem Plain.parse?_compact {j : Json} (h : Plain depthLimit j) : parse? j.compact = some j :=
  h.rereads.parse?_compact

/-- And so it is from its indented text. -/
theorem Plain.parse?_indented {j : Json} (h : Plain depthLimit j) : parse? j.indented = some j :=
  h.rereads.parse?_indented

/-- No two values have the same compact text. -/
theorem Plain.compact_inj {j j' : Json} (h : Plain depthLimit j) (h' : Plain depthLimit j')
    (heq : j.compact = j'.compact) : j = j' :=
  Option.some.inj (h.parse?_compact.symm.trans (heq ▸ h'.parse?_compact))

end TxnPath.Json
