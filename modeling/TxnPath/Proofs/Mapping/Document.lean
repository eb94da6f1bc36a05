import TxnPath.Codec.Mapping
import TxnPath.Proofs.Json.Record
import TxnPath.Proofs.Mapping.Filing
import TxnPath.Proofs.Mapping.TrialOrder

/-!
# `TxnPath.Proofs.Mapping.Document`: tables of correlations and their JSON

A table is written as its list, so mappings of one parameter stay in recorded order
(`MappingTable.filter_toList`). What is read of the text is the table whose coefficients are reread
(`MappingTable.ofText?_text`), and so the same table just if every coefficient is read as it was
written. Not all are: `neighbours` has two that are told apart before and not after.
-/

set_option autoImplicit false

namespace TxnPath

open Json (Rereads halfWord?_nat word?_nat plain_nat plain_half)
open Json.Record (required_of_lookup withDefault_of_lookup)

namespace Mapping

/-- The numbers of a mapping have the sizes of their types. -/
structure Fits (m : Mapping Float) : Prop where
  procedure : m.procedure < halfWordLimit
  statement : m.statement < halfWordLimit
  occurrence : m.occurrence < halfWordLimit
  slot : m.slot < wordLimit
  argument : m.argument < wordLimit
  element : ∀ i ∈ m.element, i < wordLimit

instance (m : Mapping Float) : Decidable m.Fits :=
  decidable_of_iff (m.procedure < halfWordLimit ∧ m.statement < halfWordLimit
      ∧ m.occurrence < halfWordLimit ∧ m.slot < wordLimit ∧ m.argument < wordLimit
      ∧ ∀ i ∈ m.element, i < wordLimit)
    ⟨fun ⟨hp, hs, ho, hslot, ha, he⟩ => ⟨hp, hs, ho, hslot, ha, he⟩,
      fun ⟨hp, hs, ho, hslot, ha, he⟩ => ⟨hp, hs, ho, hslot, ha, he⟩⟩

/-- A mapping with another coefficient. -/
def recast (back : Float → Float) (m : Mapping Float) : Mapping Float :=
  { m with coefficient := back m.coefficient }

variable {m : Mapping Float}

/-- The size of its numbers has nothing to do with the coefficient of a mapping. -/
theorem Fits.recast (h : m.Fits) (back : Float → Float) : (m.recast back).Fits :=
  ⟨h.procedure, h.statement, h.occurrence, h.slot, h.argument, h.element⟩

/-- A mapping is read as it was written. The seven fields are looked up in what was written, where
the element that is not named is written as null. -/
theorem ofJson?_toJson (h : m.Fits) : ofJson? m.toJson = some m := by
  have helement : Json.nullable? Json.word? (.option .nat m.element) = some m.element := by
    cases he : m.element with
    | none => rfl
    | some i =>
      show (Json.word? (.nat i)).map some = some (some i)
      rw [word?_nat (h.element i he), Option.map_some]
  obtain ⟨r, hr, hp, hs, ho, hslot, ha, he, hc⟩ : ∃ r,
      m.toJson.record?
          ["proc", "stmt", "instance", "stmt_param", "proc_param", "proc_param_index", "coefficient"]
        = some r
      ∧ r.required "proc" Json.halfWord? = some m.procedure
      ∧ r.required "stmt" Json.halfWord? = some m.statement
      ∧ r.withDefault "instance" Json.halfWord? 0 = some m.occurrence
      ∧ r.required "stmt_param" Json.word? = some m.slot
      ∧ r.required "proc_param" Json.word? = some m.argument
      ∧ r.withDefault "proc_param_index" (Json.nullable? Json.word?) none = some m.element
      ∧ r.withDefault "coefficient" Json.real? 1.0 = some m.coefficient :=
    ⟨_, rfl, required_of_lookup rfl (halfWord?_nat h.procedure),
      required_of_lookup rfl (halfWord?_nat h.statement),
      withDefault_of_lookup rfl (halfWord?_nat h.occurrence),
      required_of_lookup rfl (word?_nat h.slot), required_of_lookup rfl (word?_nat h.argument),
      withDefault_of_lookup rfl helement, withDefault_of_lookup rfl rfl⟩
  -- From here on the text does not matter, only what each field is read as.
  generalize m.toJson = j at hr
  rw [ofJson?, hr]
  simp only [Option.bind_eq_bind, Option.bind_some, hp, hs, ho, hslot, ha, he, hc]
  rfl

/-- In text a mapping is reread with its coefficient, the only number of it that is not whole. -/
theorem rereads_toJson (h : m.Fits) {back : Float → Float} (depth : Nat)
    (hback : Json.reread m.coefficient = some (back m.coefficient)) :
    Rereads (depth + 1) m.toJson (m.recast back).toJson := by
  have helement : Rereads depth (.option .nat m.element) (.option .nat m.element) := by
    cases he : m.element with
    | none => exact .null depth
    | some i => exact (plain_nat depth (h.element i he)).rereads
  refine @Rereads.obj depth [("proc", .nat m.procedure, .nat m.procedure),
    ("stmt", .nat m.statement, .nat m.statement),
    ("instance", .nat m.occurrence, .nat m.occurrence), ("stmt_param", .nat m.slot, .nat m.slot),
    ("proc_param", .nat m.argument, .nat m.argument),
    ("proc_param_index", .option .nat m.element, .option .nat m.element),
    ("coefficient", .real m.coefficient, .real (back m.coefficient))] ?_
  simp only [List.forall_mem_cons]
  exact ⟨(plain_half _ h.procedure).rereads, (plain_half _ h.statement).rereads,
    (plain_half _ h.occurrence).rereads, (plain_nat _ h.slot).rereads,
    (plain_nat _ h.argument).rereads, helement, .real _ hback, nofun⟩

end Mapping

namespace MappingTable

variable {ms : List (Mapping Float)} {back : Float → Float}

/-- Reads a table from a text. -/
def ofText? (text : String) : Option (MappingTable Float) := (Json.parse? text).bind ofJson?

/-- A mapping names the same parameter whatever its coefficient is. -/
theorem filter_recast (k : MappingKey) (slot : Nat) :
    (ms.map (Mapping.recast back)).filter (Mapping.names k slot)
      = (ms.filter (Mapping.names k slot)).map (Mapping.recast back) := List.filter_map

/-- A table is read from its text with every coefficient reread. This holds of both layouts, and
whatever rereading does to the coefficients; the order among equal keys is kept. -/
theorem ofText?_text (hfits : ∀ m ∈ ms, m.Fits)
    (hback : ∀ m ∈ ms, Json.reread m.coefficient = some (back m.coefficient)) {text : String}
    (htext : text ∈ [(ofList ms).toJson.compact, (ofList ms).toJson.indented]) :
    ofText? text = some (ofList (ms.map (Mapping.recast back))) := by
  have hmem : ∀ m ∈ (ofList ms).toList, m ∈ ms := fun m hm => (toList_perm ms).mem_iff.mp hm
  have hreads : Rereads Json.depthLimit (ofList ms).toJson
      (.list Mapping.toJson ((ofList ms).toList.map (Mapping.recast back))) := by
    rw [Json.list, List.map_map]
    exact Json.rereads_list fun m hm =>
      Mapping.rereads_toJson (hfits m (hmem m hm)) 125 (hback m (hmem m hm))
  have hparse : Json.parse? text
      = some (.list Mapping.toJson ((ofList ms).toList.map (Mapping.recast back))) := by
    rcases List.mem_pair.mp htext with rfl | rfl
    · exact hreads.parse?_compact
    · exact hreads.parse?_indented
  have hdecode : ∀ m ∈ (ofList ms).toList.map (Mapping.recast back),
      Mapping.ofJson? m.toJson = some m := List.forall_mem_map.mpr fun m hm =>
    Mapping.ofJson?_toJson ((hfits m (hmem m hm)).recast back)
  rw [ofText?, hparse, Option.bind_some, ofJson?, Json.list?_list hdecode, Option.map_some]
  -- It does not matter in which order mappings of different parameters are filed.
  refine congrArg some (ofList_eq_iff.mpr fun k slot => ?_)
  rw [filter_recast, filter_recast, filter_toList_ofList]

/-- The coefficients are all that can change. -/
theorem candidates_recast (procedure : ProcedureId) (statement : StatementId)
    (occurrence slot : Nat) :
    (ofList (ms.map (Mapping.recast back))).candidates procedure statement occurrence slot
      = ((ofList ms).candidates procedure statement occurrence slot).map (Mapping.recast back) := by
  rw [candidates_ofList, candidates_ofList, filter_recast]

/-- Two lists of mappings that differ in coefficients only give the same table just if they are the
same. -/
theorem ofList_recast_eq_iff : ofList (ms.map (Mapping.recast back)) = ofList ms
    ↔ ∀ m ∈ ms, back m.coefficient = m.coefficient := by
  have hsame : ∀ m : Mapping Float, m.recast back = m ↔ back m.coefficient = m.coefficient := by
    intro m
    cases m
    simp [Mapping.recast]
  have hall : ∀ l : List (Mapping Float),
      l.map (Mapping.recast back) = l ↔ ∀ m ∈ l, m.recast back = m := fun l => by
    conv_lhs => rhs; rw [← List.map_id l]
    exact List.map_inj_left
  constructor
  · -- A table says nothing about the order of parameters, so the lists are compared one parameter at
    -- a time.
    intro h m hm
    have hfilter : (ms.filter (Mapping.names m.key m.slot)).map (Mapping.recast back)
        = ms.filter (Mapping.names m.key m.slot) := by
      rw [← filter_recast]
      exact ofList_eq_iff.mp h m.key m.slot
    exact (hsame m).mp ((hall _).mp hfilter m (List.mem_filter.mpr ⟨hm, m.names_self⟩))
  · intro h
    rw [(hall ms).mpr fun m hm => (hsame m).mpr (h m hm)]

/-- Filing correlations with finite coefficients and listing them gives them by key and parameter, both
ascending, and in recorded order as far as these are equal; a table that is filled with the list is the
same. The text of a table is read as a table that differs in coefficients at most, and not at all just
if every coefficient is read as it was. What is found for a parameter are its correlations in recorded
order, in which they are tried, or else by descending coefficient, with recorded order among equal
ones. -/
theorem lookups_survive_text (hfits : ∀ m ∈ ms, m.Fits)
    (hfinite : ∀ m ∈ ms, m.coefficient.isFinite = true) :
    let t := ofList ms
    (t.toList.Perm ms
      ∧ t.toList.Pairwise (fun a b => (Mapping.order a b).isLE = true)
      ∧ ∀ k slot, t.toList.filter (Mapping.names k slot) = ms.filter (Mapping.names k slot))
    ∧ ofList t.toList = t
    ∧ (∀ back : Float → Float,
        (∀ m ∈ ms, Json.reread m.coefficient = some (back m.coefficient)) →
        ∀ text ∈ [t.toJson.compact, t.toJson.indented], ∃ t', ofText? text = some t'
          ∧ (t' = t ↔ ∀ m ∈ ms, back m.coefficient = m.coefficient)
          ∧ ∀ procedure statement occurrence slot,
            t'.candidates procedure statement occurrence slot
              = (t.candidates procedure statement occurrence slot).map (Mapping.recast back))
    ∧ ∀ procedure statement occurrence slot,
        let found := t.candidates procedure statement occurrence slot
        found = ms.filter (Mapping.names ⟨procedure, statement, occurrence⟩ slot)
        ∧ MappingPolicy.firstFound.ordered found = found
        ∧ StablyDescending found (MappingPolicy.highestCoefficient.ordered found) := by
  refine ⟨⟨toList_perm ms, pairwise_toList _, filter_toList_ofList ms⟩, ofList_toList _, ?_, ?_⟩
  -- The text is read as the table whose coefficients are reread, in either layout.
  · intro back hback text htext
    exact ⟨_, ofText?_text hfits hback htext, ofList_recast_eq_iff, candidates_recast⟩
  · intro procedure statement occurrence slot
    refine ⟨candidates_ofList ms procedure statement occurrence slot, rfl,
      MappingPolicy.ordered_highest fun m hm => Double.not_nan_of_finite (hfinite m ?_)⟩
    rw [candidates_ofList] at hm
    exact List.mem_of_mem_filter hm

/-- Two correlations of one parameter, and one of another with an element. -/
def several : List (Mapping Float) :=
  [⟨1, 0, 0, 0, 0, none, 0.5⟩, ⟨0, 2, 1, 3, 1, some 4, 0.1⟩, ⟨1, 0, 0, 0, 2, none, 0.75⟩]

/-- Their coefficients are read as they were written, and so the table is. -/
theorem lookups_survive_text_several :
    ofText? (ofList several).toJson.indented = some (ofList several)
      ∧ (ofList several).candidates 1 0 0 0
        = [⟨1, 0, 0, 0, 0, none, 0.5⟩, ⟨1, 0, 0, 0, 2, none, 0.75⟩] := by
  have hfits : ∀ m ∈ several, m.Fits := by decide
  obtain ⟨-, -, htext, hfound⟩ := lookups_survive_text hfits (by decide +kernel)
  obtain ⟨t', hread, hsame, -⟩ :=
    htext id (by decide +kernel) _ (List.mem_cons_of_mem _ List.mem_cons_self)
  obtain ⟨hfound, -⟩ := hfound 1 0 0 0
  refine ⟨?_, hfound.trans (by decide +kernel)⟩
  rw [hread, hsame.mpr fun _ _ => rfl]

/-- Two correlations of one parameter whose coefficients are neighbouring doubles, the lower one
recorded first. -/
def neighbours : List (Mapping Float) :=
  [⟨0, 0, 0, 0, 0, none, 0.9452706955539223⟩, ⟨0, 0, 0, 0, 1, none, 0.9452706955539224⟩]

/-- The lower coefficient is read as the higher one, so that the correlation recorded first is tried
first, and not last as before. -/
theorem neighbours_tied : ∃ t', ofText? (ofList neighbours).toJson.compact = some t'
    ∧ t' ≠ ofList neighbours
    ∧ (MappingPolicy.highestCoefficient.ordered ((ofList neighbours).candidates 0 0 0 0)).map
        Mapping.argument = [1, 0]
    ∧ (MappingPolicy.highestCoefficient.ordered (t'.candidates 0 0 0 0)).map Mapping.argument
      = [0, 1] := by
  let back : Float → Float := fun _ => 0.9452706955539224
  have hback : ∀ m ∈ neighbours, Json.reread m.coefficient = some (back m.coefficient) := by
    decide +kernel
  refine ⟨_, ofText?_text (by decide) hback List.mem_cons_self, fun heq => ?_, ?_, ?_⟩
  · exact absurd (ofList_recast_eq_iff.mp heq) (by decide +kernel)
  · rw [candidates_ofList]
    decide +kernel
  · rw [candidates_ofList]
    decide +kernel

end MappingTable

end TxnPath
