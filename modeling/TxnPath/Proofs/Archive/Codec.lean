import TxnPath.Archive.Basic
import TxnPath.Proofs.Digest
import TxnPath.Proofs.Json.Record

/-!
# `TxnPath.Proofs.Archive.Codec`: archives are read as they were written

An archive is a record of records, down to the calls that vertices stand for. For every kind of record
there are three lemmas: decoding undoes encoding if the numbers have the sizes of their types
(`ofJson?_toJson`), what is decoded has them (`fits_of_ofJson?`), and the JSON value in between is nested
so deep and no deeper (`plain_toJson`). With the laws of JSON text they give
`Archive.stored_without_loss`: the indented text is read as the archive that was written, and the compact
text, of which the digest is taken, tells lists of graphs apart.
-/

set_option autoImplicit false

namespace TxnPath

open Json (halfWord?_nat word?_nat lt_of_natBelow? plain_nat plain_half plain_list list?_list)
open Json.Record (required_of_lookup withDefault_of_lookup exists_of_required
  forall_mem_of_required lt_of_required)

/-- A partition set is written as the list of its elements. -/
theorem PartitionSet.ofList_toList (s : PartitionSet) : PartitionSet.ofList s.toList = s :=
  ext_mem fun _ => mem_ofList

/-- The names of the query types differ. -/
theorem QueryType.ofJson?_toJson (t : QueryType) : QueryType.ofJson? t.toJson = some t := by
  cases t <;> rfl

/-! ### Vertices -/

namespace VertexKind

/-- The numbers of a call fit half words. -/
def Fits : VertexKind → Prop
  | .query c => c.statement < halfWordLimit ∧ c.occurrence < halfWordLimit
    ∧ ∀ p ∈ c.partitions.toList, p < halfWordLimit
  | _ => True

/-- A vertex kind is written with a tag, and a call with its parts besides. Reading it back takes
the tag first and then each part by its name. -/
theorem ofJson?_toJson {kind : VertexKind} (h : kind.Fits) : ofJson? kind.toJson = some kind := by
  cases kind with
  | start | commit | abort => rfl
  | query c =>
    obtain ⟨hstatement, hoccurrence, hpartitions⟩ := h
    obtain ⟨rest, r, htag, hr, hs, ho, hp, ht⟩ : ∃ rest r,
        (toJson (.query c)).tagged? "type" = some ("query", rest)
          ∧ rest.record? ["stmt", "instance", "partitions", "query_type"] = some r
          ∧ r.required "stmt" Json.halfWord? = some c.statement
          ∧ r.required "instance" Json.halfWord? = some c.occurrence
          ∧ r.required "partitions" (Json.list? Json.halfWord?) = some c.partitions.toList
          ∧ r.required "query_type" QueryType.ofJson? = some c.queryType :=
      ⟨_, _, rfl, rfl, required_of_lookup rfl (halfWord?_nat hstatement),
        required_of_lookup rfl (halfWord?_nat hoccurrence),
        required_of_lookup rfl (list?_list fun p hp => halfWord?_nat (hpartitions p hp)),
        required_of_lookup rfl (QueryType.ofJson?_toJson _)⟩
    -- From here on only what is read of the value matters, not what it is.
    generalize toJson (.query c) = j at htag
    rw [ofJson?, htag]
    simp only [Option.bind_eq_bind, Option.bind_some, hr, hs, ho, hp, ht, PartitionSet.ofList_toList]
    rfl

/-- What is read fits. Each number of a call was read as a number of its type, so that it can be
written again. -/
theorem fits_of_ofJson? {j : Json} {kind : VertexKind} (h : ofJson? j = some kind) : kind.Fits := by
  simp only [ofJson?, Option.bind_eq_bind, Option.bind_eq_some_iff] at h
  obtain ⟨⟨tag, rest⟩, _, h⟩ := h
  split at h
  · cases h
    trivial
  · cases h
    trivial
  · cases h
    trivial
  · simp only [Option.bind_eq_some_iff] at h
    obtain ⟨r, _, s, hs, o, ho, ps, hps, t, _, h⟩ := h
    cases h
    have hpartitions := forall_mem_of_required hps lt_of_natBelow?
    exact ⟨lt_of_required hs, lt_of_required ho,
      fun p hp => hpartitions p (PartitionSet.mem_ofList.mp hp)⟩
  · cases h

/-- A call contains a list of partitions, which is as deep as it gets. -/
theorem plain_toJson {kind : VertexKind} (h : kind.Fits) (depth : Nat) :
    Json.Plain (depth + 2) kind.toJson := by
  cases kind with
  | start | commit | abort =>
    refine .obj ?_
    simp only [List.forall_mem_cons]
    exact ⟨.str _ _, nofun⟩
  | query c =>
    obtain ⟨hstatement, hoccurrence, hpartitions⟩ := h
    refine .obj ?_
    simp only [List.forall_mem_cons]
    exact ⟨.str _ _, plain_half _ hstatement, plain_half _ hoccurrence,
      plain_list fun p hp => plain_half _ (hpartitions p hp), .str _ _, nofun⟩

end VertexKind

namespace VertexRecord

/-- The counters of a vertex fit words. -/
structure Fits (v : VertexRecord) : Prop where
  kind : v.kind.Fits
  totalHits : v.totalHits < wordLimit
  execNanos : v.execNanos < wordLimit
  execSamples : v.execSamples < wordLimit

/-- The record of a vertex is read as it was written. Its times may be left out, but are always
written. -/
theorem ofJson?_toJson {v : VertexRecord} (h : v.Fits) : ofJson? v.toJson = some v := by
  obtain ⟨r, hr, hkind, hhits, hnanos, hsamples⟩ : ∃ r,
      v.toJson.record? ["kind", "total_hits", "exec_time_ns", "exec_samples"] = some r
        ∧ r.required "kind" VertexKind.ofJson? = some v.kind
        ∧ r.required "total_hits" Json.word? = some v.totalHits
        ∧ r.withDefault "exec_time_ns" Json.word? 0 = some v.execNanos
        ∧ r.withDefault "exec_samples" Json.word? 0 = some v.execSamples :=
    ⟨_, rfl, required_of_lookup rfl (VertexKind.ofJson?_toJson h.kind),
      required_of_lookup rfl (word?_nat h.totalHits),
      withDefault_of_lookup rfl (word?_nat h.execNanos),
      withDefault_of_lookup rfl (word?_nat h.execSamples)⟩
  generalize v.toJson = j at hr
  rw [ofJson?, hr]
  simp only [Option.bind_eq_bind, Option.bind_some, hkind, hhits, hnanos, hsamples]
  rfl

/-- A counter that may be left out fits a word. -/
theorem lt_of_withDefault {r : Json.Record} {name : String} {n : Nat}
    (h : r.withDefault name Json.word? 0 = some n) : n < wordLimit := by
  rcases Json.Record.exists_of_withDefault h with rfl | ⟨_, hj⟩
  · decide
  · exact lt_of_natBelow? hj

/-- Numbers that are read from the record of a vertex have the sizes of their types. -/
theorem fits_of_ofJson? {j : Json} {v : VertexRecord} (h : ofJson? j = some v) : v.Fits := by
  simp only [ofJson?, Option.bind_eq_bind, Option.bind_eq_some_iff] at h
  obtain ⟨r, _, kind, hkind, hits, hhits, nanos, hnanos, samples, hsamples, h⟩ := h
  cases h
  obtain ⟨_, hkind⟩ := exists_of_required hkind
  exact ⟨VertexKind.fits_of_ofJson? hkind, lt_of_required hhits, lt_of_withDefault hnanos,
    lt_of_withDefault hsamples⟩

/-- The record of a vertex is one level deeper than its kind. -/
theorem plain_toJson {v : VertexRecord} (h : v.Fits) (depth : Nat) :
    Json.Plain (depth + 3) v.toJson := by
  refine .obj ?_
  simp only [List.forall_mem_cons]
  exact ⟨VertexKind.plain_toJson h.kind _, plain_nat _ h.totalHits, plain_nat _ h.execNanos,
    plain_nat _ h.execSamples, nofun⟩

end VertexRecord

/-! ### Edges -/

namespace EdgeRecord

/-- The positions and the counter of an edge fit words. -/
structure Fits (e : EdgeRecord) : Prop where
  source : e.source < wordLimit
  target : e.target < wordLimit
  totalHits : e.totalHits < wordLimit

/-- The record of an edge is three numbers. -/
theorem ofJson?_toJson {e : EdgeRecord} (h : e.Fits) : ofJson? e.toJson = some e := by
  obtain ⟨r, hr, hsource, htarget, hhits⟩ : ∃ r,
      e.toJson.record? ["src", "dst", "total_hits"] = some r
        ∧ r.required "src" Json.word? = some e.source ∧ r.required "dst" Json.word? = some e.target
        ∧ r.required "total_hits" Json.word? = some e.totalHits :=
    ⟨_, rfl, required_of_lookup rfl (word?_nat h.source),
      required_of_lookup rfl (word?_nat h.target), required_of_lookup rfl (word?_nat h.totalHits)⟩
  generalize e.toJson = j at hr
  rw [ofJson?, hr]
  simp only [Option.bind_eq_bind, Option.bind_some, hsource, htarget, hhits]
  rfl

/-- They have the sizes of their types when they are read. -/
theorem fits_of_ofJson? {j : Json} {e : EdgeRecord} (h : ofJson? j = some e) : e.Fits := by
  simp only [ofJson?, Option.bind_eq_bind, Option.bind_eq_some_iff] at h
  obtain ⟨r, _, source, hsource, target, htarget, hits, hhits, h⟩ := h
  cases h
  exact ⟨lt_of_required hsource, lt_of_required htarget, lt_of_required hhits⟩

/-- There is nothing inside them. -/
theorem plain_toJson {e : EdgeRecord} (h : e.Fits) (depth : Nat) :
    Json.Plain (depth + 1) e.toJson := by
  refine .obj ?_
  simp only [List.forall_mem_cons]
  exact ⟨plain_nat _ h.source, plain_nat _ h.target, plain_nat _ h.totalHits, nofun⟩

end EdgeRecord

/-! ### Graphs -/

namespace GraphRecord

/-- The numbers of a graph fit words, and identifiers half words. -/
structure Fits (g : GraphRecord) : Prop where
  procedureId : g.procedureId < halfWordLimit
  base : g.base < halfWordLimit
  partitions : g.partitions < halfWordLimit
  txns : g.txns < wordLimit
  vertices : ∀ v ∈ g.vertices, v.Fits
  edges : ∀ e ∈ g.edges, e.Fits

/-- The record of a graph is read as it was written, field by field, with the lists of its vertices
and edges. -/
theorem ofJson?_toJson {g : GraphRecord} (h : g.Fits) : ofJson? g.toJson = some g := by
  obtain ⟨r, hr, hname, hid, hbase, hparts, htxns, hvertices, hedges⟩ : ∃ r,
      g.toJson.record? ["procedure", "proc_id", "base_partition", "num_partitions", "txn_count",
          "vertices", "edges"] = some r
        ∧ r.required "procedure" Json.str? = some g.procedure
        ∧ r.required "proc_id" Json.halfWord? = some g.procedureId
        ∧ r.required "base_partition" Json.halfWord? = some g.base
        ∧ r.required "num_partitions" Json.halfWord? = some g.partitions
        ∧ r.required "txn_count" Json.word? = some g.txns
        ∧ r.required "vertices" (Json.list? VertexRecord.ofJson?) = some g.vertices
        ∧ r.required "edges" (Json.list? EdgeRecord.ofJson?) = some g.edges :=
    ⟨_, rfl, required_of_lookup rfl rfl, required_of_lookup rfl (halfWord?_nat h.procedureId),
      required_of_lookup rfl (halfWord?_nat h.base),
      required_of_lookup rfl (halfWord?_nat h.partitions), required_of_lookup rfl (word?_nat h.txns),
      required_of_lookup rfl (list?_list fun v hv => VertexRecord.ofJson?_toJson (h.vertices v hv)),
      required_of_lookup rfl (list?_list fun e he => EdgeRecord.ofJson?_toJson (h.edges e he))⟩
  -- What was written does not matter any more, only what is read off its fields.
  generalize g.toJson = j at hr
  rw [ofJson?, hr]
  simp only [Option.bind_eq_bind, Option.bind_some, hname, hid, hbase, hparts, htxns, hvertices,
    hedges]
  rfl

/-- What is read from the record of a graph has the sizes of its types, down to its vertices and
edges. -/
theorem fits_of_ofJson? {j : Json} {g : GraphRecord} (h : ofJson? j = some g) : g.Fits := by
  simp only [ofJson?, Option.bind_eq_bind, Option.bind_eq_some_iff] at h
  obtain ⟨r, _, name, _, id, hid, base, hbase, parts, hparts, txns, htxns, vs, hvs, es, hes, h⟩ := h
  cases h
  exact ⟨lt_of_required hid, lt_of_required hbase, lt_of_required hparts, lt_of_required htxns,
    forall_mem_of_required hvs VertexRecord.fits_of_ofJson?,
    forall_mem_of_required hes EdgeRecord.fits_of_ofJson?⟩

/-- The record of a graph holds its vertices in a list, hence is two levels deeper than they are. -/
theorem plain_toJson {g : GraphRecord} (h : g.Fits) (depth : Nat) :
    Json.Plain (depth + 5) g.toJson := by
  refine .obj ?_
  simp only [List.forall_mem_cons]
  exact ⟨.str _ _, plain_half _ h.procedureId, plain_half _ h.base, plain_half _ h.partitions,
    plain_nat _ h.txns, plain_list fun v hv => VertexRecord.plain_toJson (h.vertices v hv) depth,
    plain_list fun e he => EdgeRecord.plain_toJson (h.edges e he) (depth + 2), nofun⟩

end GraphRecord

/-! ### Archives -/

namespace Archive

variable {a : Archive} {gs gs' : List GraphRecord}

/-- The numbers of an archive have the sizes that they are read with. Its texts may be any. -/
structure Fits (a : Archive) : Prop where
  version : a.version < halfWordLimit
  graphs : ∀ g ∈ a.graphs, g.Fits

/-- An archive is read as it was written. -/
theorem ofJson?_toJson (h : a.Fits) : ofJson? a.toJson = some a := by
  obtain ⟨r, hr, hversion, hgraphs, hdigest⟩ : ∃ r,
      a.toJson.record? ["version", "graphs", "digest"] = some r
        ∧ r.required "version" Json.halfWord? = some a.version
        ∧ r.required "graphs" (Json.list? GraphRecord.ofJson?) = some a.graphs
        ∧ r.required "digest" Json.str? = some a.digest :=
    ⟨_, rfl, required_of_lookup rfl (halfWord?_nat h.version),
      required_of_lookup rfl (list?_list fun g hg => GraphRecord.ofJson?_toJson (h.graphs g hg)),
      required_of_lookup rfl rfl⟩
  generalize a.toJson = j at hr
  rw [ofJson?, hr]
  simp only [Option.bind_eq_bind, Option.bind_some, hversion, hgraphs, hdigest]
  rfl

/-- What is read from an archive has the sizes of its types throughout. -/
theorem fits_of_ofJson? {j : Json} (h : ofJson? j = some a) : a.Fits := by
  simp only [ofJson?, Option.bind_eq_bind, Option.bind_eq_some_iff] at h
  obtain ⟨r, _, version, hversion, graphs, hgraphs, digest, _, h⟩ := h
  cases h
  exact ⟨lt_of_required hversion, forall_mem_of_required hgraphs GraphRecord.fits_of_ofJson?⟩

/-- An archive holds its graphs in a list, and so is two levels deeper than they are. -/
theorem plain_toJson (h : a.Fits) (depth : Nat) : Json.Plain (depth + 7) a.toJson := by
  refine .obj ?_
  simp only [List.forall_mem_cons]
  exact ⟨plain_half _ h.version,
    plain_list fun g hg => GraphRecord.plain_toJson (h.graphs g hg) depth, .str _ _, nofun⟩

/-- The graphs of an archive as JSON. -/
theorem plain_graphs (h : ∀ g ∈ gs, g.Fits) (depth : Nat) :
    Json.Plain (depth + 6) (.list GraphRecord.toJson gs) :=
  plain_list fun g hg => GraphRecord.plain_toJson (h g hg) depth

/-- The archives that are read are those that fit. -/
theorem fits_of_ofText {t : String} (h : ofText t = .ok a) : a.Fits := by
  rw [ofText] at h
  split at h
  case h_1 hread =>
    cases h
    obtain ⟨j, _, hj⟩ := Option.bind_eq_some_iff.mp hread
    exact fits_of_ofJson? hj
  case h_2 => cases h

/-- An archive that fits is read from its text as it was. -/
theorem ofText_text (h : a.Fits) : ofText a.text = .ok a := by
  have hread : Json.parse? a.toJson.indented = some a.toJson := (plain_toJson h 120).parse?_indented
  rw [ofText, text, hread, Option.bind_some, ofJson?_toJson h]

/-- Lists of graphs are told by the text that the digest is taken of. -/
theorem digestedText_inj (h : ∀ g ∈ gs, g.Fits) (h' : ∀ g ∈ gs', g.Fits)
    (heq : digestedText gs = digestedText gs') : gs = gs' := by
  have hread : ∀ {gs : List GraphRecord}, (∀ g ∈ gs, g.Fits) →
      Json.list? GraphRecord.ofJson? (.list GraphRecord.toJson gs) = some gs := fun h =>
    list?_list fun g hg => GraphRecord.ofJson?_toJson (h g hg)
  have hjson := Json.Plain.compact_inj (plain_graphs h 121) (plain_graphs h' 121) heq
  exact Option.some.inj ((hread h).symm.trans (hjson ▸ hread h'))

/-- What is left of an archive after it has been saved and loaded a number of times. -/
def resaved (a : Archive) : Nat → Except Error Archive
  | 0 => .ok a
  | n + 1 => (a.resaved n).bind fun a => ofText a.text

/-- Saving and reading again, however often, does not change an archive. -/
theorem resaved_eq (h : a.Fits) (n : Nat) : a.resaved n = .ok a := by
  induction n with
  | zero => rfl
  | succ n ih =>
    rw [resaved, ih, Except.bind, ofText_text h]

/-- An archive that was made from graphs has the digest of these graphs. -/
theorem verify_ofRecords (gs : List GraphRecord) : (ofRecords gs).verify = .ok () := by
  rw [verify, ofRecords, if_neg (not_not.mpr rfl), if_neg (not_not.mpr rfl)]

/-- Other graphs under the digest of an archive are found out, unless the texts collide. -/
theorem verify_exchanged (h : ∀ g ∈ gs, g.Fits) (h' : ∀ g ∈ gs', g.Fits) (hne : gs' ≠ gs) :
    { ofRecords gs with graphs := gs' }.verify = .error (.checksum (digestOf gs) (digestOf gs'))
      ∨ Digest.Collide (digestedText gs').toUTF8 (digestedText gs).toUTF8 := by
  -- One digest for both lists means one text, which only one list has, or a collision.
  by_cases hdigest : digestOf gs' = digestOf gs
  · rcases Digest.eq_or_collide hdigest with htext | hcollide
    · exact absurd (digestedText_inj h' h htext) hne
    · exact .inr hcollide
  · refine .inl ?_
    rw [verify, ofRecords, if_neg (not_not.mpr rfl)]
    exact if_pos hdigest

/-- Archives are stored without loss. An archive whose numbers have the sizes of their types, whatever
its texts are, is read from its text as it was, and nothing else can be read from any text. No two
lists of such graphs have the same text for the digest. So the archive of graphs passes verification
however often it is saved and loaded, and other graphs in its place are refused for their digest, unless
the two texts collide. -/
theorem stored_without_loss :
    (∀ a : Archive, a.Fits → ofText a.text = .ok a)
      ∧ (∀ (t : String) (a : Archive), ofText t = .ok a → a.Fits)
      ∧ (∀ gs gs' : List GraphRecord, (∀ g ∈ gs, g.Fits) → (∀ g ∈ gs', g.Fits) →
        digestedText gs = digestedText gs' → gs = gs')
      ∧ (∀ gs : List GraphRecord, (∀ g ∈ gs, g.Fits) → ∀ n,
        ∃ a, (ofRecords gs).resaved n = .ok a ∧ a = ofRecords gs ∧ a.verify = .ok ())
      ∧ ∀ gs gs' : List GraphRecord, (∀ g ∈ gs, g.Fits) → (∀ g ∈ gs', g.Fits) → gs' ≠ gs →
        { ofRecords gs with graphs := gs' }.verify
            = .error (.checksum (ofRecords gs).digest (digestOf gs'))
          ∨ Digest.Collide (digestedText gs').toUTF8 (digestedText gs).toUTF8 := by
  refine ⟨fun a h => ofText_text h, fun t a h => fits_of_ofText h,
    fun gs gs' h h' heq => digestedText_inj h h' heq, fun gs h n => ?_,
    fun gs gs' h h' hne => verify_exchanged h h' hne⟩
  have hfits : (ofRecords gs).Fits := ⟨show currentVersion < halfWordLimit by decide, h⟩
  exact ⟨_, resaved_eq hfits n, rfl, verify_ofRecords gs⟩

/-- A graph of a procedure with blanks and quotes in its name. -/
def quotedGraph : GraphRecord :=
  ⟨"\"pay\"\tnow", 0, 0, 1, 7, [⟨.start, 7, 0, 0⟩, ⟨.query ⟨0, 0, .singleton 0, .update⟩, 7, 90, 2⟩],
    [⟨0, 1, 7⟩]⟩

/-- The numbers of the first example have the sizes of their types. -/
theorem fits_quotedGraph : quotedGraph.Fits where
  procedureId := by decide
  base := by decide
  partitions := by decide
  txns := by decide
  vertices := by
    simp only [quotedGraph, List.forall_mem_cons]
    exact ⟨⟨trivial, by decide, by decide, by decide⟩,
      ⟨⟨by decide, by decide, by decide⟩, by decide, by decide, by decide⟩, nofun⟩
  edges := by
    simp only [quotedGraph, List.forall_mem_cons]
    exact ⟨⟨by decide, by decide, by decide⟩, nofun⟩

/-- A graph of which only its head is stored. -/
def bareGraph : GraphRecord := ⟨"", 0, 0, 1, 0, [], []⟩

/-- So have those of the second. -/
theorem fits_bareGraph : bareGraph.Fits :=
  ⟨by decide, by decide, by decide, by decide, nofun, nofun⟩

/-- The first graph survives three rounds. The second cannot be taken out of its archive: the digests
are computed, and are different. -/
theorem stored_without_loss_quoted :
    ofText (ofRecords [quotedGraph]).text = .ok (ofRecords [quotedGraph])
      ∧ digestedText [bareGraph] ≠ digestedText [quotedGraph]
      ∧ (ofRecords [quotedGraph]).resaved 3 = .ok (ofRecords [quotedGraph])
      ∧ { ofRecords [bareGraph] with graphs := [] }.verify
          = .error (.checksum (ofRecords [bareGraph]).digest (digestOf [])) := by
  obtain ⟨hread, _, htext, hresaved, hexchanged⟩ := stored_without_loss
  have hquoted : ∀ g ∈ [quotedGraph], g.Fits := List.forall_mem_singleton.mpr fits_quotedGraph
  have hbare : ∀ g ∈ [bareGraph], g.Fits := List.forall_mem_singleton.mpr fits_bareGraph
  -- Both texts are short enough to be digested in one chunk.
  have hdigest : Digest.ofBytes (digestedText []).toUTF8
      ≠ Digest.ofBytes (digestedText [bareGraph]).toUTF8 := by
    rw [Digest.ofBytes_chunk (by decide +kernel), Digest.ofBytes_chunk (by decide +kernel)]
    decide +kernel
  refine ⟨hread _ ⟨by decide, hquoted⟩, fun heq => ?_, ?_, ?_⟩
  · exact absurd (htext [bareGraph] [quotedGraph] hbare hquoted heq) (by decide)
  · obtain ⟨_, hresaved, rfl, _⟩ := hresaved [quotedGraph] hquoted 3
    exact hresaved
  · exact (hexchanged [bareGraph] [] hbare nofun nofun).resolve_right fun h => hdigest h.2

end Archive

end TxnPath
