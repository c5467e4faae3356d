import Mathlib.Tactic.Common
import VolumeSearch.Proofs.IdSet
import VolumeSearch.Proofs.Index.Filter
import VolumeSearch.Proofs.Postings.AnyBytes
import VolumeSearch.Proofs.Search.Candidates

/-! What each part of a search gives when the catalog and the families it reads are those of a list of
entries: sets of ids are ascending lists, each of the entries with a property. -/
namespace VolumeSearch.Search
open Index (Reader Reads)
open Entry (DistinctIds byId idsWhere withId?)

variable {es : List Entry} {c : Catalog} {d : IndexDir} {f : Family}

/-- The family opens, and has the terms of the entries. -/
def Serves (d : IndexDir) (es : List Entry) (f : Family) : Prop :=
  ∃ r, Reader.openIn d f = .ok r ∧ Reads r (.ofEntries f es)

theorem cappedPosting_eq (hids : DistinctIds es) {r : Reader} (hr : Reads r (.ofEntries f es))
    {cap : Nat} (hcap : cap ≠ 0) (t : String) : r.posting (r.termId t) (some cap) =
      .ok ((idsWhere es fun e => (f.terms e).contains t).take cap) := by
  rw [hr.cappedPosting t cap, if_neg hcap, TermMap.idsOf_ofEntries hids]

/-- Whatever is in the files, postings do not descend. -/
theorem posting_ascending (r : Reader) (id : UInt32) (cap : Option Nat) (ids : List FileId)
    (h : r.posting id cap = .ok ids) : ids.Pairwise (· ≤ ·) := by
  unfold Reader.posting at h
  split at h
  · obtain rfl := Except.ok.inj h
    exact .nil
  · split at h
    · cases h
    · split at h
      · next ids' hdecode =>
        obtain rfl := Except.ok.inj h
        exact Postings.decode_ascending _ _ _ hdecode
      · cases h

private theorem intersectAll_idsWhere (hids : DistinctIds es) (ps : List (Entry → Bool)) :
    IdSet.intersectAll (ps.map (idsWhere es)) =
      idsWhere es fun e => !ps.isEmpty && ps.all fun p => p e := by
  have hall : ∀ s ∈ ps.map (idsWhere es), s.Pairwise (· < ·) := by
    intro s hs
    obtain ⟨p, -, rfl⟩ := List.mem_map.mp hs
    exact Entry.idsWhere_pairwise_lt hids p
  refine Entry.eq_idsWhere hids _ (IdSet.intersectAll_pairwise hall) fun id => ?_
  rw [IdSet.mem_intersectAll id fun s hs => (hall s hs).imp UInt64.le_of_lt]
  constructor
  · rintro ⟨hne, hmem⟩
    obtain ⟨p, rest, rfl⟩ := List.exists_cons_of_ne_nil (by simpa using hne)
    obtain ⟨e, he, -, rfl⟩ := (Entry.mem_idsWhere p id).mp (hmem (idsWhere es p) (by simp))
    refine ⟨e, he, ?_, rfl⟩
    have hevery : ∀ q ∈ p :: rest, q e = true := fun q hq =>
      (Entry.id_mem_idsWhere hids q he).mp (hmem _ (List.mem_map_of_mem hq))
    simpa using hevery
  · rintro ⟨e, he, hp, rfl⟩
    rw [Bool.and_eq_true, Bool.not_eq_true', List.isEmpty_eq_false_iff, List.all_eq_true] at hp
    refine ⟨by simpa using hp.1, fun s hs => ?_⟩
    obtain ⟨q, hq, rfl⟩ := List.mem_map.mp hs
    exact (Entry.id_mem_idsWhere hids q he).mpr (hp.2 q hq)

/-- The entry has all the terms in the family, of which there is at least one. -/
def hasAll (f : Family) (terms : List String) (e : Entry) : Bool :=
  !terms.isEmpty && terms.all fun t => (f.terms e).contains t

/-- The ids under all terms, whatever the map is. -/
theorem exactIds_of_reads {r : Reader} {m : TermMap} (hr : Reads r m) (terms : List String) :
    exactIds r terms = .ok (IdSet.intersectAll (terms.map m.idsOf)) := by
  rw [exactIds, mapM_ok terms hr.termPosting]
  rfl

theorem exactIds_eq (hids : DistinctIds es) {r : Reader} (hr : Reads r (.ofEntries f es))
    (terms : List String) : exactIds r terms = .ok (idsWhere es (hasAll f terms)) := by
  have hsets : terms.map (TermMap.ofEntries f es).idsOf =
      (terms.map fun t e => (f.terms e).contains t).map (idsWhere es) := by
    rw [List.map_map]
    exact List.map_congr_left fun t _ => TermMap.idsOf_ofEntries hids f t
  rw [exactIds_of_reads hr, hsets, intersectAll_idsWhere hids]
  congr 2
  funext e
  rw [hasAll, List.isEmpty_map, List.all_map]
  rfl

def carriers (es : List Entry) (f : Family) (t : String) : List Entry :=
  (byId es).filter fun e => (f.terms e).contains t

/-- The entry is among the first ones with each of the n-grams that any entry has, and there is such
an n-gram. -/
def isNear (es : List Entry) (f : Family) (grams : List String) (e : Entry) : Bool :=
  let carried := grams.filter fun g => carriers es f g ≠ []
  !carried.isEmpty && carried.all fun g => ((carriers es f g).take fuzzyCap).contains e

theorem mem_carriers (f : Family) (t : String) (e : Entry) :
    e ∈ carriers es f t ↔ e ∈ es ∧ t ∈ f.terms e := by
  rw [carriers, List.mem_filter, Entry.mem_byId, List.contains_iff_mem]

/-- An entry that has all the n-grams itself. -/
theorem isNear_iff {grams : List String} {e : Entry} (he : e ∈ es) (hgrams : ∀ g ∈ grams, g ∈ f.terms e) :
    isNear es f grams e = true ↔
      grams ≠ [] ∧ ∀ g ∈ grams, e ∈ (carriers es f g).take fuzzyCap := by
  have hcarried : (grams.filter fun g => carriers es f g ≠ []) = grams := by
    refine List.filter_eq_self.mpr fun g hg => decide_eq_true ?_
    exact List.ne_nil_of_mem ((mem_carriers f g e).mpr ⟨he, hgrams g hg⟩)
  rw [isNear, hcarried, Bool.and_eq_true, Bool.not_eq_true', List.isEmpty_eq_false_iff,
    List.all_eq_true]
  simp only [List.contains_iff_mem]

private theorem take_idsWhere (hids : DistinctIds es) (p : Entry → Bool) (n : Nat) :
    (idsWhere es p).take n = idsWhere es fun e => (((byId es).filter p).take n).contains e := by
  refine Entry.eq_idsWhere hids _ ((Entry.idsWhere_pairwise_lt hids p).sublist (List.take_sublist _ _))
    fun id => ?_
  rw [idsWhere, ← List.map_take, List.mem_map]
  simp only [List.contains_iff_mem]
  constructor
  · rintro ⟨e, he, rfl⟩
    have hmem := List.mem_of_mem_filter (List.mem_of_mem_take he)
    exact ⟨e, (Entry.mem_byId e).mp hmem, he, rfl⟩
  · rintro ⟨e, -, he, rfl⟩
    exact ⟨e, he, rfl⟩

/-- The ids under all n-grams that are there are those of the near entries. -/
theorem fuzzyIds_eq (hids : DistinctIds es) {r : Reader} (hr : Reads r (.ofEntries f es))
    (grams : List String) : fuzzyIds r grams = .ok (idsWhere es (isNear es f grams)) := by
  have hcap : fuzzyCap ≠ 0 := by decide
  have hsome (g : String) :
      decide ((idsWhere es fun e => (f.terms e).contains g).take fuzzyCap ≠ []) =
        decide (carriers es f g ≠ []) := by
    rw [decide_eq_decide, ne_eq, List.take_eq_nil_iff, idsWhere, List.map_eq_nil_iff, carriers]
    simp [hcap]
  have hsets : ((grams.map fun g =>
      (idsWhere es fun e => (f.terms e).contains g).take fuzzyCap).filter fun s => s ≠ []) =
      ((grams.filter fun g => carriers es f g ≠ []).map fun g e =>
        ((carriers es f g).take fuzzyCap).contains e).map (idsWhere es) := by
    rw [List.filter_map, List.map_map]
    refine (List.map_congr_left fun g _ => take_idsWhere hids _ fuzzyCap).trans ?_
    exact congrArg (List.map _) (List.filter_congr fun g _ => hsome g)
  rw [fuzzyIds, mapM_ok grams (cappedPosting_eq hids hr hcap)]
  simp only [Except.map]
  rw [hsets, intersectAll_idsWhere hids]
  congr 2
  funext e
  rw [isNear, List.isEmpty_map, List.all_map]
  rfl

/-- Approximate ids do not descend, whatever the family holds. -/
theorem fuzzyIds_ascending (r : Reader) (grams : List String) (ids : List FileId)
    (h : fuzzyIds r grams = .ok ids) : ids.Pairwise (· ≤ ·) := by
  rw [fuzzyIds] at h
  cases hsets : grams.mapM fun gram => r.posting (r.termId gram) (some fuzzyCap) with
  | error fault =>
    rw [hsets] at h
    cases h
  | ok sets =>
    rw [hsets] at h
    obtain rfl := Except.ok.inj h
    refine IdSet.intersectAll_pairwise fun s hs => ?_
    obtain ⟨gram, -, hposting⟩ := exists_of_mapM hsets s (List.mem_of_mem_filter hs)
    exact posting_ascending r _ _ s hposting

/-- Exact matches and, while they fill fewer than three pages, the near ones. -/
theorem withFuzzy_eq (hids : DistinctIds es) (p : Plan) (hd : Serves d es (.fuzzy p.byPath))
    (exact : Entry → Bool) :
    withFuzzy d p (idsWhere es exact) = idsWhere es fun e => exact e ||
      (decide ((idsWhere es exact).length < p.limit * fuzzyPages) &&
        isNear es (.fuzzy p.byPath) (Term.ngrams p.target) e) := by
  obtain ⟨r, hopen, hreads⟩ := hd
  unfold withFuzzy
  split
  · next hfull => simp [Nat.not_lt.mpr hfull]
  · next hfew =>
    rw [hopen]
    simp only [fuzzyIds_eq hids hreads, Nat.not_le.mp hfew, decide_true, Bool.true_and]
    split
    · next hnone => simp [hnone, isNear]
    · refine Entry.eq_idsWhere hids _ (IdSet.union_pairwise_lt ?_ ?_) fun id => ?_
      · exact (Entry.idsWhere_pairwise_lt hids _).imp UInt64.le_of_lt
      · exact (Entry.idsWhere_pairwise_lt hids _).imp UInt64.le_of_lt
      · simp only [IdSet.mem_union, Entry.mem_idsWhere, Bool.or_eq_true]
        grind

/-- Whatever the family of n-grams holds, approximate matches only add to the exact ones. -/
theorem withFuzzy_spec (d : IndexDir) (p : Plan) {exact : List FileId}
    (hexact : exact.Pairwise (· < ·)) :
    (withFuzzy d p exact).Pairwise (· < ·) ∧ ∀ id ∈ exact, id ∈ withFuzzy d p exact := by
  unfold withFuzzy
  split
  · exact ⟨hexact, fun _ h => h⟩
  · split
    · exact ⟨hexact, fun _ h => h⟩
    · next r hopen =>
      split
      · exact ⟨hexact, fun _ h => h⟩
      · next fuzzy hfuzzy =>
        split
        · exact ⟨hexact, fun _ h => h⟩
        · have hasc := fuzzyIds_ascending r _ fuzzy hfuzzy
          exact ⟨IdSet.union_pairwise_lt (hexact.imp UInt64.le_of_lt) hasc,
            fun id hid => (IdSet.mem_union id _ _).mpr (.inl hid)⟩

theorem sizeFilterIds_pairwise_lt (d : IndexDir) (op : Comparison) (bytes : UInt64) :
    (Index.sizeFilterIds d op bytes).Pairwise (· < ·) := by
  unfold Index.sizeFilterIds
  split
  · split
    · next ids hids => exact Index.Filter.idsOfAll_pairwise_lt hids
    · exact .nil
  · exact .nil

theorem id_mem_sizeFilterIds (hd : Serves d es .filter) {op : Comparison} {bytes : UInt64} {e : Entry}
    (he : e ∈ es) (hsize : op.holds e.size bytes = true) : e.id ∈ Index.sizeFilterIds d op bytes := by
  obtain ⟨r, hopen, hreads⟩ := hd
  obtain ⟨ids, hids, hselects⟩ := hreads.sizeIds op bytes
  simp only [Index.sizeFilterIds, hopen, hids]
  exact hselects.mem he (SizeBucket.of_mem_admitted hsize)

theorem readable_of_records (hc : c.Records es) : c.Readable := fun key => by
  rw [hc.works]

theorem loadEntry_eq (hc : c.Records es) (id : FileId) : loadEntry c id = .ok (withId? es id) := by
  rw [loadEntry, hc.load id]

/-- The paths of ascending ids are those of the entries that have one of these ids and pass. -/
theorem collect_eq (hc : c.Records es) (hids : DistinctIds es) (p : Plan) (directory : Option String)
    {ids : List FileId} (hasc : ids.Pairwise (· < ·)) :
    collect c p directory ids =
      .ok (((byId es).filter fun e => ids.contains e.id && passes p directory e).map Entry.path) := by
  rw [collect_of_load (loadEntry_eq hc), Entry.filterMap_withId? hids hasc, List.filter_filter]
  simp only [Bool.and_comm]

/-- Narrowing by sizes only leaves ids out. -/
theorem matching_sublist (d : IndexDir) (p : Plan) (exact sizeIds : List FileId) :
    (matching d p exact sizeIds).Sublist (withFuzzy d p exact) := by
  unfold matching
  dsimp only
  split
  · exact .refl _
  · exact IdSet.intersect_sublist _ _

theorem matching_pairwise_lt (d : IndexDir) (p : Plan) {exact sizeIds : List FileId}
    (hexact : exact.Pairwise (· < ·)) : (matching d p exact sizeIds).Pairwise (· < ·) :=
  (withFuzzy_spec d p hexact).1.sublist (matching_sublist d p exact sizeIds)

private theorem mem_matching (d : IndexDir) (p : Plan) {exact sizeIds : List FileId} (id : FileId)
    (hexact : exact.Pairwise (· < ·)) (hsizes : sizeIds.Pairwise (· ≤ ·))
    (hid : sizeIds ≠ [] → id ∈ sizeIds) :
    id ∈ matching d p exact sizeIds ↔ id ∈ withFuzzy d p exact := by
  have hasc := (withFuzzy_spec d p hexact).1
  unfold matching
  split
  · rfl
  · next hne =>
    rw [IdSet.mem_intersect id (hasc.imp UInt64.le_of_lt) hsizes]
    exact and_iff_left (hid hne)

/-- What is found in the index is what passes of the matches. The buckets of sizes only spare the
look at entries that do not pass. -/
theorem indexed_eq {s : Source} (hc : s.catalog.Records es) (hids : DistinctIds es) (p : Plan)
    (directory : Option String) (hexact : Serves s.index es (.exact p.byPath))
    (hfilter : Serves s.index es .filter) (hblank : ¬ (p.size.isSome = true ∧ p.text = "")) :
    indexed s p directory = .ok (((byId es).filter fun e =>
      (withFuzzy s.index p (idsWhere es (hasAll (.exact p.byPath) (Term.tokens p.target)))).contains
        e.id && passes p directory e).map Entry.path) := by
  obtain ⟨r, hopen, hreads⟩ := hexact
  have hasc := Entry.idsWhere_pairwise_lt hids (hasAll (.exact p.byPath) (Term.tokens p.target))
  unfold indexed
  rw [if_neg (by simpa using hblank), hopen]
  simp only [exactIds_eq hids hreads]
  rw [collect_eq hc hids p directory (matching_pairwise_lt _ _ hasc)]
  refine congrArg (fun l => Except.ok (l.map Entry.path)) (List.filter_congr fun e he => ?_)
  rw [Entry.mem_byId] at he
  rw [Bool.eq_iff_iff]
  simp only [Bool.and_eq_true, List.contains_iff_mem]
  refine and_congr_left fun hpasses => ?_
  -- the bucket of an entry that passes is admitted, so its id is among those to narrow to
  cases hsize : p.size with
  | none => exact mem_matching _ _ _ hasc .nil fun h => absurd rfl h
  | some f =>
    have hsizes := (sizeFilterIds_pairwise_lt s.index f.op f.bytes).imp UInt64.le_of_lt
    refine mem_matching _ _ _ hasc hsizes fun _ => ?_
    have haccepts : f.accepts e.size = true := by
      rw [passes, hsize, Bool.and_eq_true, Bool.and_eq_true] at hpasses
      exact hpasses.1.2
    exact id_mem_sizeFilterIds hfilter he haccepts

end VolumeSearch.Search
