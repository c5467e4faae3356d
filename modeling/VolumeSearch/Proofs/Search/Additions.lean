import VolumeSearch.Proofs.Index.ReadBack
import VolumeSearch.Proofs.Search.Engine

namespace VolumeSearch

def IndexDir.without (d : IndexDir) (f : Family) : IndexDir := f.files.foldl IndexDir.remove d

namespace Index
variable {d : IndexDir} {f g : Family} {n : String}

private theorem item?_remove (d : IndexDir) (name n : String) :
    (d.remove name).item? n = if n = name then none else d.item? n := by
  cases d with
  | absent => simp [IndexDir.remove, IndexDir.item?]
  | blocked => simp [IndexDir.remove, IndexDir.item?]
  | files named =>
    rw [IndexDir.remove, IndexDir.item?, IndexDir.shows_erase (fun _ => rfl), Function.update_apply]
    rfl

theorem item?_without (d : IndexDir) (f : Family) (n : String) :
    (d.without f).item? n = if n ∈ f.files then none else d.item? n := by
  rw [IndexDir.without]
  induction f.files generalizing d with
  | nil => simp
  | cons name rest ih =>
    rw [List.foldl_cons, ih, item?_remove]
    by_cases hn : n = name <;> simp [hn]

theorem openIn_without (d : IndexDir) (f : Family) : Reader.openIn (d.without f) f = .error .io := by
  have hdict : (d.without f).read f.dictFile = .error .io := by
    rw [IndexDir.read, item?_without, if_pos (by simp [Family.files])]
  rw [Reader.openIn, hdict]
  rfl

theorem openIn_without_of_ne (d : IndexDir) (h : g ≠ f) :
    Reader.openIn (d.without f) g = Reader.openIn d g := by
  refine openIn_congr fun n hn => ?_
  rw [item?_without, if_neg fun hmem => ?_]
  exact ownNames_disjoint h n (List.mem_append_left _ hn) (List.mem_append_left _ hmem)

theorem sizeFilterIds_congr {d d' : IndexDir} (h : Reader.openIn d' .filter = Reader.openIn d .filter)
    (op : Comparison) (bytes : UInt64) : sizeFilterIds d' op bytes = sizeFilterIds d op bytes := by
  rw [sizeFilterIds, sizeFilterIds, h]

end Index

namespace Search
open Index (Reader Reads)

variable {s : Source} {d : IndexDir} {p : Plan} {exact : List FileId}

private theorem exact_ne_fuzzy (byPath : Bool) : Family.exact byPath ≠ Family.fuzzy byPath := by
  cases byPath <;> decide

private theorem filter_ne_fuzzy (byPath : Bool) : Family.filter ≠ Family.fuzzy byPath := by
  cases byPath <;> decide

theorem withFuzzy_without (d : IndexDir) (p : Plan) (exact : List FileId) :
    withFuzzy (d.without (.fuzzy p.byPath)) p exact = exact := by
  rw [withFuzzy, Index.openIn_without]
  split <;> rfl

theorem withFuzzy_of_many (hmany : p.limit * fuzzyPages ≤ exact.length) : withFuzzy d p exact = exact := by
  rw [withFuzzy, if_pos hmany]

/-- Narrowing to sizes keeps what approximate matches were added to. -/
theorem matching_without_sublist (hexact : exact.Pairwise (· < ·)) {sizeIds : List FileId}
    (hsizes : sizeIds.Pairwise (· < ·)) :
    (matching (d.without (.fuzzy p.byPath)) p exact sizeIds).Sublist (matching d p exact sizeIds) := by
  obtain ⟨hasc, hadded⟩ := withFuzzy_spec d p hexact
  apply Ascending.sublist_of_subset (matching_pairwise_lt _ p hexact) (matching_pairwise_lt d p hexact)
  intro id hid
  unfold matching at hid ⊢
  rw [withFuzzy_without] at hid
  dsimp only at hid ⊢
  split
  · next hnone =>
    rw [if_pos hnone] at hid
    exact hadded id hid
  · next hsome =>
    have hle := hsizes.imp UInt64.le_of_lt
    rw [if_neg hsome, IdSet.mem_intersect id (hexact.imp UInt64.le_of_lt) hle] at hid
    rw [IdSet.mem_intersect id (hasc.imp UInt64.le_of_lt) hle]
    exact ⟨hadded id hid.1, hid.2⟩

theorem sizeIds_pairwise_lt (d : IndexDir) (p : Plan) : (sizeIds d p).Pairwise (· < ·) := by
  rw [sizeIds]
  cases p.size with
  | none => exact .nil
  | some f => exact sizeFilterIds_pairwise_lt d f.op f.bytes

theorem sizeIds_without (d : IndexDir) (p : Plan) : sizeIds (d.without (.fuzzy p.byPath)) p = sizeIds d p := by
  have hopen := Index.openIn_without_of_ne d (filter_ne_fuzzy p.byPath)
  rw [sizeIds, sizeIds]
  cases p.size with
  | none => rfl
  | some f => exact Index.sizeFilterIds_congr hopen f.op f.bytes

def tokenIds (m : TermMap) (p : Plan) : List FileId := IdSet.intersectAll ((Term.tokens p.target).map m.idsOf)

theorem tokenIds_pairwise_lt (m : TermMap) (p : Plan) : (tokenIds m p).Pairwise (· < ·) :=
  IdSet.intersectAll_pairwise (List.forall_mem_map.mpr fun t _ => m.idsOf_pairwise_lt t)

theorem mem_tokenIds (m : TermMap) (p : Plan) (id : FileId) :
    id ∈ tokenIds m p ↔ Term.tokens p.target ≠ [] ∧ ∀ t ∈ Term.tokens p.target, id ∈ m.get t := by
  have hasc : ∀ ids ∈ (Term.tokens p.target).map m.idsOf, ids.Pairwise (· ≤ ·) :=
    List.forall_mem_map.mpr fun t _ => (m.idsOf_pairwise_lt t).imp UInt64.le_of_lt
  rw [tokenIds, IdSet.mem_intersectAll id hasc, List.forall_mem_map]
  simp only [ne_eq, List.map_eq_nil_iff, TermMap.mem_idsOf]

/-- A plan that is not for a size alone is answered by what the exact family has, whatever else there is. -/
theorem candidates_of_reads {m : TermMap} (hwords : ¬ (p.size.isSome = true ∧ p.text = ""))
    (hexact : ∃ r, Reader.openIn d (.exact p.byPath) = .ok r ∧ Reads r m) :
    candidates d p = matching d p (tokenIds m p) (sizeIds d p) := by
  obtain ⟨r, hopen, hreads⟩ := hexact
  rw [candidates, if_neg (by simpa using hwords), hopen]
  simp only [exactIds_of_reads hreads]
  rfl

section
variable {m : TermMap} (hexact : ∃ r, Reader.openIn d (.exact p.byPath) = .ok r ∧ Reads r m)
include hexact

private theorem exact_without :
    ∃ r, Reader.openIn (d.without (.fuzzy p.byPath)) (.exact p.byPath) = .ok r ∧ Reads r m := by
  rwa [Index.openIn_without_of_ne d (exact_ne_fuzzy p.byPath)]

/-- What is proposed without n-grams is proposed with any, in the same order. -/
theorem candidates_without_sublist :
    (candidates (d.without (.fuzzy p.byPath)) p).Sublist (candidates d p) := by
  by_cases hblank : p.size.isSome = true ∧ p.text = ""
  · rw [candidates_of_size _ hblank, candidates_of_size _ hblank, sizeIds_without]
  · rw [candidates_of_reads hblank hexact, candidates_of_reads hblank (exact_without hexact), sizeIds_without]
    exact matching_without_sublist (tokenIds_pairwise_lt m p) (sizeIds_pairwise_lt d p)

/-- Where exact matches are many, n-grams do not count. -/
theorem candidates_without_of_many (hmany : p.limit * fuzzyPages ≤ (tokenIds m p).length) :
    candidates (d.without (.fuzzy p.byPath)) p = candidates d p := by
  by_cases hblank : p.size.isSome = true ∧ p.text = ""
  · rw [candidates_of_size _ hblank, candidates_of_size _ hblank, sizeIds_without]
  · rw [candidates_of_reads hblank hexact, candidates_of_reads hblank (exact_without hexact), sizeIds_without,
      matching, matching, withFuzzy_of_many hmany, withFuzzy_of_many hmany]

end

def answer (c : Catalog) (v : Volume) (p : Plan) (ids : List FileId) : Except Fault (List String) := do
  if p.byPath then
    match v.listing? p.target with
    | some paths => return paths
    | none => collect c p (← indexedDirectory c p.target) ids
  else collect c p none ids

theorem results_eq_answer (s : Source) (p : Plan) :
    results s p = answer s.catalog s.volume p (candidates s.index p) := by
  have hindexed : indexed s p = fun directory => collect s.catalog p directory (candidates s.index p) :=
    funext (indexed_eq_collect s p)
  unfold results answer
  cases s.volume.listing? p.target with
  | some paths => simp only [hindexed]
  | none => simp only [hindexed]

/-- Of fewer proposals in the same order fewer paths are found, in the same order. -/
theorem answer_sublist {c : Catalog} {v : Volume} {ids ids' : List FileId} (hids : ids.Sublist ids')
    {found : List String} (h : answer c v p ids' = .ok found) :
    ∃ kept, answer c v p ids = .ok kept ∧ kept.Sublist found := by
  unfold answer at h ⊢
  cases hpath : p.byPath with
  | false =>
    rw [hpath, if_neg Bool.false_ne_true] at h
    rw [if_neg Bool.false_ne_true]
    exact collect_sublist hids h
  | true =>
    rw [hpath, if_pos rfl] at h
    rw [if_pos rfl]
    cases hlisting : v.listing? p.target with
    | some paths =>
      rw [hlisting] at h
      exact ⟨found, h, .refl _⟩
    | none =>
      simp only [hlisting] at h ⊢
      cases hdirectory : indexedDirectory c p.target with
      | error fault =>
        rw [hdirectory] at h
        cases h
      | ok directory =>
        rw [hdirectory] at h
        exact collect_sublist hids h

/-- With an exact family as it was written of what was gathered, whatever the files of n-grams and of the
filter family are: what is found without n-grams is found with them, in the same order. There is an answer
when the store can be read, and it is the same with and without n-grams when the ids with all tokens are
enough for three pages. -/
theorem results_without_grams {s : Source} {r : Request} {g : Gathering} {d e : IndexDir} {count : Nat}
    (hwrite : Index.writeFamily d (.exact r.plan.byPath) g.map = (e, .ok count))
    (hsame : ∀ n ∈ (Family.exact r.plan.byPath).files, s.index.item? n = e.item? n) :
    let bare : Source := { s with index := s.index.without (.fuzzy r.plan.byPath) }
    (∀ found, results s r.plan = .ok found →
      ∃ kept, results bare r.plan = .ok kept ∧ kept.Sublist found) ∧
    (s.catalog.Readable → ∃ found, results s r.plan = .ok found) ∧
    ∀ matched : List FileId, matched.Nodup → Term.tokens r.plan.target ≠ [] →
      (∀ id ∈ matched, ∀ t ∈ Term.tokens r.plan.target, g.Added t id) →
      3 * (if r.limit = 0 then 100 else min r.limit 500) ≤ matched.length →
      results bare r.plan = results s r.plan := by
  intro bare
  have hexact := Index.openIn_of_writeFamily hwrite hsame
  refine ⟨fun found hfound => ?_, fun hc => exists_results_of_readable hc r.plan, ?_⟩
  · rw [results_eq_answer] at hfound ⊢
    exact answer_sublist (candidates_without_sublist hexact) hfound
  · intro matched hnodup htokens hadded hlong
    have hmatched : matched ⊆ tokenIds g.map r.plan := fun id hid =>
      (mem_tokenIds g.map r.plan id).mpr
        ⟨htokens, fun t ht => (g.mem_get_map t id).mpr (hadded id hid t ht)⟩
    have hmany : r.plan.limit * fuzzyPages ≤ (tokenIds g.map r.plan).length :=
      calc
        r.plan.limit * fuzzyPages = 3 * (if r.limit = 0 then 100 else min r.limit 500) := Nat.mul_comm _ _
        _ ≤ matched.length := hlong
        _ ≤ (tokenIds g.map r.plan).length := (List.subperm_of_subset hnodup hmatched).length_le
    rw [results_eq_answer, results_eq_answer]
    exact congrArg (answer s.catalog s.volume r.plan) (candidates_without_of_many hexact hmany)

def tours : Gathering := .add (.add (.add .nothing "tour" 3) "tour" 4) "tour" 5

/-- The n-grams are of another build, in which one of them led to another id. Of the filter family there is only
a damaged file. -/
def staleIndex : IndexDir := .files (Std.TreeMap.ofList [
  ("name.dict.json", IndexItem.file (.ofText "\x7b\"tour\":1\x7d")),
  ("name.postings.dat", IndexItem.file (.ofBytes [3, 3, 1, 1])),
  ("name.postings.idx", IndexItem.file (.ofBytes [0, 0, 0, 0, 0, 0, 0, 0, 4, 0, 0, 0])),
  ("name_ngram.dict.json", IndexItem.file (.ofText "\x7b\"ou\":1\x7d")),
  ("name_ngram.postings.dat", IndexItem.file (.ofBytes [1, 9])),
  ("name_ngram.postings.idx", IndexItem.file (.ofBytes [0, 0, 0, 0, 0, 0, 0, 0, 2, 0, 0, 0])),
  ("filter.dict.json", IndexItem.file (.ofBytes [0xff]))])

def stale : Source := ⟨staleIndex, ⟨Std.TreeMap.ofList [
  ("f:3", Entry.toBytes ⟨3, "/d/tour.gpx", "tour.gpx", "", 16, 0, false, false⟩),
  ("f:9", Entry.toBytes ⟨9, "/d/loud", "loud", "", 16, 0, false, false⟩)], {}⟩,
  ⟨.dir ⟨⟨1, 1, 0⟩, 0⟩ [], [], 2, 0⟩⟩

def tourRequest (limit : Nat) : Request := ⟨"tour", "/d", 0, limit, none⟩

theorem results_stale_grams :
    ∃ e : IndexDir, Index.writeFamily IndexDir.absent .name tours.map = (e, .ok 1) ∧
      (∀ n ∈ Family.name.files, stale.index.item? n = e.item? n) ∧
      results stale (tourRequest 0).plan = .ok ["/d/tour.gpx", "/d/loud"] ∧
      (∃ kept, results { stale with index := stale.index.without .nameNgram } (tourRequest 0).plan = .ok kept ∧
        kept.Sublist ["/d/tour.gpx", "/d/loud"]) ∧
      results { stale with index := stale.index.without .nameNgram } (tourRequest 1).plan =
        results stale (tourRequest 1).plan := by
  have hwrite : Index.writeFamily IndexDir.absent .name tours.map =
      ((Index.writeFamily IndexDir.absent .name tours.map).1, .ok 1) := Prod.ext rfl (by cbv)
  have hitems : Family.name.files.map staleIndex.item? =
      Family.name.files.map (Index.writeFamily IndexDir.absent .name tours.map).1.item? := by cbv
  have hsame : ∀ n ∈ Family.name.files, stale.index.item? n =
      (Index.writeFamily IndexDir.absent .name tours.map).1.item? n := List.map_inj_left.mp hitems
  have hfound : results stale (tourRequest 0).plan = .ok ["/d/tour.gpx", "/d/loud"] := by decide +kernel
  have htokens : Term.tokens (tourRequest 1).plan.target = ["tour"] := by decide +kernel
  obtain ⟨hkept, -, -⟩ := results_without_grams (s := stale) (r := tourRequest 0) hwrite hsame
  obtain ⟨-, -, hmany⟩ := results_without_grams (s := stale) (r := tourRequest 1) hwrite hsame
  refine ⟨_, hwrite, hsame, hfound, hkept _ hfound, hmany [3, 4, 5] (by decide) ?_ ?_ (by decide)⟩
  · rw [htokens]
    exact List.cons_ne_nil _ _
  · rw [htokens]
    simp [tours, Gathering.Added]

end Search

end VolumeSearch
