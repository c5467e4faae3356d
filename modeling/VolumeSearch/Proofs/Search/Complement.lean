import Mathlib.Tactic.Common
import VolumeSearch.Proofs.Indexing.Histories
import VolumeSearch.Proofs.Query.FileSize
import VolumeSearch.Proofs.Search.BySize
import VolumeSearch.Proofs.SlashPath

namespace VolumeSearch

theorem Comparison.holds_inverse (op : Comparison) (a b : UInt64) : op.inverse.holds a b = !op.holds a b := by
  cases op with
  | eq => rfl
  | ne => exact (Bool.not_not _).symm
  | gt | ge | lt | le => simp [inverse, holds, ← decide_not, UInt64.not_lt, UInt64.not_le]

namespace Search
open Indexing (buildFilter)
open Entry (DistinctIds byId latest)
open Query (FilesQuery IsBare)
open VolumeSearch.Text

def requestIn (parent query : String) (offset limit : Nat) : Request :=
  { (FilesQuery.parse query).request offset limit with parent := parent }

variable {es : List Entry}

/-- A file whose path starts with the text of the directory, whether it is below it or beside it. -/
def IsFileIn (parent : String) (e : Entry) : Prop := e.isDir = false ∧ parent.toList <+: e.path.toList

/-- What a query for a size shows of a directory. -/
theorem shown_of_size {s : Source} (hc : s.catalog.Records es) (hids : DistinctIds es)
    (hfilter : Serves s.index es .filter) {parent query : String} (hparent : '\\' ∉ parent.toList)
    {f : SizeFilter} (hquery : FilesQuery.parse query = {fileSize := some f}) (offset limit : Nat) :
    results s (requestIn parent query offset limit).plan =
      .ok ((shown s (requestIn parent query offset limit).plan).map Entry.path) ∧
    ∀ e, e ∈ shown s (requestIn parent query offset limit).plan ↔
      e ∈ es ∧ IsFileIn parent e ∧ f.accepts e.size = true := by
  have htext : (requestIn parent query offset limit).text = "" := by rw [requestIn, hquery]; rfl
  have hsize : (requestIn parent query offset limit).size = some f := by rw [requestIn, hquery]; rfl
  have hdirectory : (requestIn parent query offset limit).parent = parent := rfl
  generalize requestIn parent query offset limit = r at htext hsize hdirectory
  have hblank : trim r.text = "" := by
    rw [htext]
    decide
  have hwords : r.plan.byPath = false := by simp [Request.plan, hblank]
  refine ⟨results_of_words (readable_of_records hc) hwords, fun e => ?_⟩
  rw [shown_by_size hc hids hfilter hblank hsize, List.mem_filter, Entry.mem_byId, hsize, hdirectory,
    SlashPath.slashes_of_not_mem hparent]
  simp only [hasSize, IsFileIn, Bool.and_eq_true, Bool.not_eq_true', List.isPrefixOf_iff_prefix, and_assoc]
  exact and_congr_right fun _ => and_congr_right fun _ => and_comm

/-- Two lists that have the entries of a kind between them, by a test that each of these passes or fails. -/
private theorem ids_parted (hids : DistinctIds es) {found others : List Entry} {kind : Entry → Prop}
    {test : Entry → Bool} (hfound : ∀ e, e ∈ found ↔ e ∈ es ∧ kind e ∧ test e = true)
    (hothers : ∀ e, e ∈ others ↔ e ∈ es ∧ kind e ∧ test e = false) :
    (∀ e ∈ found, ∀ o ∈ others, e.id ≠ o.id) ∧
      ∀ id, (∃ e ∈ found ++ others, e.id = id) ↔ ∃ e ∈ es, kind e ∧ e.id = id := by
  constructor
  · intro e he o ho hsame
    obtain ⟨hein, -, hpassed⟩ := (hfound e).mp he
    obtain ⟨hoin, -, hfailed⟩ := (hothers o).mp ho
    obtain rfl := Entry.eq_of_id_eq hids hein hoin hsame
    exact Bool.false_ne_true (hfailed.symm.trans hpassed)
  · intro id
    constructor
    · rintro ⟨e, he, hid⟩
      rcases List.mem_append.mp he with he | he
      · obtain ⟨hein, hkind, -⟩ := (hfound e).mp he
        exact ⟨e, hein, hkind, hid⟩
      · obtain ⟨hein, hkind, -⟩ := (hothers e).mp he
        exact ⟨e, hein, hkind, hid⟩
    · rintro ⟨e, hein, hkind, hid⟩
      cases htest : test e with
      | true => exact ⟨e, List.mem_append_left _ ((hfound e).mpr ⟨hein, hkind, htest⟩), hid⟩
      | false => exact ⟨e, List.mem_append_right _ ((hothers e).mpr ⟨hein, hkind, htest⟩), hid⟩

/-- After any history, once the filter family is built, a bare text is asked for as a size in a directory, as it
stands and after `NOT`. No id is in both answers, and the ids in them are those of the records of files whose
path starts with the directory. What the text says about a size, if anything, does not matter. -/
theorem search_complement {history : List Entry} {d d' : IndexDir} {count : Nat}
    (hbuild : buildFilter d (Catalog.empty.persistAll history) = (d', .ok count)) (v : Volume)
    {parent value : String} (hparent : '\\' ∉ parent.toList) (hbare : IsBare value.toList)
    (hlist : ∀ list, value ≠ "in(" ++ list ++ ")" ∧ value ≠ "nin(" ++ list ++ ")") (offset limit : Nat) :
    let s : Source := ⟨d', Catalog.empty.persistAll history, v⟩
    let plan (query : String) : Plan := (requestIn parent query offset limit).plan
    let found := shown s (plan ("file_size:" ++ value))
    let others := shown s (plan ("NOT file_size:" ++ value))
    results s (plan ("file_size:" ++ value)) = .ok (found.map Entry.path) ∧
    results s (plan ("NOT file_size:" ++ value)) = .ok (others.map Entry.path) ∧
    (∀ e ∈ found, ∀ o ∈ others, e.id ≠ o.id) ∧
    ∀ id, (∃ e ∈ found ++ others, e.id = id) ↔
      ∃ e, s.catalog.load id = .ok (some e) ∧ e.isDir = false ∧ parent.toList <+: e.path.toList := by
  intro s plan found others
  have hids := Entry.distinctIds_latest history
  have hlast := Catalog.records_persistAll history
  obtain ⟨met, hentries, hmet, hmem⟩ := hlast.entries (Catalog.keyedById_persistAll history) hids
  have hrecords : s.catalog.Records met := hlast.congr hids hmet hmem
  have hserves : Serves s.index met .filter := serves_of_buildFilter hbuild hentries fun _ _ => rfl
  obtain ⟨op, bytes, hplain, hnegated⟩ := Query.parse_file_size hbare hlist
  obtain ⟨hresults, hfound⟩ := shown_of_size hrecords hmet hserves hparent hplain offset limit
  obtain ⟨hresults', hothers⟩ := shown_of_size hrecords hmet hserves hparent hnegated offset limit
  -- the opposite comparison accepts what the plain one does not
  have hopposite (e : Entry) : (⟨op.inverse, bytes⟩ : SizeFilter).accepts e.size = true ↔
      (⟨op, bytes⟩ : SizeFilter).accepts e.size = false := by
    rw [SizeFilter.accepts, op.holds_inverse, Bool.not_eq_true']
    rfl
  simp only [hopposite] at hothers
  obtain ⟨hapart, hunion⟩ := ids_parted hmet hfound hothers
  refine ⟨hresults, hresults', hapart, fun id => (hunion id).trans ?_⟩
  have hload (e : Entry) : s.catalog.load id = .ok (some e) ↔ e ∈ met ∧ e.id = id := by
    rw [hrecords.load, ← Entry.withId?_eq_some hmet]
    exact ⟨Except.ok.inj, congrArg Except.ok⟩
  constructor
  · rintro ⟨e, he, hfile, hid⟩
    exact ⟨e, (hload e).mpr ⟨he, hid⟩, hfile⟩
  · rintro ⟨e, he, hfile⟩
    obtain ⟨hein, hid⟩ := (hload e).mp he
    exact ⟨e, hein, hfile, hid⟩

def shelved : List Entry :=
  [⟨1, "/a", "a", "", 0, 0, true, false⟩, ⟨2, "/a/x", "x", "", 10, 0, false, false⟩,
    ⟨3, "/a/y", "y", "", 4096, 0, false, false⟩, ⟨4, "/b/z", "z", "", 4096, 0, false, false⟩]

private theorem mem_shelved_in_directory (e : Entry) :
    e ∈ shelved ∧ IsFileIn "/a" e ↔ e = shelved[1] ∨ e = shelved[2] := by
  have hfour : e ∈ shelved ↔ e = shelved[0] ∨ e = shelved[1] ∨ e = shelved[2] ∨ e = shelved[3] := by
    simp [shelved]
  rw [hfour]
  constructor
  · rintro ⟨rfl | rfl | rfl | rfl, hfile, hpath⟩
    · cases hfile
    · exact .inl rfl
    · exact .inr rfl
    · exact absurd hpath (by decide)
  · rintro (rfl | rfl)
    · exact ⟨.inr (.inl rfl), rfl, by decide⟩
    · exact ⟨.inr (.inr (.inl rfl)), rfl, by decide⟩

theorem search_complement_above_kilobyte :
    '\\' ∉ "/a".toList ∧ IsBare ">1kb".toList ∧
    (∀ list, ">1kb" ≠ "in(" ++ list ++ ")" ∧ ">1kb" ≠ "nin(" ++ list ++ ")") ∧
    ∃ d' count, buildFilter .absent (Catalog.empty.persistAll shelved) = (d', .ok count) ∧
      ∀ v, ∃ found others : List Entry,
        results ⟨d', Catalog.empty.persistAll shelved, v⟩
          (requestIn "/a" ("file_size:" ++ ">1kb") 0 0).plan = .ok (found.map Entry.path) ∧
        results ⟨d', Catalog.empty.persistAll shelved, v⟩
          (requestIn "/a" ("NOT file_size:" ++ ">1kb") 0 0).plan = .ok (others.map Entry.path) ∧
        (∀ e ∈ found, ∀ o ∈ others, e.id ≠ o.id) ∧
        ∀ id, (∃ e ∈ found ++ others, e.id = id) ↔ id = 2 ∨ id = 3 := by
  have hparent : '\\' ∉ "/a".toList := by decide
  have hbare : IsBare ">1kb".toList := by decide
  have hlist (list : String) : ">1kb" ≠ "in(" ++ list ++ ")" ∧ ">1kb" ≠ "nin(" ++ list ++ ")" := by
    constructor <;> exact fun heq => absurd (congrArg String.toList heq) (by simp)
  have hids : DistinctIds shelved := by
    unfold DistinctIds
    decide
  have hlast : latest shelved = shelved := Entry.lastBy_of_nodup _ hids
  have hfew : Postings.Varint.maxLength *
      (((latest shelved).map fun e => (Family.filter.terms e).length).sum + 1) < Index.wordLimit := by
    cbv
  obtain ⟨d', count, hbuild⟩ := Indexing.buildFilter_of_few (Index.ready_absent .filter) hfew
  refine ⟨hparent, hbare, hlist, d', count, hbuild, fun v => ?_⟩
  obtain ⟨hfound, hothers, hapart, hunion⟩ := search_complement hbuild v hparent hbare hlist 0 0
  refine ⟨_, _, hfound, hothers, hapart, fun id => (hunion id).trans ?_⟩
  have hload (e : Entry) : (Catalog.empty.persistAll shelved).load id = .ok (some e) ↔
      e ∈ shelved ∧ e.id = id := by
    rw [(Catalog.records_persistAll shelved).load, hlast, ← Entry.withId?_eq_some hids]
    exact ⟨Except.ok.inj, congrArg Except.ok⟩
  constructor
  · rintro ⟨e, he, hrest⟩
    obtain ⟨hein, rfl⟩ := (hload e).mp he
    rcases (mem_shelved_in_directory e).mp ⟨hein, hrest⟩ with rfl | rfl
    · exact .inl rfl
    · exact .inr rfl
  · rintro (rfl | rfl)
    · obtain ⟨hein, hrest⟩ := (mem_shelved_in_directory shelved[1]).mpr (.inl rfl)
      exact ⟨shelved[1], (hload _).mpr ⟨hein, rfl⟩, hrest⟩
    · obtain ⟨hein, hrest⟩ := (mem_shelved_in_directory shelved[2]).mpr (.inr rfl)
      exact ⟨shelved[2], (hload _).mpr ⟨hein, rfl⟩, hrest⟩

end Search

end VolumeSearch
