import Mathlib.Tactic.Common
import VolumeSearch.Proofs.Search.Candidates

namespace VolumeSearch.Search

/-- Where a sum stops at the largest machine word, any list that a machine holds has come to its end. -/
theorem slice_eq_page {paths : List String} (hlength : paths.length < UInt64.size) (offset limit : Nat) :
    slice paths offset limit = page paths offset limit := by
  rw [slice, page]
  split
  · next hbehind => rw [List.drop_eq_nil_of_le hbehind, List.take_nil]
  · have hstop : paths.take (min (min (offset + limit) (UInt64.size - 1)) paths.length) =
        paths.take (offset + limit) := by
      rw [List.take_eq_take_iff]
      omega
    dsimp only
    rw [hstop, List.drop_take, Nat.add_sub_cancel_left]

/-- Pages in a row show what stands before the end of the last one. -/
theorem flatten_pages (paths : List String) (length count : Nat) :
    ((List.range count).map fun i => page paths (i * length) length).flatten =
      paths.take (count * length) := by
  induction count with
  | zero => simp
  | succ count ih =>
    rw [List.range_succ, List.map_append, List.flatten_append, ih, Nat.succ_mul, List.take_add]
    simp [page]

variable {s : Source} {r : Request} {found : List String} {fault : Fault}

theorem plan_offset (r : Request) (offset : Nat) :
    Request.plan { r with offset := offset } = { r.plan with offset := offset } := by
  rw [Request.plan, Request.plan]

/-- Nothing on the way to what is found reads the offset of a plan: exact matches are counted against the limit
alone when approximate ones are added. -/
theorem results_offset (s : Source) (p : Plan) (offset : Nat) :
    results s { p with offset := offset } = results s p := rfl

theorem results_plan_offset (s : Source) (r : Request) (offset : Nat) :
    results s (Request.plan { r with offset := offset }) = results s r.plan := by
  rw [plan_offset, results_offset]

theorem search_offset_of_error (h : results s r.plan = .error fault) (offset : Nat) :
    search s { r with offset := offset } = .error fault ∧
      searchSliced s { r with offset := offset } = .error fault := by
  rw [search, searchSliced, results_plan_offset, h]
  exact ⟨rfl, rfl⟩

theorem search_offset (h : results s r.plan = .ok found) (offset : Nat) :
    search s { r with offset := offset } = .ok (page found offset (pageLimit r.limit)) :=
  search_of_results ((results_plan_offset s r offset).trans h)

/-- Cutting in machine words gives the same page. -/
theorem searchSliced_eq_search (h : results s r.plan = .ok found) (hlength : found.length < UInt64.size) :
    searchSliced s r = search s r := by
  rw [searchSliced, search, h]
  exact congrArg Except.ok (slice_eq_page hlength _ _)

theorem mapM_search_pages (h : results s r.plan = .ok found) (count : Nat) :
    ((List.range count).mapM fun i => search s { r with offset := i * pageLimit r.limit }) =
      .ok ((List.range count).map fun i => page found (i * pageLimit r.limit) (pageLimit r.limit)) :=
  mapM_ok _ fun i => search_offset h (i * pageLimit r.limit)

/-- Whatever is searched and asked for, either there is the same failure at every offset, or there is one list of
which each offset shows a page, however large the offset is. Cut in machine words the pages are the same, and
in a row they are the list. -/
theorem search_pages (s : Source) (r : Request) :
    let length := if r.limit = 0 then 100 else min r.limit 500
    (∃ fault, ∀ offset, search s { r with offset := offset } = .error fault ∧
      searchSliced s { r with offset := offset } = .error fault) ∨
    ∃ found : List String,
      (∀ offset, search s { r with offset := offset } = .ok ((found.drop offset).take length)) ∧
      (found.length < UInt64.size → ∀ offset,
        searchSliced s { r with offset := offset } = .ok ((found.drop offset).take length)) ∧
      ∀ count, found.length ≤ count * length → ∃ pages,
        ((List.range count).mapM fun i => search s { r with offset := i * length }) = .ok pages ∧
        pages.flatten = found := by
  intro length
  have hlength : length = pageLimit r.limit := rfl
  cases hresults : results s r.plan with
  | error fault => exact .inl ⟨fault, search_offset_of_error hresults⟩
  | ok found =>
    refine .inr ⟨found, search_offset hresults, fun hfew offset => ?_, fun count hcount => ?_⟩
    · rw [searchSliced_eq_search ((results_plan_offset s r offset).trans hresults) hfew]
      exact search_offset hresults offset
    · refine ⟨_, mapM_search_pages hresults count, ?_⟩
      rw [flatten_pages, ← hlength, List.take_of_length_le hcount]

def tracks : Source := ⟨.files (Std.TreeMap.ofList [
  ("name.dict.json", IndexItem.file (.ofText "\x7b\"a\":1\x7d")),
  ("name.postings.dat", IndexItem.file (.ofBytes [3, 3, 1, 1])),
  ("name.postings.idx", IndexItem.file (.ofBytes [0, 0, 0, 0, 0, 0, 0, 0, 4, 0, 0, 0]))]),
  ⟨Std.TreeMap.ofList [
    ("f:3", Entry.toBytes ⟨3, "/x/a", "a", "", 16, 0, false, false⟩),
    ("f:4", Entry.toBytes ⟨4, "/y/a", "a", "", 16, 0, false, false⟩),
    ("f:5", Entry.toBytes ⟨5, "/z/a", "a", "", 16, 0, false, false⟩)], {}⟩,
  ⟨.dir ⟨⟨1, 1, 0⟩, 0⟩ [], [], 2, 0⟩⟩

def twoTracks (offset : Nat) : Request := ⟨"a", "", offset, 2, none⟩

theorem search_two_tracks :
    (List.range 2).mapM (fun i => search tracks (twoTracks (i * 2))) = .ok [["/x/a", "/y/a"], ["/z/a"]] ∧
      [["/x/a", "/y/a"], ["/z/a"]].flatten = ["/x/a", "/y/a", "/z/a"] ∧
      searchSliced tracks (twoTracks (UInt64.size - 1)) = .ok [] ∧
      ∀ offset, searchSliced tracks (twoTracks offset) =
        .ok ((["/x/a", "/y/a", "/z/a"].drop offset).take 2) := by
  have hboth : (List.range 2).mapM (fun i => search tracks (twoTracks (i * 2))) =
      .ok [["/x/a", "/y/a"], ["/z/a"]] := by decide +kernel
  have hend : search tracks (twoTracks 4) = .ok [] := by decide +kernel
  obtain ⟨fault, hfault⟩ | ⟨found, hpage, hslice, hpages⟩ := search_pages tracks (twoTracks 0)
  · cases hend.symm.trans (hfault 4).1
  have hnone : (found.drop 4).take 2 = [] := Except.ok.inj ((hpage 4).symm.trans hend)
  have hshort : found.length ≤ 2 * 2 := by simpa using hnone
  obtain ⟨pages, hrow, hall⟩ := hpages 2 hshort
  obtain rfl : pages = [["/x/a", "/y/a"], ["/z/a"]] := Except.ok.inj (hrow.symm.trans hboth)
  obtain rfl : ["/x/a", "/y/a", "/z/a"] = found := hall
  have hcut := hslice (by decide)
  exact ⟨hboth, rfl, (hcut (UInt64.size - 1)).trans (by decide), hcut⟩

end VolumeSearch.Search
