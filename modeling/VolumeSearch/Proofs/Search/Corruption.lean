import Mathlib.Tactic.Common
import VolumeSearch.Proofs.Search.Candidates

namespace VolumeSearch.Search
open VolumeSearch.Text

variable {s : Source}

private theorem parent_prefix_of_passes {p : Plan} {e : Entry} (hwords : p.byPath = false)
    (h : passes p none e = true) : p.parent.toList <+: e.path.toList := by
  rw [passes, Bool.and_eq_true, inScope_of_words hwords] at h
  exact List.isPrefixOf_iff_prefix.mp h.2

private theorem size_of_passes {p : Plan} {directory : Option String} {e : Entry} {f : SizeFilter}
    (h : passes p directory e = true) (hsize : p.size = some f) :
    e.isDir = false ∧ f.accepts e.size = true := by
  rw [passes, hsize, Bool.and_eq_true, Bool.and_eq_true, Bool.not_eq_true'] at h
  exact h.1

/-- Whatever the files of the index and the values of the store hold, a search over a store that can
be read gives an answer. Where the volume is not the answer, it is a page of paths that stand in
entries of the store, each in scope and of the right size. -/
theorem search_any_contents (hc : s.catalog.Readable) (r : Request) :
    ∃ paths, search s r = .ok paths ∧
      (('/' ∈ (trim r.text).toList → s.volume.listing? r.plan.target = none) →
        paths.length ≤ (if r.limit = 0 then 100 else min r.limit 500) ∧
        ∀ path ∈ paths, ∃ id e, s.catalog.entryAt? id = some e ∧ e.path = path ∧
          ('/' ∉ (trim r.text).toList →
            (SlashPath.slashes r.parent).toList <+: path.toList) ∧
          ∀ f, r.size = some f → e.isDir = false ∧ f.accepts e.size = true) := by
  have hslash := byPath_plan r
  by_cases hlisting : r.plan.byPath = true → s.volume.listing? r.plan.target = none
  · obtain ⟨directory, hdirectory, hresults⟩ := results_of_readable hc hlisting
    refine ⟨_, search_of_results hresults, fun _ => ⟨List.length_take_le _ _, fun path hpath => ?_⟩⟩
    obtain ⟨e, he, rfl⟩ := List.mem_map.mp (List.mem_of_mem_drop (List.mem_of_mem_take hpath))
    obtain ⟨hproposed, hpasses⟩ := List.mem_filter.mp he
    obtain ⟨id, -, hid⟩ := List.mem_filterMap.mp hproposed
    refine ⟨id, e, hid, rfl, fun hno => ?_, fun f hf => size_of_passes hpasses hf⟩
    have hwords : r.plan.byPath = false := by rw [plan_of_words hno]
    rw [hdirectory hwords] at hpasses
    have hparent : r.plan.parent = SlashPath.slashes r.parent := rfl
    rw [← hparent]
    exact parent_prefix_of_passes hwords hpasses
  · -- the volume is the answer, so nothing more is claimed of it
    obtain ⟨hpath, hsome⟩ := Classical.not_imp.mp hlisting
    obtain ⟨paths, hpaths⟩ := Option.ne_none_iff_exists'.mp hsome
    have hresults : results s r.plan = .ok paths := by
      rw [results, hpath, if_pos rfl, hpaths]
      rfl
    exact ⟨_, search_of_results hresults, fun h => absurd (fun _ => h (hslash.mp hpath)) hlisting⟩

/-- Of one family the dictionary names a term with two ids; of its n-grams there is only a damaged
file, and of the other families nothing. -/
def damagedIndex : IndexDir := .files (Std.TreeMap.ofList [
  ("name.dict.json", IndexItem.file (.ofText "\x7b\"a\":1\x7d")),
  ("name.postings.dat", IndexItem.file (.ofBytes [2, 5, 1])),
  ("name.postings.idx", IndexItem.file (.ofBytes [0, 0, 0, 0, 0, 0, 0, 0, 3, 0, 0, 0])),
  ("name_ngram.dict.json", IndexItem.file (.ofBytes [0xff]))])

def damagedCatalog : Catalog := ⟨Std.TreeMap.ofList [
  ("f:5", [0]),
  ("f:6", Entry.toBytes ⟨7, "/d/a", "a", "", 16, 0, false, false⟩)], {}⟩

def damaged : Source := ⟨damagedIndex, damagedCatalog, ⟨.dir ⟨⟨1, 1, 0⟩, 0⟩ [], [], 2, 0⟩⟩

def damagedRequest : Request := ⟨"a", "/d", 0, 0, none⟩

theorem search_damaged :
    damaged.catalog.Readable ∧ '/' ∉ (trim damagedRequest.text).toList ∧
    search damaged damagedRequest = .ok ["/d/a"] ∧
    ∃ id e, damaged.catalog.entryAt? id = some e ∧ e.path = "/d/a" ∧
      (SlashPath.slashes damagedRequest.parent).toList <+: "/d/a".toList := by
  have hreadable : damaged.catalog.Readable := fun _ => rfl
  have htext : trim damagedRequest.text = "a" := by decide +kernel
  have hslash : '/' ∉ (trim damagedRequest.text).toList := by
    rw [htext]
    decide
  have hfound : search damaged damagedRequest = .ok ["/d/a"] := by decide +kernel
  obtain ⟨paths, hsearch, hpaths⟩ := search_any_contents hreadable damagedRequest
  obtain rfl : paths = ["/d/a"] := Except.ok.inj (hsearch.symm.trans hfound)
  obtain ⟨-, hall⟩ := hpaths fun h => absurd h hslash
  obtain ⟨id, e, hid, hpath, hparent, -⟩ := hall _ List.mem_cons_self
  exact ⟨hreadable, hslash, hfound, id, e, hid, hpath, hparent hslash⟩

end VolumeSearch.Search
