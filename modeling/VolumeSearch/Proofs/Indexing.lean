import Mathlib.Tactic.Common
import VolumeSearch.Indexing
import VolumeSearch.Proofs.Catalog.Records
import VolumeSearch.Proofs.Index.Writing

namespace VolumeSearch

def TermMap.ofEntries (f : Family) (es : List Entry) : TermMap :=
  es.foldl (fun m e => m.addEntry f e) .empty

namespace TermMap

private theorem mem_get_foldl_addEntry (f : Family) (es : List Entry) (m : TermMap) (t : String)
    (id : FileId) : id ∈ (es.foldl (fun m e => m.addEntry f e) m).get t ↔
      id ∈ m.get t ∨ ∃ e ∈ es, t ∈ f.terms e ∧ e.id = id := by
  induction es generalizing m with
  | nil => simp
  | cons e rest ih =>
    rw [List.foldl_cons, ih, mem_get_addEntry]
    simp only [List.mem_cons, exists_eq_or_imp]
    grind

theorem mem_idsOf_ofEntries (f : Family) (es : List Entry) (t : String) (id : FileId) :
    id ∈ (ofEntries f es).idsOf t ↔ ∃ e ∈ es, t ∈ f.terms e ∧ e.id = id := by
  rw [mem_idsOf, ofEntries, mem_get_foldl_addEntry, get_empty]
  simp

theorem filled_ofEntries (f : Family) (es : List Entry) : (ofEntries f es).Filled := by
  rw [ofEntries]
  induction es using List.reverseRecOn with
  | nil => exact filled_empty
  | append_singleton es e ih =>
    rw [List.foldl_append]
    exact ih.addEntry f e

theorem idsOf_ofEntries {es : List Entry} (h : Entry.DistinctIds es) (f : Family) (t : String) :
    (ofEntries f es).idsOf t = Entry.idsWhere es fun e => (f.terms e).contains t := by
  refine Entry.eq_idsWhere h _ (idsOf_pairwise_lt _ t) fun id => ?_
  rw [mem_idsOf_ofEntries]
  simp

/-- The map has no more than so many terms, and no more than so many ids under one. -/
private def AtMost (m : TermMap) (n : Nat) : Prop := m.size ≤ n ∧ ∀ t, (m.get t).length ≤ n

private theorem AtMost.add {m : TermMap} {n : Nat} (h : m.AtMost n) (term : String) (id : FileId) :
    (m.add term id).AtMost (n + 1) := by
  have hsize : (m.add term id).size ≤ m.size + 1 := Std.TreeMap.size_insert_le
  refine ⟨hsize.trans (Nat.succ_le_succ h.1), fun t => ?_⟩
  rw [TermMap.add, get_addAll]
  split
  · rw [List.length_append]
    exact Nat.succ_le_succ (h.2 t)
  · exact Nat.le_succ_of_le (h.2 t)

private theorem AtMost.addEntry {m : TermMap} {n : Nat} (h : m.AtMost n) (f : Family) (e : Entry) :
    (m.addEntry f e).AtMost (n + (f.terms e).length) := by
  rw [TermMap.addEntry]
  induction f.terms e generalizing m n with
  | nil => exact h
  | cons term rest ih =>
    rw [List.foldl_cons, List.length_cons, Nat.add_comm rest.length, ← Nat.add_assoc]
    exact ih (h.add term e.id)

private theorem AtMost.foldl_addEntry {m : TermMap} {n : Nat} (h : m.AtMost n) (f : Family)
    (es : List Entry) : (es.foldl (fun m e => m.addEntry f e) m).AtMost
      (n + (es.map fun e => (f.terms e).length).sum) := by
  induction es generalizing m n with
  | nil => exact h
  | cons e rest ih =>
    rw [List.foldl_cons, List.map_cons, List.sum_cons, ← Nat.add_assoc]
    exact ih (h.addEntry f e)

theorem fits_ofEntries {f : Family} {es : List Entry}
    (h : Postings.Varint.maxLength * ((es.map fun e => (f.terms e).length).sum + 1) < Index.wordLimit) :
    Index.Fits (.ofEntries f es) := by
  have hempty : TermMap.empty.AtMost 0 := ⟨Nat.le_refl 0, fun _ => Nat.le_refl 0⟩
  obtain ⟨hsize, hget⟩ := hempty.foldl_addEntry f es
  rw [Nat.zero_add] at hsize hget
  have hpositive : 0 < Postings.Varint.maxLength := by decide
  have hterms := (Nat.le_mul_of_pos_left _ hpositive).trans_lt h
  refine Index.fits_of_lengths (hsize.trans_lt ((Nat.lt_succ_self _).trans hterms)) fun t _ => ?_
  exact (Nat.mul_le_mul_left _ (Nat.succ_le_succ (hget t))).trans_lt h

end TermMap

namespace Indexing
open Index (Fits Ready Holds Reads filesOf)

def recorded (es : List Entry) : Catalog × Harvest := es.foldl recordEntry (.empty, {})

def termMaps (es : List Entry) : List (Family × TermMap) :=
  textMaps (recorded es).2.terms ++ [(.filter, filterTerms es)]

/-- A catalog that works records every entry, so every entry gives its terms. -/
theorem foldl_recordEntry {c : Catalog} (hworks : c.store.outage = {}) (h : Harvest)
    (es : List Entry) :
    es.foldl recordEntry (c, h) = (c.persistAll es, es.foldl Harvest.addEntry h) := by
  induction es generalizing c h with
  | nil => rfl
  | cons e rest ih =>
    have hpersist := Catalog.persist_eq hworks e
    have hstep : recordEntry (c, h) e = ((c.persist e).1, h.addEntry e) := by
      simp only [recordEntry, hpersist]
    have hnext : (c.persist e).1.store.outage = {} := by rw [hpersist]
    rw [List.foldl_cons, hstep, ih hnext]
    rfl

private theorem terms_foldl_addEntry (h : Harvest) (es : List Entry) :
    (es.foldl Harvest.addEntry h).terms =
      ⟨es.foldl (fun m e => m.addEntry .name e) h.terms.name,
        es.foldl (fun m e => m.addEntry .path e) h.terms.path,
        es.foldl (fun m e => m.addEntry .nameNgram e) h.terms.nameNgram,
        es.foldl (fun m e => m.addEntry .pathNgram e) h.terms.pathNgram⟩ := by
  induction es generalizing h with
  | nil => rfl
  | cons e rest ih => exact ih (h.addEntry e)

/-- The text families have the terms of all entries, also of those whose record was replaced. -/
theorem textMaps_foldl_addEntry (es : List Entry) :
    textMaps (es.foldl Harvest.addEntry {}).terms =
      Family.text.map fun f => (f, TermMap.ofEntries f es) := by
  rw [terms_foldl_addEntry]
  rfl

private structure Recorded (state : Catalog × Harvest) (es : List Entry) : Prop where
  records : state.1.Records es
  reverses : Entry.DistinctPaths es → state.1.Reverses es
  terms : textMaps state.2.terms = Family.text.map fun f => (f, TermMap.ofEntries f es)

private theorem recorded_spec {es : List Entry} (hids : Entry.DistinctIds es) :
    Recorded (recorded es) es := by
  have hlatest : Entry.latest es = es := Entry.lastBy_of_nodup Entry.id hids
  rw [recorded, foldl_recordEntry rfl]
  refine ⟨?_, fun hpaths => ?_, textMaps_foldl_addEntry es⟩
  · have hrecords := Catalog.records_persistAll es
    rwa [hlatest] at hrecords
  · have hreverses := Catalog.reverses_persistAll es
    rwa [Entry.lastBy_of_nodup Entry.path hpaths] at hreverses

/-- The catalog has every entry under its id, and with distinct paths every id under its path. -/
theorem recorded_catalog {es : List Entry} (hids : Entry.DistinctIds es) :
    (recorded es).1.Records es ∧ (Entry.DistinctPaths es → (recorded es).1.Reverses es) :=
  ⟨(recorded_spec hids).records, (recorded_spec hids).reverses⟩

theorem termMaps_eq {es : List Entry} (hids : Entry.DistinctIds es) :
    termMaps es = Family.all.map fun f => (f, TermMap.ofEntries f es) := by
  rw [termMaps, (recorded_spec hids).terms]
  rfl

/-- Distinct families are written one after the other, and none changes the files of another. -/
theorem writeFamilies_of_fits {d : IndexDir} (maps : List (Family × TermMap))
    (hdistinct : (maps.map (·.1)).Nodup) (hfits : ∀ p ∈ maps, Fits p.2)
    (hready : ∀ p ∈ maps, Ready d p.1) (written : List (Family × Nat)) :
    ∃ d', writeFamilies d written maps = (d', .ok (written ++ maps.map fun p => (p.1, p.2.size))) ∧
      (∀ p ∈ maps, Holds d' p.1 (filesOf p.2)) ∧
      ∀ n, (∀ p ∈ maps, n ∉ Index.ownNames p.1) → d'.item? n = d.item? n := by
  -- the families still to come find nothing changed under their own names
  induction maps generalizing d written with
  | nil => exact ⟨d, by simp [writeFamilies], by simp, fun n _ => rfl⟩
  | cons p rest ih =>
    obtain ⟨f, m⟩ := p
    obtain ⟨hf, hrest⟩ := List.nodup_cons.mp hdistinct
    obtain ⟨d₁, hwrite, hholds, hready₁, hkept⟩ :=
      Index.writeFamily_of_fits (hfits (f, m) (by simp)) (hready (f, m) (by simp))
    have hne {p : Family × TermMap} (hp : p ∈ rest) : p.1 ≠ f := fun he =>
      hf (List.mem_map.mpr ⟨p, hp, he⟩)
    have hready₂ : ∀ p ∈ rest, Ready d₁ p.1 := fun p hp =>
      (hready p (by simp [hp])).congr hready₁.notBlocked fun n hn =>
        hkept n (Index.ownNames_disjoint (hne hp) n hn)
    obtain ⟨d', hall, hothers, hkept'⟩ :=
      ih hrest (fun p hp => hfits p (by simp [hp])) hready₂ (written ++ [(f, m.size)])
    refine ⟨d', ?_, ?_, ?_⟩
    · simp only [writeFamilies, writeFamily, hwrite, Except.mapError, hall, List.map_cons,
        List.append_assoc, List.singleton_append]
    · intro p hp
      rcases List.mem_cons.mp hp with rfl | hp
      · refine hholds.congr fun n hn => hkept' n fun q hq => ?_
        exact Index.ownNames_disjoint (hne hq).symm n (List.mem_append_left _ hn)
      · exact hothers p hp
    · intro n hn
      rw [hkept' n fun p hp => hn p (by simp [hp]), hkept n (hn (f, m) (by simp))]

/-- Families of entries are written, and then hold the terms of the entries. -/
theorem writeFamilies_ofEntries {es : List Entry} {d : IndexDir} {fs : List Family} (hfs : fs.Nodup)
    (hfits : ∀ f ∈ fs, Fits (.ofEntries f es)) (hready : ∀ f ∈ fs, Ready d f) :
    ∃ d', writeFamilies d [] (fs.map fun f => (f, TermMap.ofEntries f es)) =
        (d', .ok (fs.map fun f => (f, (TermMap.ofEntries f es).size))) ∧
      ∀ f ∈ fs, Holds d' f (filesOf (.ofEntries f es)) := by
  let maps : List (Family × TermMap) := fs.map fun f => (f, .ofEntries f es)
  have hdistinct : (maps.map (·.1)).Nodup := by
    have hfamilies : maps.map (·.1) = fs := by
      rw [List.map_map]
      exact List.map_id' fs
    rwa [hfamilies]
  have hspec : ∀ p ∈ maps, Fits p.2 ∧ Ready d p.1 := by
    intro p hp
    obtain ⟨f, hf, rfl⟩ := List.mem_map.mp hp
    exact ⟨hfits f hf, hready f hf⟩
  obtain ⟨d', hwrite, hholds, -⟩ := writeFamilies_of_fits maps hdistinct
    (fun p hp => (hspec p hp).1) (fun p hp => (hspec p hp).2) []
  refine ⟨d', ?_, fun f hf => hholds (f, .ofEntries f es) (List.mem_map_of_mem hf)⟩
  rw [hwrite, List.nil_append, List.map_map]
  rfl

theorem writeFamilies_termMaps {es : List Entry} {d : IndexDir} (hids : Entry.DistinctIds es)
    (hfits : ∀ f, Fits (.ofEntries f es)) (hready : ∀ f, Ready d f) :
    ∃ d', writeFamilies d [] (termMaps es) =
        (d', .ok (Family.all.map fun f => (f, (TermMap.ofEntries f es).size))) ∧
      ∀ f, Holds d' f (filesOf (.ofEntries f es)) := by
  have hnodup : Family.all.Nodup := by decide
  obtain ⟨d', hwrite, hholds⟩ :=
    writeFamilies_ofEntries hnodup (fun f _ => hfits f) (fun f _ => hready f)
  rw [termMaps_eq hids]
  exact ⟨d', hwrite, fun f => hholds f (by cases f <;> decide)⟩

/-- What a pass over entries writes: the text families of these, and the filter family of all that are
met in the store. -/
def passMaps (es met : List Entry) : List (Family × TermMap) :=
  (Family.text.map fun f => (f, .ofEntries f es)) ++ [(.filter, filterTerms met)]

theorem passMaps_nodup (es met : List Entry) : ((passMaps es met).map (·.1)).Nodup := by
  have hfamilies : (passMaps es met).map (·.1) = Family.all := rfl
  rw [hfamilies]
  decide

variable {σ : Type} [Index.Shelf σ]

theorem writeFamilies_append (d : σ) (written : List (Family × Nat)) (maps more : List (Family × TermMap)) :
    writeFamilies d written (maps ++ more) =
      match writeFamilies d written maps with
      | (d, .ok written) => writeFamilies d written more
      | (d, .error failure) => (d, .error failure) := by
  induction maps generalizing d written with
  | nil => rfl
  | cons p rest ih =>
    obtain ⟨f, m⟩ := p
    simp only [List.cons_append, writeFamilies]
    cases writeFamily d f m with
    | mk d r =>
      cases r with
      | error failure => rfl
      | ok count => exact ih d _

/-- Finishing a pass leaves the store as it is, whatever goes wrong. -/
theorem catalog_finish (c : Catalog) (d : σ) (h : Harvest) : (finish c d h).catalog = c := by
  unfold finish
  split
  · rfl
  · split
    · rfl
    · split <;> rfl

/-- When the store can be flushed and gone through, finishing a pass is writing five families, the last one of
all that the store holds, and reporting the harvest. -/
theorem finish_of_entries {c : Catalog} (hflush : c.flush = .ok ()) {entries : List Entry}
    (hentries : c.entries = .ok entries) (d : σ) (h : Harvest) :
    writeFamilies d [] (textMaps h.terms ++ [(.filter, filterTerms entries)]) =
      ((finish c d h).index, (finish c d h).result.map Report.families) ∧
    ∀ report, (finish c d h).result = .ok report → report.entries = h.entries ∧ report.skipped = h.skipped := by
  rw [writeFamilies_append]
  simp only [finish, hflush, buildFilter, hentries]
  cases writeFamilies d [] (textMaps h.terms) with
  | mk d r =>
    cases r with
    | error failure => exact ⟨rfl, fun report hreport => by cases hreport⟩
    | ok written =>
      simp only [writeFamilies]
      cases writeFamily d .filter (filterTerms entries) with
      | mk d r =>
        cases r with
        | error failure => exact ⟨rfl, fun report hreport => by cases hreport⟩
        | ok count =>
          refine ⟨rfl, fun report hreport => ?_⟩
          obtain rfl := Except.ok.inj hreport
          exact ⟨rfl, rfl⟩

/-- With a catalog that works a pass can be finished. -/
theorem finish_spec {c : Catalog} (hworks : c.store.outage = {}) (d : σ) (h : Harvest) :
    ∃ entries, c.entries = .ok entries ∧ (finish c d h).catalog = c ∧
      writeFamilies d [] (textMaps h.terms ++ [(.filter, filterTerms entries)]) =
        ((finish c d h).index, (finish c d h).result.map Report.families) := by
  have hflush : c.flush = .ok () := by simp [Catalog.flush, Store.flush, hworks]
  cases hentries : c.entries with
  | error fault => simp [Catalog.entries, Store.withStem, hworks, Except.map] at hentries
  | ok entries =>
    exact ⟨entries, rfl, catalog_finish c d h, (finish_of_entries hflush hentries d h).1⟩

end Indexing

end VolumeSearch
