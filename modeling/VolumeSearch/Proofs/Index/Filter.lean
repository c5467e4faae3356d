import Mathlib.Tactic.Common
import VolumeSearch.Index.Reader
import VolumeSearch.Proofs.Entry.Buckets
import VolumeSearch.Proofs.Index.ReadBack
import VolumeSearch.Proofs.Indexing
import VolumeSearch.Proofs.Text.Numeral

/-! The filter family selects entries by extension, size and time. A term of one of the three kinds is none of
another, so under a term are the entries that have it for what it says. -/
namespace VolumeSearch
open VolumeSearch.Text

theorem head?_extTerm (ext : String) : (extTerm ext).toList.head? = some 'e' := by
  rw [extTerm, String.toList_append]
  rfl

theorem SizeBucket.head?_term (b : SizeBucket) : b.term.toList.head? = some 's' := by
  rw [term, String.toList_append]
  rfl

theorem head?_monthTerm (month : Int) : (monthTerm month).toList.head? = some 'm' := by
  rw [monthTerm, String.toList_append]
  rfl

theorem extTerm_inj {ext ext' : String} : extTerm ext = extTerm ext' ↔ lowercase ext = lowercase ext' := by
  rw [extTerm, extTerm, ← String.toList_inj, String.toList_append, String.toList_append,
    List.append_cancel_left_eq, String.toList_inj]

namespace Family

variable {e : Entry}

theorem mem_filter_terms (t : String) : t ∈ filter.terms e ↔
    (e.ext ≠ "" ∧ t = extTerm e.ext) ∨ t = (SizeBucket.of e.size).term ∨ t = monthTerm (monthOf e.mtime) := by
  by_cases hext : e.ext = "" <;> simp [terms, hext]

private theorem ne_of_head? {s t : String} {a b : Char} (hs : s.toList.head? = some a)
    (ht : t.toList.head? = some b) (hne : a ≠ b) : s ≠ t := by
  rintro rfl
  exact hne (Option.some.inj (hs.symm.trans ht))

theorem extTerm_mem_terms (ext : String) :
    extTerm ext ∈ filter.terms e ↔ e.ext ≠ "" ∧ lowercase e.ext = lowercase ext := by
  have hsize := ne_of_head? (head?_extTerm ext) (SizeBucket.of e.size).head?_term (by decide)
  have hmonth := ne_of_head? (head?_extTerm ext) (head?_monthTerm (monthOf e.mtime)) (by decide)
  simp only [mem_filter_terms, hsize, hmonth, or_false, extTerm_inj, eq_comm]

theorem sizeTerm_mem_terms (b : SizeBucket) : b.term ∈ filter.terms e ↔ SizeBucket.of e.size = b := by
  have hext := ne_of_head? b.head?_term (head?_extTerm e.ext) (by decide)
  have hmonth := ne_of_head? b.head?_term (head?_monthTerm (monthOf e.mtime)) (by decide)
  simp only [mem_filter_terms, hext, hmonth, and_false, or_false, false_or]
  exact ⟨fun h => (SizeBucket.term_injective h).symm, fun h => h ▸ rfl⟩

/-- What starts as the terms of months do is the term of a month. -/
theorem mem_terms_of_stem {t : String} (hstem : monthStem.toList <+: t.toList) :
    t ∈ filter.terms e ↔ t = monthTerm (monthOf e.mtime) := by
  have hhead : t.toList.head? = some 'm' := by
    obtain ⟨rest, hrest⟩ := hstem
    rw [← hrest]
    rfl
  have hext := ne_of_head? hhead (head?_extTerm e.ext) (by decide)
  have hsize := ne_of_head? hhead (SizeBucket.of e.size).head?_term (by decide)
  simp only [mem_filter_terms, hext, hsize, and_false, false_or]

end Family

namespace Index
open Indexing (filterTerms)

/-- The month of any time is read from its term, and no sign stands before it. -/
theorem Filter.monthOfTerm?_monthTerm (time : Int64) :
    monthOfTerm? (monthTerm (monthOf time)) = some (monthOf time) := by
  obtain ⟨n, hn⟩ := Int.eq_ofNat_of_zero_le (monthOf_nonneg time)
  have hlt : n < UInt64.size / 2 := by
    have hbound := monthOf_lt time
    omega
  have hdigits : (monthTerm (monthOf time)).toList.drop monthStem.length = Nat.toDigits 10 n := by
    rw [hn, monthTerm, String.toList_append, ← String.length_toList, List.drop_left]
    exact Nat.toList_repr
  have hword : (Int64.ofInt n).toInt = n := by
    refine Int64.toInt_ofInt_of_le ?_ ?_
    · omega
    · have hhalf : UInt64.size / 2 = 2 ^ 63 := by decide
      omega
  rw [monthOfTerm?, hdigits, Numeral.signed?_toDigits hlt, Option.map_some, hword, hn]

theorem monthTerm_of_stem (month : Int) : monthStem.toList <+: (monthTerm month).toList := by
  rw [monthTerm, String.toList_append]
  exact List.prefix_append _ _

variable {r : Reader} {m : TermMap}

theorem Filter.idsOfAll_eq (r : Reader) (terms : List UInt32) :
    idsOfAll r terms =
      (terms.mapM fun id => r.posting id none).map fun lists => IdSet.ofList lists.flatten := by
  rw [idsOfAll]
  cases terms.mapM fun id => r.posting id none <;> rfl

/-- The ids of several terms ascend, whatever the family holds. -/
theorem Filter.idsOfAll_pairwise_lt {terms : List UInt32} {ids : List FileId}
    (h : idsOfAll r terms = .ok ids) : ids.Pairwise (· < ·) := by
  rw [idsOfAll_eq] at h
  cases hlists : terms.mapM fun id => r.posting id none with
  | error fault =>
    rw [hlists] at h
    cases h
  | ok lists =>
    rw [hlists] at h
    obtain rfl := Except.ok.inj h
    exact Ascending.ofList_pairwise_lt _

/-- A family that is read gives the ids that are under any of the terms; a term it does not have gives none. -/
theorem Reads.idsOfAll (h : Reads r m) (terms : List String) :
    ∃ ids, Filter.idsOfAll r (terms.map r.termId) = .ok ids ∧
      ∀ id, id ∈ ids ↔ ∃ t ∈ terms, id ∈ m.idsOf t := by
  have hlists : (terms.map r.termId).mapM (fun id => r.posting id none) = .ok (terms.map m.idsOf) := by
    have hposting : (fun id => r.posting id none) ∘ r.termId = fun t => .ok (m.idsOf t) :=
      funext h.termPosting
    rw [List.mapM_map, hposting]
    exact List.mapM_pure
  refine ⟨IdSet.ofList (terms.map m.idsOf).flatten, ?_, fun id => ?_⟩
  · rw [Filter.idsOfAll_eq, hlists]
    rfl
  · simp only [IdSet.ofList, Ascending.mem_ofList, List.mem_flatten, List.mem_map, exists_exists_and_eq_and]

theorem Reader.mem_termsFrom (r : Reader) (stem term : String) (id : UInt32) :
    (term, id) ∈ r.termsFrom stem ↔ r.dict[term]? = some id ∧ stem.toList <+: term.toList := by
  rw [termsFrom, List.mem_filter, Std.TreeMap.mem_toList_iff_getElem?_eq_some, List.isPrefixOf_iff_prefix]

theorem Reads.mem_termsFrom (h : Reads r m) (hfits : Fits m) {stem term : String} (hterm : term ∈ m.terms)
    (hstem : stem.toList <+: term.toList) : ∃ id, (term, id) ∈ r.termsFrom stem := by
  simp only [Reader.mem_termsFrom, hstem, and_true]
  obtain ⟨i, hi, rfl⟩ := List.getElem_of_mem hterm
  have hid := h.termId i hi
  rw [Reader.termId, Std.TreeMap.getD_eq_getD_getElem?] at hid
  cases hfound : r.dict[m.terms[i]]? with
  | some id => exact ⟨id, rfl⟩
  | none =>
    -- no term that is there has the id zero
    have hnumber := toNat_termId hi (by rw [TermMap.length_terms]; exact hfits.1)
    rw [hfound, Option.getD_none] at hid
    rw [← hid] at hnumber
    cases hnumber

/-- The ids are those of the entries with a property, ascending. -/
def Selects (es : List Entry) (p : Entry → Prop) (ids : List FileId) : Prop :=
  ids.Pairwise (· < ·) ∧ ∀ id, id ∈ ids ↔ ∃ e ∈ es, p e ∧ e.id = id

variable {es : List Entry}

theorem Selects.mem {p : Entry → Prop} {ids : List FileId} (h : Selects es p ids) {e : Entry} (he : e ∈ es)
    (hp : p e) : e.id ∈ ids :=
  (h.2 e.id).mpr ⟨e, he, hp, rfl⟩

/-- What is selected can be computed. -/
theorem Selects.eq_of_mem_iff {p : Entry → Prop} [DecidablePred p] {ids ids' : List FileId} (h : Selects es p ids)
    (hasc : ids'.Pairwise (· < ·)) (hmem : ∀ id, id ∈ ids' ↔ id ∈ (es.filter p).map Entry.id) : ids = ids' := by
  refine Ascending.eq_of_mem_iff h.1 hasc fun id => ?_
  simp [h.2, hmem, and_assoc]

/-- Terms select the entries that have one of them. -/
private theorem selects_terms (h : Reads r (.ofEntries .filter es)) (terms : List String) {p : Entry → Prop}
    (hp : ∀ e ∈ es, (∃ t ∈ terms, t ∈ Family.filter.terms e) ↔ p e) :
    ∃ ids, Filter.idsOfAll r (terms.map r.termId) = .ok ids ∧ Selects es p ids := by
  obtain ⟨ids, hids, hmem⟩ := h.idsOfAll terms
  refine ⟨ids, hids, Filter.idsOfAll_pairwise_lt hids, fun id => ?_⟩
  simp only [hmem, TermMap.mem_idsOf_ofEntries]
  constructor
  · rintro ⟨t, ht, e, he, hte, rfl⟩
    exact ⟨e, he, (hp e he).mp ⟨t, ht, hte⟩, rfl⟩
  · rintro ⟨e, he, hpe, rfl⟩
    obtain ⟨t, ht, hte⟩ := (hp e he).mpr hpe
    exact ⟨t, ht, e, he, hte, rfl⟩

theorem Reads.sizeIds (h : Reads r (.ofEntries .filter es)) (op : Comparison) (bytes : UInt64) :
    ∃ ids, Filter.sizeIds r op bytes = .ok ids ∧
      Selects es (fun e => SizeBucket.of e.size ∈ SizeBucket.admitted op bytes) ids := by
  have hterms : ((SizeBucket.admitted op bytes).map fun b => r.termId b.term) =
      ((SizeBucket.admitted op bytes).map SizeBucket.term).map r.termId := by
    rw [List.map_map]
    rfl
  rw [Filter.sizeIds, hterms]
  refine selects_terms h _ fun e _ => ?_
  simp [Family.sizeTerm_mem_terms]

theorem Reads.extIds (h : Reads r (.ofEntries .filter es)) (ext : String) :
    ∃ ids, Filter.extIds r ext = .ok ids ∧
      Selects es (fun e => e.ext ≠ "" ∧
        lowercase e.ext = lowercase (String.ofList (ext.toList.dropWhile (· = '.')))) ids := by
  refine selects_terms h [_] fun e _ => ?_
  simp [Family.extTerm_mem_terms]

private def admittedMonths (r : Reader) (op : Comparison) (time : Int64) : List String :=
  ((r.termsFrom monthStem).map (·.1)).filter fun term =>
    (Filter.monthOfTerm? term).any fun month => op.admits month (monthOf time)

private theorem mtimeIds_eq (r : Reader) (op : Comparison) (time : Int64) :
    Filter.mtimeIds r op time = Filter.idsOfAll r ((admittedMonths r op time).map r.termId) := by
  rw [Filter.mtimeIds, admittedMonths, List.filter_map, List.map_map, ← List.filterMap_eq_map,
    List.filterMap_filter]
  refine congrArg _ (List.filterMap_congr ?_)
  rintro ⟨term, id⟩ hlisted
  have hid : r.termId term = id := by
    rw [Reader.termId, Std.TreeMap.getD_eq_getD_getElem?, ((r.mem_termsFrom _ _ _).mp hlisted).1,
      Option.getD_some]
  cases hmonth : Filter.monthOfTerm? term <;> simp [hmonth, hid]

theorem Reads.mtimeIds (h : Reads r (.ofEntries .filter es)) (hfits : Fits (.ofEntries .filter es))
    (op : Comparison) (time : Int64) :
    ∃ ids, Filter.mtimeIds r op time = .ok ids ∧
      Selects es (fun e => op.admits (monthOf e.mtime) (monthOf time) = true) ids := by
  rw [mtimeIds_eq]
  refine selects_terms h _ fun e he => ?_
  simp only [admittedMonths, List.mem_filter, List.mem_map, Prod.exists, exists_and_right, exists_eq_right]
  constructor
  · rintro ⟨t, ⟨⟨id, hlisted⟩, hadmits⟩, ht⟩
    obtain rfl := (Family.mem_terms_of_stem ((r.mem_termsFrom _ _ _).mp hlisted).2).mp ht
    simpa [Filter.monthOfTerm?_monthTerm] using hadmits
  · intro hadmits
    have hterm : monthTerm (monthOf e.mtime) ∈ Family.filter.terms e := by simp [Family.terms]
    have hmem : monthTerm (monthOf e.mtime) ∈ (TermMap.ofEntries .filter es).terms := by
      refine ((TermMap.filled_ofEntries _ _).mem_terms_iff _).mpr ⟨e.id, ?_⟩
      rw [← TermMap.mem_idsOf, TermMap.mem_idsOf_ofEntries]
      exact ⟨e, he, hterm, rfl⟩
    refine ⟨_, ⟨h.mem_termsFrom hfits hmem (monthTerm_of_stem _), ?_⟩, hterm⟩
    simpa [Filter.monthOfTerm?_monthTerm] using hadmits

/-- The filter family of any entries misses none that it is asked for. A comparison of times or of sizes
selects the entries of the months or buckets that it admits, so among others all those it holds of; an
extension selects just the entries that have it. -/
theorem filter_misses_none {d d' : IndexDir} {count : Nat}
    (h : writeFamily d .filter (filterTerms es) = (d', .ok count)) :
    ∃ r, Reader.openIn d' .filter = .ok r ∧
      (∀ op time, ∃ ids, Filter.mtimeIds r op time = .ok ids ∧
        Selects es (fun e => op.admits (monthOf e.mtime) (monthOf time) = true) ids ∧
        ∀ e ∈ es, op.holds e.mtime time = true → e.id ∈ ids) ∧
      (∀ op bytes, ∃ ids, Filter.sizeIds r op bytes = .ok ids ∧
        Selects es (fun e => SizeBucket.of e.size ∈ SizeBucket.admitted op bytes) ids ∧
        ∀ e ∈ es, op.holds e.size bytes = true → e.id ∈ ids) ∧
      ∀ ext, ∃ ids, Filter.extIds r ext = .ok ids ∧
        Selects es (fun e => e.ext ≠ "" ∧
          lowercase e.ext = lowercase (String.ofList (ext.toList.dropWhile (· = '.')))) ids := by
  have hfits : Fits (.ofEntries .filter es) := (holds_of_writeFamily h).1
  obtain ⟨r, hopen, hreads⟩ := openIn_of_writeFamily h fun _ _ => rfl
  refine ⟨r, hopen, fun op time => ?_, fun op bytes => ?_, hreads.extIds⟩
  · obtain ⟨ids, hids, hselects⟩ := hreads.mtimeIds hfits op time
    exact ⟨ids, hids, hselects, fun e he hholds =>
      hselects.mem he (Comparison.admits_of_holds monthOf_mono hholds)⟩
  · obtain ⟨ids, hids, hselects⟩ := hreads.sizeIds op bytes
    exact ⟨ids, hids, hselects, fun e he hholds => hselects.mem he (SizeBucket.of_mem_admitted hholds)⟩

/-- Entries of which two share an id, with an extension in both cases and times at both ends of the range. -/
def extremes : List Entry :=
  [⟨7, "/a.Md", "a.Md", "Md", 10, Int64.minValue, false, false⟩,
    ⟨3, "/b.md", "b.md", "md", 5000, 5000000, false, false⟩,
    ⟨7, "/c", "c", "", 1099511627776, Int64.maxValue, true, false⟩]

/-- The first of the entries is older than a time before the epoch, the last two are larger than four kilobytes,
and the first two have the extension that is asked for. -/
theorem filter_of_extremes : ∃ d' count r,
    writeFamily IndexDir.absent .filter (filterTerms extremes) = (d', .ok count) ∧
    Reader.openIn d' .filter = .ok r ∧ Filter.mtimeIds r .lt (-5) = .ok [7] ∧
    Filter.sizeIds r .gt 4096 = .ok [3, 7] ∧ Filter.extIds r ".MD" = .ok [3, 7] := by
  have hfits : Fits (filterTerms extremes) := TermMap.fits_ofEntries (by cbv)
  obtain ⟨d', hwrite, -⟩ := writeFamily_of_fits hfits (ready_absent .filter)
  obtain ⟨r, hopen, hmtimes, hsizes, hexts⟩ := filter_misses_none hwrite
  obtain ⟨older, holder, hselects, -⟩ := hmtimes .lt (-5)
  obtain ⟨larger, hlarger, hselects', -⟩ := hsizes .gt 4096
  obtain ⟨named, hnamed, hselects''⟩ := hexts ".MD"
  have holderIds : older = [7] := by
    have hold : (extremes.filter fun e => Comparison.lt.admits (monthOf e.mtime) (monthOf (-5)) = true).map
        Entry.id = [7] := by cbv
    exact hselects.eq_of_mem_iff (by decide) fun id => by rw [hold]
  have hlargerIds : larger = [3, 7] := by
    have hlarge : (extremes.filter fun e => SizeBucket.of e.size ∈ SizeBucket.admitted .gt 4096).map
        Entry.id = [3, 7] := by cbv
    exact hselects'.eq_of_mem_iff (by decide) fun id => by rw [hlarge]
  have hnamedIds : named = [3, 7] := by
    have hname : (extremes.filter fun e => e.ext ≠ "" ∧
        lowercase e.ext = lowercase (String.ofList (".MD".toList.dropWhile (· = '.')))).map
        Entry.id = [7, 3] := by cbv
    refine hselects''.eq_of_mem_iff (by decide) fun id => ?_
    rw [hname]
    simp [or_comm]
  rw [holderIds] at holder
  rw [hlargerIds] at hlarger
  rw [hnamedIds] at hnamed
  exact ⟨d', _, r, hwrite, hopen, holder, hlarger, hnamed⟩

end Index

end VolumeSearch
