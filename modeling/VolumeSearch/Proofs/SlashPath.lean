import Mathlib.Data.List.Induction
import Mathlib.Tactic.Common
import VolumeSearch.Proofs.Text.Blank
import VolumeSearch.SlashPath

namespace VolumeSearch.SlashPath
open VolumeSearch.Text

/-- A segment that names something: not empty, and without a slash. -/
def IsName (s : String) : Prop := s ≠ "" ∧ '/' ∉ s.toList

private theorem isName_dots : IsName ".." := by
  unfold IsName
  decide

private theorem isName_push {rooted : Bool} {stack : List String} {segment : String}
    (hstack : ∀ s ∈ stack, IsName s) (hsegment : '/' ∉ segment.toList) :
    ∀ s ∈ push rooted stack segment, IsName s := by
  unfold push
  split
  · exact hstack
  · next hname =>
    rw [not_or] at hname
    split
    · cases stack with
      | nil =>
        cases rooted with
        | true => exact fun s hs => absurd hs List.not_mem_nil
        | false =>
          intro s hs
          obtain rfl := List.mem_singleton.mp hs
          exact isName_dots
      | cons top rest =>
        have hrest : ∀ s ∈ rest, IsName s := fun s hs => hstack s (by simp [hs])
        dsimp only
        split
        · split
          · exact hstack
          · intro s hs
            rcases List.mem_cons.mp hs with rfl | hs
            · exact isName_dots
            · exact hstack s hs
        · exact hrest
    · intro s hs
      rcases List.mem_cons.mp hs with rfl | hs
      · exact ⟨hname.1, hsegment⟩
      · exact hstack s hs

private theorem isName_foldl_push {rooted : Bool} {segments stack : List String}
    (hstack : ∀ s ∈ stack, IsName s) (hsegments : ∀ s ∈ segments, '/' ∉ s.toList) :
    ∀ s ∈ segments.foldl (push rooted) stack, IsName s := by
  induction segments generalizing stack with
  | nil => exact hstack
  | cons segment rest ih =>
    exact ih (isName_push hstack (hsegments segment (by simp))) fun s hs => hsegments s (by simp [hs])

theorem isName_of_mem_cleanSegments {p s : String} (h : s ∈ cleanSegments p) : IsName s := by
  have hsegments : ∀ s ∈ segments p, '/' ∉ s.toList := by
    intro s hs
    obtain ⟨piece, hpiece, rfl⟩ := List.mem_map.mp hs
    rw [String.toList_ofList]
    exact not_mem_of_mem_splitAt hpiece
  have hempty : ∀ s ∈ ([] : List String), IsName s := fun s hs => absurd hs List.not_mem_nil
  exact isName_foldl_push hempty hsegments s (List.mem_reverse.mp h)

private theorem endsInSlash_joinSegments {ss : List String} (h : ∀ s ∈ ss, IsName s) :
    (joinSegments ss).toList.getLast? ≠ some '/' := by
  rw [joinSegments, String.toList_ofList]
  refine getLast?_joinWith_ne fun piece hpiece => ?_
  obtain ⟨s, hs, rfl⟩ := List.mem_map.mp hpiece
  exact ⟨by simpa using (h s hs).1, (h s hs).2⟩

/-- A cleaned path ends in a slash only where it is the root. -/
theorem eq_root_of_endsInSlash_clean {p : String} (h : endsInSlash (clean p) = true) :
    clean p = "/" := by
  have hlast := endsInSlash_joinSegments fun s (hs : s ∈ cleanSegments p) =>
    isName_of_mem_cleanSegments hs
  rw [endsInSlash, decide_eq_true_eq] at h
  unfold clean at h ⊢
  by_cases hempty : joinSegments (cleanSegments p) = ""
  · by_cases hrooted : isRooted p = true
    · simp only [hempty, hrooted, if_true]
      rfl
    · simp only [hempty, hrooted, Bool.false_eq_true, if_false, if_true] at h
      exact absurd h (by decide)
  · have hne : (joinSegments (cleanSegments p)).toList ≠ [] := by simpa using hempty
    have hbelow : ("/" ++ joinSegments (cleanSegments p)).toList.getLast? =
        (joinSegments (cleanSegments p)).toList.getLast? := by
      rw [String.toList_append]
      exact List.getLast?_cons_of_ne_nil hne
    by_cases hrooted : isRooted p = true
    · simp only [hrooted, if_true, hbelow] at h
      exact absurd h hlast
    · simp only [hrooted, hempty, Bool.false_eq_true, if_false] at h
      exact absurd h hlast

theorem slashes_of_not_mem {p : String} (h : '\\' ∉ p.toList) : slashes p = p := by
  have hsame : (p.toList.map fun c => if c = '\\' then '/' else c) = p.toList.map id := by
    refine List.map_congr_left fun c hc => if_neg ?_
    rintro rfl
    exact h hc
  rw [slashes, hsame, List.map_id, String.ofList_toList]

theorem child_injective (dir : String) : Function.Injective (child dir) := by
  intro a b h
  have hlist := congrArg String.toList h
  unfold child at hlist
  split at hlist
  · simp only [String.toList_append] at hlist
    exact String.toList_inj.mp (List.append_cancel_left hlist)
  · simp only [String.toList_append] at hlist
    exact String.toList_inj.mp (List.append_cancel_left hlist)

/-- The segments of an entry of a directory are those of the directory, without the empty one behind a slash at
its end, and the name. -/
private theorem segments_child (dir : String) {name : String} (hname : '/' ∉ name.toList) :
    ∃ front back, segments dir = front ++ back ∧ segments (child dir name) = front ++ [name] ∧
      front ≠ [] ∧ ∀ s ∈ back, s = "" := by
  have hone : (splitAt '/' name.toList).map String.ofList = [name] := by
    rw [splitAt_of_not_mem hname, List.map_singleton, String.ofList_toList]
  have hfront (s : List Char) : (splitAt '/' s).map String.ofList ≠ [] := by
    simpa using splitAt_ne_nil '/' s
  by_cases hend : endsInSlash dir = true
  · have hlast : dir.toList.getLast? = some '/' := by simpa [endsInSlash] using hend
    obtain ⟨front, hdir⟩ := List.getLast?_eq_some_iff.mp hlast
    refine ⟨(splitAt '/' front).map String.ofList, [""], ?_, ?_, hfront front, by simp⟩
    · rw [segments, hdir, splitAt_append_sep, List.map_append]
      rfl
    · rw [segments, child, if_pos hend, String.toList_append, hdir, List.append_assoc, List.singleton_append,
        splitAt_append_sep, List.map_append, hone]
  · refine ⟨segments dir, [], (List.append_nil _).symm, ?_, hfront _, by simp⟩
    have hlist : (dir ++ "/" ++ name).toList = dir.toList ++ '/' :: name.toList := by simp
    rw [segments, child, if_neg hend, hlist, splitAt_append_sep, List.map_append, hone]
    rfl

/-- Only a `.` in front is kept. -/
private theorem components_of_ne {p first : String} {rest : List String} (h : segments p = first :: rest)
    (hfirst : first ≠ ".") : components p = (first :: rest).filter fun s => s ≠ "" ∧ s ≠ "." := by
  rw [components, h]
  split
  · next he => exact absurd (List.cons.inj he).1 hfirst
  · rfl

theorem components_child {name : String} (hname : IsName name) (hdot : name ≠ ".") (dir : String) :
    components (child dir name) = components dir ++ [name] := by
  obtain ⟨front, back, hdir, hchild, hfront, hback⟩ := segments_child dir hname.2
  have hkept : [name].filter (fun s => s ≠ "" ∧ s ≠ ".") = [name] := by simp [hname.1, hdot]
  have hdropped : back.filter (fun s => s ≠ "" ∧ s ≠ ".") = [] := by
    simpa [List.filter_eq_nil_iff] using fun s hs hne => absurd (hback s hs) hne
  obtain ⟨first, rest, rfl⟩ := List.exists_cons_of_ne_nil hfront
  rw [List.cons_append] at hdir hchild
  by_cases hfirst : first = "."
  · subst hfirst
    simp only [components, hdir, hchild, List.filter_append, List.cons_append, hkept, hdropped, List.append_nil]
  · rw [components_of_ne hdir hfirst, components_of_ne hchild hfirst, ← List.cons_append, ← List.cons_append,
      List.filter_append, List.filter_append, hkept, hdropped, List.append_nil]

/-- The path at the end of a chain of names. -/
def along (dir : String) (names : List String) : String := names.foldl child dir

theorem along_append (dir : String) (names : List String) (name : String) :
    along dir (names ++ [name]) = child (along dir names) name :=
  List.foldl_append

theorem components_along {names : List String} (hnames : ∀ name ∈ names, IsName name ∧ name ≠ ".") (dir : String) :
    components (along dir names) = components dir ++ names := by
  induction names using List.reverseRecOn with
  | nil => exact (List.append_nil _).symm
  | append_singleton names name ih =>
    obtain ⟨hname, hdot⟩ := hnames name (by simp)
    rw [along_append, components_child hname hdot, ih fun n hn => hnames n (by simp [hn]), List.append_assoc]

theorem along_inj {dir : String} {names names' : List String}
    (hnames : ∀ name ∈ names, IsName name ∧ name ≠ ".") (hnames' : ∀ name ∈ names', IsName name ∧ name ≠ ".")
    (h : along dir names = along dir names') : names = names' := by
  have hcomponents := congrArg components h
  rwa [components_along hnames, components_along hnames', List.append_cancel_left_eq] at hcomponents

end VolumeSearch.SlashPath
