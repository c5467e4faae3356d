import Mathlib.Tactic.Common
import VolumeSearch.Proofs.SlashPath

/-! The shortest form of a path. Cleaned segments lead down, in a relative path after steps up, and the paths
made of such segments are exactly those that cleaning leaves as they are. -/
namespace VolumeSearch.SlashPath
open VolumeSearch.Text

def IsDown (s : String) : Prop := s ≠ "" ∧ s ≠ "." ∧ s ≠ ".."

def IsEntryName (name : String) : Prop := IsName name ∧ IsDown name

/-- Segments that lead to their place directly: in a relative path up first, and then down. -/
def IsDirect (rooted : Bool) (ss : List String) : Prop :=
  ∃ ups names, ss = List.replicate ups ".." ++ names ∧ (∀ name ∈ names, IsDown name) ∧ (rooted = true → ups = 0)

def below (p : String) : List String :=
  if p = "/" then [] else if isRooted p then (segments p).tail else segments p

/-- A path that cannot be shortened. -/
def IsShortest (p : String) : Prop := p = "." ∨ IsDirect (isRooted p) (below p)

variable {rooted : Bool} {stack ss : List String} {name : String}

theorem push_skip {s : String} (h : s = "" ∨ s = ".") (rooted : Bool) (stack : List String) :
    push rooted stack s = stack :=
  if_pos h

theorem push_down (h : IsDown name) (rooted : Bool) (stack : List String) :
    push rooted stack name = name :: stack := by
  unfold push
  rw [if_neg (not_or.mpr ⟨h.1, h.2.1⟩), if_neg h.2.2]

/-- A step up takes the name before it back. -/
theorem push_up_of_down (h : IsDown name) (rooted : Bool) (stack : List String) :
    push rooted (name :: stack) ".." = stack := by
  unfold push
  rw [if_neg (by decide), if_pos rfl]
  exact if_neg h.2.2

/-- Without a name to take back, a relative path keeps the step up. -/
theorem push_up_of_ups (ups : Nat) :
    push false (List.replicate ups "..") ".." = List.replicate (ups + 1) ".." := by
  cases ups <;> rfl

theorem segment_cases (s : String) : (s = "" ∨ s = ".") ∨ s = ".." ∨ IsDown s := by
  unfold IsDown
  tauto

theorem isDirect_reverse : IsDirect rooted stack.reverse ↔
    ∃ names ups, stack = names ++ List.replicate ups ".." ∧ (∀ name ∈ names, IsDown name) ∧
      (rooted = true → ups = 0) := by
  constructor
  · rintro ⟨ups, names, hstack, hnames, hups⟩
    rw [List.reverse_eq_iff, List.reverse_append, List.reverse_replicate] at hstack
    exact ⟨names.reverse, ups, hstack, fun name h => hnames name (List.mem_reverse.mp h), hups⟩
  · rintro ⟨names, ups, rfl, hnames, hups⟩
    rw [List.reverse_append, List.reverse_replicate]
    exact ⟨ups, names.reverse, rfl, fun name h => hnames name (List.mem_reverse.mp h), hups⟩

theorem isDirect_nil (rooted : Bool) : IsDirect rooted [] :=
  ⟨0, [], rfl, fun _ h => absurd h List.not_mem_nil, fun _ => rfl⟩

theorem IsDirect.push (h : IsDirect rooted stack.reverse) (s : String) :
    IsDirect rooted (push rooted stack s).reverse := by
  rcases segment_cases s with hskip | rfl | hdown
  · rwa [push_skip hskip]
  · obtain ⟨names, ups, rfl, hnames, hups⟩ := isDirect_reverse.mp h
    cases names with
    | cons name rest =>
      obtain ⟨hname, hrest⟩ := List.forall_mem_cons.mp hnames
      rw [List.cons_append, push_up_of_down hname]
      exact isDirect_reverse.mpr ⟨rest, ups, rfl, hrest, hups⟩
    | nil =>
      cases rooted with
      | false =>
        rw [List.nil_append, push_up_of_ups]
        exact isDirect_reverse.mpr ⟨[], ups + 1, rfl, hnames, by simp⟩
      | true =>
        rw [hups rfl]
        exact isDirect_nil true
  · rw [push_down hdown]
    obtain ⟨names, ups, rfl, hnames, hups⟩ := isDirect_reverse.mp h
    exact isDirect_reverse.mpr ⟨s :: names, ups, rfl, List.forall_mem_cons.mpr ⟨hdown, hnames⟩, hups⟩

theorem isDirect_foldl_push (h : IsDirect rooted stack.reverse) (ss : List String) :
    IsDirect rooted (ss.foldl (push rooted) stack).reverse := by
  induction ss generalizing stack with
  | nil => exact h
  | cons s rest ih => exact ih (h.push s)

private theorem foldl_push_ups (ups : Nat) :
    (List.replicate ups "..").foldl (push false) [] = List.replicate ups ".." := by
  induction ups with
  | zero => rfl
  | succ ups ih =>
    rw [List.replicate_succ', List.foldl_append, ih, List.foldl_cons, List.foldl_nil, push_up_of_ups,
      List.replicate_succ']

theorem foldl_push_downs {names : List String} (h : ∀ name ∈ names, IsDown name) (rooted : Bool)
    (stack : List String) : names.foldl (push rooted) stack = names.reverse ++ stack := by
  induction names generalizing stack with
  | nil => rfl
  | cons name rest ih =>
    obtain ⟨hname, hrest⟩ := List.forall_mem_cons.mp h
    rw [List.foldl_cons, push_down hname, ih hrest, List.reverse_cons, List.append_assoc]
    rfl

/-- Along a direct way nothing is dropped or taken back. -/
theorem IsDirect.foldl_push (h : IsDirect rooted ss) : (ss.foldl (SlashPath.push rooted) []).reverse = ss := by
  obtain ⟨ups, names, rfl, hnames, hups⟩ := h
  have hstart : (List.replicate ups "..").foldl (SlashPath.push rooted) [] = List.replicate ups ".." := by
    cases rooted with
    | false => exact foldl_push_ups ups
    | true =>
      rw [hups rfl]
      rfl
  rw [List.foldl_append, hstart, foldl_push_downs hnames, List.reverse_append, List.reverse_reverse,
    List.reverse_replicate]

theorem segments_append_slash (p q : String) : segments (p ++ "/" ++ q) = segments p ++ segments q := by
  have hlist : (p ++ "/" ++ q).toList = p.toList ++ '/' :: q.toList := by simp
  rw [segments, hlist, splitAt_append_sep, List.map_append]
  rfl

theorem segments_root_append (q : String) : segments ("/" ++ q) = "" :: segments q := by
  have hempty : "/" ++ q = "" ++ "/" ++ q := by rw [String.empty_append]
  rw [hempty, segments_append_slash]
  rfl

theorem segments_ne_nil (p : String) : segments p ≠ [] := by
  simpa [segments] using splitAt_ne_nil '/' p.toList

theorem isName_of_mem_segments {p s : String} (h : s ∈ segments p) (hne : s ≠ "") : IsName s := by
  obtain ⟨piece, hpiece, rfl⟩ := List.mem_map.mp h
  refine ⟨hne, ?_⟩
  rw [String.toList_ofList]
  exact not_mem_of_mem_splitAt hpiece

theorem joinSegments_segments (p : String) : joinSegments (segments p) = p := by
  have hback : (segments p).map String.toList = splitAt '/' p.toList := by
    rw [segments, List.map_map]
    exact (List.map_congr_left fun piece _ => String.toList_ofList).trans (List.map_id _)
  rw [joinSegments, hback, joinWith_splitAt, String.ofList_toList]

theorem segments_joinSegments (hne : ss ≠ []) (h : ∀ s ∈ ss, IsName s) : segments (joinSegments ss) = ss := by
  have hpieces : ∀ piece ∈ ss.map String.toList, '/' ∉ piece :=
    List.forall_mem_map.mpr fun s hs => (h s hs).2
  rw [segments, joinSegments, String.toList_ofList, splitAt_joinWith (by simpa using hne) hpieces, List.map_map]
  exact (List.map_congr_left fun s _ => String.ofList_toList).trans (List.map_id _)

theorem isRooted_iff {p : String} : isRooted p = true ↔ ∃ q, p = "/" ++ q := by
  rw [isRooted, decide_eq_true_eq]
  constructor
  · intro h
    obtain ⟨rest, hrest⟩ := List.head?_eq_some_iff.mp h
    refine ⟨String.ofList rest, ?_⟩
    rw [← String.toList_inj, hrest]
    simp
  · rintro ⟨q, rfl⟩
    rw [String.toList_append]
    rfl

theorem isRooted_append {p : String} (h : p ≠ "") (q : String) : isRooted (p ++ q) = isRooted p := by
  have hne : p.toList ≠ [] := fun hnil => h (String.toList_inj.mp hnil)
  obtain ⟨c, rest, hp⟩ := List.exists_cons_of_ne_nil hne
  rw [isRooted, isRooted, String.toList_append, hp]
  rfl

theorem below_root_append {q : String} (h : q ≠ "") : below ("/" ++ q) = segments q := by
  have hroot : "/" ++ q ≠ "/" := by
    intro heq
    have hlist := congrArg String.toList heq
    rw [String.toList_append] at hlist
    exact h (String.toList_inj.mp (List.append_right_eq_self.mp hlist))
  rw [below, if_neg hroot, if_pos (isRooted_iff.mpr ⟨q, rfl⟩), segments_root_append, List.tail_cons]

theorem below_of_relative {p : String} (h : isRooted p = false) : below p = segments p := by
  have hroot : p ≠ "/" := by
    rintro rfl
    exact absurd h (by decide)
  rw [below, if_neg hroot, h, if_neg Bool.false_ne_true]

/-- The path along segments, where the way without a step has a name as well. -/
def ofSegments (rooted : Bool) (ss : List String) : String :=
  if ss = [] then (if rooted then "/" else ".") else spell rooted ss

theorem joinSegments_ne_empty (hne : ss ≠ []) (h : ∀ s ∈ ss, IsName s) : joinSegments ss ≠ "" := by
  intro hempty
  have hsegments := segments_joinSegments hne h
  rw [hempty] at hsegments
  have hmem : "" ∈ ss := by
    rw [← hsegments]
    decide
  exact (h "" hmem).1 rfl

theorem isRooted_joinSegments (h : ∀ s ∈ ss, IsName s) : isRooted (joinSegments ss) = false := by
  by_cases hne : ss = []
  · rw [hne]
    rfl
  · rw [Bool.eq_false_iff]
    intro hrooted
    obtain ⟨q, hq⟩ := isRooted_iff.mp hrooted
    -- the first segment would be empty
    have hsegments := segments_joinSegments hne h
    rw [hq, segments_root_append] at hsegments
    exact (h "" (by simp [← hsegments])).1 rfl

theorem isRooted_ofSegments (h : ∀ s ∈ ss, IsName s) : isRooted (ofSegments rooted ss) = rooted := by
  unfold ofSegments
  split
  · cases rooted <;> rfl
  · cases rooted with
    | true => exact isRooted_iff.mpr ⟨_, rfl⟩
    | false => exact isRooted_joinSegments h

theorem below_ofSegments (h : ∀ s ∈ ss, IsName s) (hne : ss ≠ [] ∨ rooted = true) :
    below (ofSegments rooted ss) = ss := by
  by_cases hnil : ss = []
  · obtain rfl := hnil
    obtain rfl : rooted = true := by simpa using hne
    rfl
  · rw [ofSegments, if_neg hnil]
    cases rooted with
    | true => exact (below_root_append (joinSegments_ne_empty hnil h)).trans (segments_joinSegments hnil h)
    | false => exact (below_of_relative (isRooted_joinSegments h)).trans (segments_joinSegments hnil h)

theorem ofSegments_below {p : String} (h : p ≠ ".") : ofSegments (isRooted p) (below p) = p := by
  cases hrooted : isRooted p with
  | true =>
    obtain ⟨q, rfl⟩ := isRooted_iff.mp hrooted
    by_cases hq : q = ""
    · rw [hq]
      rfl
    · rw [below_root_append hq, ofSegments, if_neg (segments_ne_nil q), spell, if_pos rfl,
        joinSegments_segments]
  | false =>
    rw [below_of_relative hrooted, ofSegments, if_neg (segments_ne_nil p), spell, if_neg Bool.false_ne_true,
      joinSegments_segments]

theorem clean_eq (p : String) : clean p = ofSegments (isRooted p) (cleanSegments p) := by
  unfold clean ofSegments spell
  by_cases hnil : cleanSegments p = []
  · simp only [hnil, if_true]
    cases isRooted p <;> rfl
  · simp only [hnil, joinSegments_ne_empty hnil fun s hs => isName_of_mem_cleanSegments hs, if_false]

theorem cleanSegments_eq (p : String) :
    cleanSegments p = ((below p).foldl (push (isRooted p)) []).reverse := by
  cases hrooted : isRooted p with
  | true =>
    obtain ⟨q, rfl⟩ := isRooted_iff.mp hrooted
    rw [cleanSegments, hrooted, segments_root_append, List.foldl_cons, push_skip (.inl rfl)]
    by_cases hq : q = ""
    · rw [hq]
      rfl
    · rw [below_root_append hq]
  | false => rw [cleanSegments, hrooted, below_of_relative hrooted]

theorem isDirect_cleanSegments (p : String) : IsDirect (isRooted p) (cleanSegments p) :=
  isDirect_foldl_push (isDirect_nil _) _

theorem isRooted_clean (p : String) : isRooted (clean p) = isRooted p := by
  rw [clean_eq]
  exact isRooted_ofSegments fun s hs => isName_of_mem_cleanSegments hs

/-- A cleaned path either is the working directory or has the cleaned segments below its start. -/
theorem clean_cases (p : String) : (clean p = "." ∧ cleanSegments p = []) ∨ below (clean p) = cleanSegments p := by
  by_cases hne : cleanSegments p ≠ [] ∨ isRooted p = true
  · right
    rw [clean_eq, below_ofSegments (fun s hs => isName_of_mem_cleanSegments hs) hne]
  · left
    obtain ⟨hnil, hrelative⟩ := not_or.mp hne
    rw [not_ne_iff] at hnil
    rw [clean_eq, hnil, Bool.not_eq_true _ |>.mp hrelative]
    exact ⟨rfl, rfl⟩

theorem cleanSegments_clean (p : String) : cleanSegments (clean p) = cleanSegments p := by
  rcases clean_cases p with ⟨hhere, hnil⟩ | hbelow
  · rw [hhere, hnil]
    rfl
  · rw [cleanSegments_eq, isRooted_clean, hbelow, (isDirect_cleanSegments p).foldl_push]

theorem isShortest_clean (p : String) : IsShortest (clean p) := by
  rcases clean_cases p with ⟨hhere, -⟩ | hbelow
  · exact .inl hhere
  · right
    rw [isRooted_clean, hbelow]
    exact isDirect_cleanSegments p

theorem clean_of_isShortest {p : String} (h : IsShortest p) : clean p = p := by
  by_cases hhere : p = "."
  · rw [hhere]
    rfl
  · have hdirect := h.resolve_left hhere
    rw [clean_eq, cleanSegments_eq, hdirect.foldl_push, ofSegments_below hhere]

/-- The paths that cleaning leaves as they are. -/
theorem clean_eq_self_iff {p : String} : clean p = p ↔ IsShortest p :=
  ⟨fun h => h ▸ isShortest_clean p, clean_of_isShortest⟩

end VolumeSearch.SlashPath
