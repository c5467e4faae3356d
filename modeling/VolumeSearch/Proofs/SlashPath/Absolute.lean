import Mathlib.Tactic.Common
import VolumeSearch.Proofs.SlashPath.Shortest

/-! Paths below a directory, and paths made absolute. Names behind a directory in its shortest form keep that form;
what an argument brings with it that is no name stays in its absolute path and in all paths below that. -/
namespace VolumeSearch.SlashPath
open VolumeSearch.Text

variable {dir here p name : String} {names : List String}

theorem ne_empty_of_isRooted (h : isRooted p = true) : p ≠ "" := by
  rintro rfl
  cases h

/-- A rooted path cannot be shortened when every segment leads down. -/
theorem isShortest_of_rooted (h : isRooted p = true) : IsShortest p ↔ ∀ s ∈ below p, IsDown s := by
  rw [IsShortest, h]
  constructor
  · rintro (rfl | ⟨ups, names, hsegments, hnames, hups⟩)
    · cases h
    · rwa [hsegments, hups rfl]
  · exact fun hdown => .inr ⟨0, below p, rfl, hdown, fun _ => rfl⟩

/-- A rooted path with no slash behind it, unless it is the root. -/
def Unslashed (p : String) : Prop := isRooted p = true ∧ (endsInSlash p = true → p = "/")

theorem unslashed_of_clean (hclean : clean p = p) (hrooted : isRooted p = true) : Unslashed p := by
  refine ⟨hrooted, fun hend => ?_⟩
  rw [← hclean] at hend ⊢
  exact eq_root_of_endsInSlash_clean hend

theorem segments_of_isName (h : IsName name) : segments name = [name] := by
  have hjoin : joinSegments [name] = name := String.ofList_toList
  have hsegments := segments_joinSegments (List.cons_ne_nil name []) (List.forall_mem_singleton.mpr h)
  rwa [hjoin] at hsegments

theorem endsInSlash_append (h : IsName name) (front : String) : endsInSlash (front ++ name) = false := by
  have hne : name.toList ≠ [] := fun hnil => h.1 (String.toList_inj.mp hnil)
  rw [endsInSlash, String.toList_append, List.getLast?_append, List.getLast?_eq_some_getLast hne, Option.some_or,
    decide_eq_false_iff_not]
  exact fun hlast => h.2 (Option.some.inj hlast ▸ List.getLast_mem hne)

theorem isRooted_child (hdir : isRooted dir = true) (name : String) : isRooted (child dir name) = true := by
  have hne := ne_empty_of_isRooted hdir
  unfold child
  split
  · exact (isRooted_append hne _).trans hdir
  · rw [String.append_assoc]
    exact (isRooted_append hne _).trans hdir

theorem isRooted_along (hdir : isRooted dir = true) (names : List String) : isRooted (along dir names) = true := by
  induction names generalizing dir with
  | nil => exact hdir
  | cons name rest ih => exact ih (isRooted_child hdir name)

theorem unslashed_child (hdir : isRooted dir = true) (hname : IsName name) : Unslashed (child dir name) := by
  have hend : endsInSlash (child dir name) = false := by
    unfold child
    split <;> exact endsInSlash_append hname _
  exact ⟨isRooted_child hdir name, fun h => absurd (h.symm.trans hend) (by decide)⟩

theorem below_child (hdir : Unslashed dir) (hname : IsName name) : below (child dir name) = below dir ++ [name] := by
  by_cases hroot : dir = "/"
  · have hchild : child dir name = "/" ++ name := by
      rw [hroot]
      rfl
    rw [hchild, below_root_append hname.1, segments_of_isName hname, hroot]
    rfl
  · obtain ⟨q, rfl⟩ := isRooted_iff.mp hdir.1
    have hq : q ≠ "" := by
      rintro rfl
      exact hroot rfl
    have hchild : child ("/" ++ q) name = "/" ++ (q ++ "/" ++ name) := by
      rw [child, if_neg fun hend => hroot (hdir.2 hend)]
      simp only [String.append_assoc]
    have hbehind : q ++ "/" ++ name ≠ "" := fun h => hname.1 (String.append_eq_empty_iff.mp h).2
    rw [hchild, below_root_append hbehind, segments_append_slash, segments_of_isName hname, below_root_append hq]

theorem below_along (hdir : Unslashed dir) (hnames : ∀ name ∈ names, IsName name) :
    Unslashed (along dir names) ∧ below (along dir names) = below dir ++ names := by
  induction names generalizing dir with
  | nil => exact ⟨hdir, (List.append_nil _).symm⟩
  | cons name rest ih =>
    obtain ⟨hname, hrest⟩ := List.forall_mem_cons.mp hnames
    obtain ⟨hbare, hbelow⟩ := ih (unslashed_child hdir.1 hname) hrest
    rw [below_child hdir hname, List.append_assoc] at hbelow
    exact ⟨hbare, hbelow⟩

/-- Behind a cleaned directory, names are clean when none of them is a step up. -/
theorem clean_along_iff (hclean : clean dir = dir) (hrooted : isRooted dir = true)
    (hnames : ∀ name ∈ names, IsName name ∧ name ≠ ".") :
    clean (along dir names) = along dir names ↔ ".." ∉ names := by
  obtain ⟨hbare, hbelow⟩ := below_along (unslashed_of_clean hclean hrooted) fun name h => (hnames name h).1
  have hdir := (isShortest_of_rooted hrooted).mp (clean_eq_self_iff.mp hclean)
  rw [clean_eq_self_iff, isShortest_of_rooted hbare.1, hbelow, List.forall_mem_append, and_iff_right hdir]
  constructor
  · exact fun hdown hmem => (hdown ".." hmem).2.2 rfl
  · intro hup name hname
    exact ⟨(hnames name hname).1.1, (hnames name hname).2, fun heq => hup (heq ▸ hname)⟩

theorem clean_along_slashes_ne (hnames : ∀ name ∈ names, IsName name) :
    clean (along "//" names) ≠ along "//" names := by
  intro hclean
  cases names with
  | nil => exact absurd hclean (by decide)
  | cons name rest =>
    obtain ⟨hname, hrest⟩ := List.forall_mem_cons.mp hnames
    have hchild : child "//" name = "/" ++ ("/" ++ name) := by
      rw [← String.append_assoc]
      rfl
    have hne : "/" ++ name ≠ "" := fun h => hname.1 (String.append_eq_empty_iff.mp h).2
    have hslashes : isRooted "//" = true := rfl
    obtain ⟨hbare, hbelow⟩ := below_along (unslashed_child hslashes hname) hrest
    have halong : along "//" (name :: rest) = along (child "//" name) rest := rfl
    rw [hchild, below_root_append hne, segments_root_append, ← hchild, ← halong] at hbelow
    rw [← halong] at hbare
    have hdown := (isShortest_of_rooted hbare.1).mp (clean_eq_self_iff.mp hclean)
    exact (hdown "" (by simp [hbelow])).1 rfl

def parts (p : String) : List String := (segments p).filter fun s => s ≠ "" ∧ s ≠ "."

theorem mem_parts {s : String} : s ∈ parts p ↔ s ∈ segments p ∧ s ≠ "" ∧ s ≠ "." := by
  simp [parts]

theorem isName_of_mem_parts {s : String} (h : s ∈ parts p) : IsName s ∧ s ≠ "." := by
  obtain ⟨hsegment, hempty, hdot⟩ := mem_parts.mp h
  exact ⟨isName_of_mem_segments hsegment hempty, hdot⟩

theorem absolute?_eq_some {root : String} (h : absolute? here p = some root) :
    root = if endsInSlash p then asDirectory (along (origin here p) (parts p)) else along (origin here p) (parts p) := by
  have hdots (ss : List String) : (ss.filter fun s => s ≠ "" ∧ s ≠ ".").filter (· ≠ ".") =
      ss.filter fun s => s ≠ "" ∧ s ≠ "." := by
    rw [List.filter_filter]
    refine List.filter_congr fun s _ => ?_
    by_cases hdot : s = "." <;> simp [hdot]
  have hparts : (components p).filter (· ≠ ".") = parts p := by
    unfold components parts
    split
    · next rest hsegments =>
      -- only a dot in front is among the components
      rw [List.filter_cons_of_neg (by decide), hdots, hsegments, List.filter_cons_of_neg (by decide)]
    · exact hdots _
  unfold absolute? at h
  split at h
  · cases h
  · rw [hparts] at h
    exact (Option.some.inj h).symm

private theorem endsInSlash_slash (dir : String) : endsInSlash (dir ++ "/") = true := by
  simp [endsInSlash]

theorem endsInSlash_asDirectory (hdir : dir ≠ "") : endsInSlash (asDirectory dir) = true := by
  unfold asDirectory
  split
  · next h => exact h.resolve_left hdir
  · exact endsInSlash_slash dir

/-- A slash behind a directory makes no difference to what is below it. -/
theorem child_asDirectory (hdir : dir ≠ "") (name : String) : child (asDirectory dir) name = child dir name := by
  unfold asDirectory
  by_cases hend : endsInSlash dir = true
  · rw [if_pos (.inr hend)]
  · rw [if_neg (not_or.mpr ⟨hdir, hend⟩), child, child, if_pos (endsInSlash_slash dir), if_neg hend]

/-- With the slash of a directory, only the root is clean. -/
theorem clean_asDirectory_iff (hdir : dir ≠ "") :
    clean (asDirectory dir) = asDirectory dir ↔ clean dir = dir ∧ asDirectory dir = "/" := by
  constructor
  · intro hclean
    have hroot : asDirectory dir = "/" := by
      rw [← hclean]
      apply eq_root_of_endsInSlash_clean
      rw [hclean]
      exact endsInSlash_asDirectory hdir
    have hsame : dir = "/" := by
      unfold asDirectory at hroot
      split at hroot
      · exact hroot
      · have hlist := congrArg String.toList hroot
        rw [String.toList_append, List.append_left_eq_self] at hlist
        exact absurd (String.toList_inj.mp hlist) hdir
    refine ⟨?_, hroot⟩
    rw [hsame]
    rfl
  · rintro ⟨-, hroot⟩
    rw [hroot]
    rfl

theorem origin_cases (here p : String) : origin here p = "/" ∨ origin here p = "//" ∨ origin here p = here := by
  unfold origin
  split <;> simp

theorem isRooted_origin (hrooted : isRooted here = true) (p : String) : isRooted (origin here p) = true := by
  rcases origin_cases here p with h | h | h
  · rw [h]
    rfl
  · rw [h]
    rfl
  · rwa [h]

theorem isRooted_absolute? {root : String} (hrooted : isRooted here = true) (h : absolute? here p = some root) :
    isRooted root = true := by
  have hjoined := isRooted_along (isRooted_origin hrooted p) (parts p)
  rw [absolute?_eq_some h]
  split
  · unfold asDirectory
    split
    · exact hjoined
    · exact (isRooted_append (ne_empty_of_isRooted hjoined) "/").trans hjoined
  · exact hjoined

/-- The parts of an argument, with names behind them, are clean where it starts when there is no step up and it
does not start with exactly two slashes. -/
private theorem clean_along_parts (hclean : clean here = here) (hrooted : isRooted here = true)
    (hnames : ∀ name ∈ names, IsEntryName name) :
    clean (along (origin here p) (parts p ++ names)) = along (origin here p) (parts p ++ names) ↔
      ".." ∉ segments p ∧ origin here p ≠ "//" := by
  have hall : ∀ name ∈ parts p ++ names, IsName name ∧ name ≠ "." := by
    rw [List.forall_mem_append]
    exact ⟨fun s h => isName_of_mem_parts h, fun s h => ⟨(hnames s h).1, (hnames s h).2.2.1⟩⟩
  have hup : ".." ∉ parts p ++ names ↔ ".." ∉ segments p := by
    have hnone : ".." ∉ names := fun h => (hnames ".." h).2.2.2 rfl
    rw [List.mem_append, or_iff_left hnone, mem_parts, and_iff_left (by decide)]
  rcases origin_cases here p with horigin | horigin | horigin
  · rw [horigin, clean_along_iff rfl rfl hall, hup, and_iff_left (by decide)]
  · rw [horigin]
    exact iff_of_false (clean_along_slashes_ne fun name h => (hall name h).1) fun h => h.2 rfl
  · have hslashes : here ≠ "//" := by
      rintro rfl
      exact absurd hclean (by decide)
    rw [horigin, clean_along_iff hclean hrooted hall, hup, and_iff_left hslashes]

/-- Paths below an absolute one are clean when the argument has no step up and does not start with exactly two
slashes. The absolute path itself also must not have kept a slash from the end of the argument. -/
theorem clean_along_absolute {root : String} (hclean : clean here = here) (hrooted : isRooted here = true)
    (hroot : absolute? here p = some root) (hnames : ∀ name ∈ names, IsEntryName name) :
    clean (along root names) = along root names ↔
      ".." ∉ segments p ∧ origin here p ≠ "//" ∧ (names = [] → endsInSlash p = true → root = "/") := by
  have hjoined : along (origin here p) (parts p) ≠ "" :=
    ne_empty_of_isRooted (isRooted_along (isRooted_origin hrooted p) (parts p))
  have hsplit : along (origin here p) (parts p ++ names) = along (along (origin here p) (parts p)) names :=
    List.foldl_append
  have hkey := clean_along_parts (p := p) hclean hrooted hnames
  rw [hsplit] at hkey
  rw [← and_assoc, ← hkey, absolute?_eq_some hroot]
  generalize along (origin here p) (parts p) = joined at hjoined
  cases names with
  | nil =>
    have hnil (dir : String) : along dir [] = dir := rfl
    split
    · next hend => simpa [hnil, hend] using clean_asDirectory_iff hjoined
    · next hend => simp [hend]
  | cons name rest =>
    have hbelow (dir : String) : along dir (name :: rest) = along (child dir name) rest := rfl
    split
    · simp [hbelow, child_asDirectory hjoined]
    · simp

end VolumeSearch.SlashPath
