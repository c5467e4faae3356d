import Mathlib.Data.List.Induction
import Mathlib.Tactic.Common
import VolumeSearch.Proofs.SlashPath.Shortest

namespace VolumeSearch.SlashPath

variable {p q : String}

/-- On any stack, relative segments lead where their cleaned form leads. -/
theorem foldl_push_cleaned (rooted : Bool) (stack ss : List String) :
    ss.foldl (push rooted) stack = ((ss.foldl (push false) []).reverse).foldl (push rooted) stack := by
  induction ss using List.reverseRecOn with
  | nil => rfl
  | append_singleton ss s ih =>
    have hdirect : IsDirect false (ss.foldl (push false) []).reverse := isDirect_foldl_push (isDirect_nil false) ss
    rw [List.foldl_append, List.foldl_append, ih]
    generalize ss.foldl (push false) [] = cleaned at hdirect
    simp only [List.foldl_cons, List.foldl_nil]
    rcases segment_cases s with hskip | rfl | hdown
    · rw [push_skip hskip, push_skip hskip]
    · obtain ⟨names, ups, rfl, hnames, -⟩ := isDirect_reverse.mp hdirect
      cases names with
      | cons name rest =>
        -- the name that the step up takes back was the last one on both sides
        obtain ⟨hname, -⟩ := List.forall_mem_cons.mp hnames
        rw [List.cons_append, push_up_of_down hname, List.reverse_cons, List.foldl_append, List.foldl_cons,
          List.foldl_nil, push_down hname, push_up_of_down hname]
      | nil =>
        rw [List.nil_append, push_up_of_ups, List.reverse_replicate, List.reverse_replicate,
          List.replicate_succ', List.foldl_append]
        rfl
    · rw [push_down hdown, push_down hdown, List.reverse_cons, List.foldl_append, List.foldl_cons, List.foldl_nil,
        push_down hdown]

theorem isRooted_append_slash (hp : p ≠ "") (q : String) : isRooted (p ++ "/" ++ q) = isRooted p := by
  rw [String.append_assoc]
  exact isRooted_append hp _

/-- The segments of a path behind another one are pushed on the cleaned segments of that one. -/
theorem cleanSegments_append_slash (hp : p ≠ "") (q : String) : cleanSegments (p ++ "/" ++ q) =
    ((segments q).foldl (push (isRooted p)) (cleanSegments p).reverse).reverse := by
  rw [cleanSegments, isRooted_append_slash hp, segments_append_slash, List.foldl_append, cleanSegments,
    List.reverse_reverse]

/-- Behind a path, the segments of a relative one may be cleaned first. -/
private theorem foldl_push_segments (hq : isRooted q = false) (rooted : Bool) (stack : List String) :
    (segments q).foldl (push rooted) stack = (cleanSegments q).foldl (push rooted) stack := by
  rw [foldl_push_cleaned, cleanSegments, hq]

theorem clean_ne_empty (p : String) : clean p ≠ "" := by
  intro hempty
  have hclean := clean_of_isShortest (isShortest_clean p)
  rw [hempty] at hclean
  exact absurd hclean (by decide)

theorem clean_congr {p p' : String} (hrooted : isRooted p = isRooted p')
    (hsegments : cleanSegments p = cleanSegments p') : clean p = clean p' := by
  rw [clean_eq, clean_eq, hrooted, hsegments]

theorem clean_front (hp : p ≠ "") (q : String) : clean (p ++ "/" ++ q) = clean (clean p ++ "/" ++ q) := by
  have hne := clean_ne_empty p
  apply clean_congr
  · rw [isRooted_append_slash hp, isRooted_append_slash hne, isRooted_clean]
  · rw [cleanSegments_append_slash hp, cleanSegments_append_slash hne, isRooted_clean, cleanSegments_clean]

theorem clean_back (hp : p ≠ "") (hq : isRooted q = false) :
    clean (p ++ "/" ++ q) = clean (p ++ "/" ++ clean q) := by
  have hclean : isRooted (clean q) = false := (isRooted_clean q).trans hq
  apply clean_congr
  · rw [isRooted_append_slash hp, isRooted_append_slash hp]
  · rw [cleanSegments_append_slash hp, cleanSegments_append_slash hp, foldl_push_segments hq,
      foldl_push_segments hclean, cleanSegments_clean]

/-- Behind a path, the empty one counts for nothing. -/
theorem join_eq {a : String} (ha : a ≠ "") (b : String) : join a b = clean (a ++ "/" ++ b) := by
  rw [join, if_neg ha]
  split
  · next hb =>
    have hempty : segments "" = [""] := rfl
    apply clean_congr
    · rw [isRooted_append_slash ha]
    · rw [cleanSegments_append_slash ha, hb, hempty, List.foldl_cons, push_skip (.inl rfl), List.foldl_nil,
        List.reverse_reverse]
  · rfl

theorem join_assoc {a b c : String} (hb : b ≠ "") (hrelative : isRooted b = false) :
    join (join a b) c = join a (join b c) := by
  rw [join_eq hb]
  by_cases ha : a = ""
  · have hfirst {q : String} (hq : q ≠ "") : join a q = clean q := by
      rw [join, if_pos ha, if_neg hq]
    rw [hfirst hb, hfirst (clean_ne_empty _), join_eq (clean_ne_empty b), ← clean_front hb,
      clean_of_isShortest (isShortest_clean _)]
  · have hbehind : isRooted (b ++ "/" ++ c) = false := (isRooted_append_slash hb c).trans hrelative
    have hfront : a ++ "/" ++ b ≠ "" := by
      intro hempty
      exact ha (String.append_eq_empty_iff.mp (String.append_eq_empty_iff.mp hempty).1).1
    calc join (join a b) c
      _ = clean (clean (a ++ "/" ++ b) ++ "/" ++ c) := by rw [join_eq ha, join_eq (clean_ne_empty _)]
      _ = clean (a ++ "/" ++ b ++ "/" ++ c) := (clean_front hfront c).symm
      _ = clean (a ++ "/" ++ (b ++ "/" ++ c)) := by simp only [String.append_assoc]
      _ = clean (a ++ "/" ++ clean (b ++ "/" ++ c)) := clean_back ha hbehind
      _ = join a (clean (b ++ "/" ++ c)) := (join_eq ha _).symm

/-- Cleaning gives the shortest form of a path, and a second time changes nothing. Of two paths one behind the
other, either may be cleaned first, the one behind only if it is relative. So it does not matter in which order
paths are joined. -/
theorem clean_and_join_laws :
    (∀ p, IsShortest (clean p) ∧ isRooted (clean p) = isRooted p ∧
      (endsInSlash (clean p) = true → clean p = "/") ∧ clean (clean p) = clean p) ∧
    (∀ p q, p ≠ "" → clean (p ++ "/" ++ q) = clean (clean p ++ "/" ++ q) ∧
      (isRooted q = false → clean (p ++ "/" ++ q) = clean (p ++ "/" ++ clean q))) ∧
    ∀ a b c, b ≠ "" → isRooted b = false → join (join a b) c = join a (join b c) := by
  refine ⟨fun p => ?_, fun p q hp => ⟨clean_front hp q, clean_back hp⟩, fun a b c => join_assoc⟩
  have hshortest := isShortest_clean p
  exact ⟨hshortest, isRooted_clean p, eq_root_of_endsInSlash_clean, clean_of_isShortest hshortest⟩

/-- Steps up that cross the border between two paths, and one that leaves them both. -/
theorem clean_and_join_across : "a/./.." ≠ "" ∧ isRooted "../../b/" = false ∧ "../../b/" ≠ "" ∧
    clean ("a/./.." ++ "/" ++ "../../b/") = clean ("." ++ "/" ++ "../../b/") ∧
    clean ("a/./.." ++ "/" ++ "../../b/") = clean ("a/./.." ++ "/" ++ "../../b") ∧
    join (join "a/./.." "../../b/") "../c" = join "a/./.." (join "../../b/" "../c") ∧
    join "a/./.." (join "../../b/" "../c") = "../../c" := by
  obtain ⟨-, hparts, hjoin⟩ := clean_and_join_laws
  have hfront : "a/./.." ≠ "" := by decide
  have hback : "../../b/" ≠ "" := by decide
  have hrelative : isRooted "../../b/" = false := by decide
  obtain ⟨hfirst, hsecond⟩ := hparts "a/./.." "../../b/" hfront
  exact ⟨hfront, hrelative, hback, hfirst, hsecond hrelative, hjoin _ _ _ hback hrelative, by decide⟩

end VolumeSearch.SlashPath
