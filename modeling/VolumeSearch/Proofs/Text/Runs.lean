import Mathlib.Tactic.Common
import VolumeSearch.Text.Basic

namespace VolumeSearch.Text

variable {p : Char → Bool}

private theorem runsFrom_append_sep {sep : Char} (hsep : p sep = false)
    (run s t : List Char) : runsFrom p run (s ++ sep :: t) = runsFrom p run s ++ runsFrom p [] t := by
  induction s generalizing run with
  | nil =>
    rw [List.nil_append, runsFrom, runsFrom, hsep, if_neg Bool.false_ne_true]
    cases run <;> rfl
  | cons c rest ih =>
    rw [List.cons_append, runsFrom, runsFrom]
    split
    · exact ih _
    · split
      · exact ih _
      · rw [ih, List.cons_append]

/-- No run goes beyond a character that is in none. -/
theorem runs_append_sep {sep : Char} (hsep : p sep = false) (s t : List Char) :
    runs p (s ++ sep :: t) = runs p s ++ runs p t :=
  runsFrom_append_sep hsep [] s t

theorem runs_between {front back : List Char} (hfront : ∀ c ∈ front, p c = false)
    (hback : ∀ c ∈ back, p c = false) (s : List Char) : runs p (front ++ s ++ back) = runs p s := by
  have hskip {l : List Char} (hl : ∀ c ∈ l, p c = false) (t : List Char) :
      runs p (l ++ t) = runs p t := by
    induction l with
    | nil => rfl
    | cons c rest ih =>
      have hstep : runs p (c :: (rest ++ t)) = runs p (rest ++ t) :=
        runs_append_sep (hl c List.mem_cons_self) [] _
      exact hstep.trans (ih fun c hc => hl c (List.mem_cons_of_mem _ hc))
  rw [List.append_assoc, hskip hfront]
  cases back with
  | nil => rw [List.append_nil]
  | cons c rest =>
    have hnone : runs p rest = [] := by
      have hall := hskip (fun c hc => hback c (List.mem_cons_of_mem _ hc)) []
      rwa [List.append_nil] at hall
    rw [runs_append_sep (hback c List.mem_cons_self), hnone, List.append_nil]

/-- Texts that go on any run alike do so after more characters too. -/
theorem runsFrom_append_congr {t t' : List Char} (h : ∀ run, runsFrom p run t = runsFrom p run t')
    (run s : List Char) : runsFrom p run (s ++ t) = runsFrom p run (s ++ t') := by
  induction s generalizing run with
  | nil => exact h run
  | cons c rest ih => rw [List.cons_append, List.cons_append, runsFrom, runsFrom, ih, ih]

private theorem mem_runsFrom {run s w : List Char} (hrun : ∀ c ∈ run, p c = true)
    (h : w ∈ runsFrom p run s) : w <:+: run.reverse ++ s ∧ w ≠ [] ∧ ∀ c ∈ w, p c = true := by
  induction s generalizing run with
  | nil =>
    rw [runsFrom] at h
    split at h
    · exact absurd h List.not_mem_nil
    · next hne =>
      obtain rfl := List.mem_singleton.mp h
      rw [List.append_nil]
      exact ⟨List.infix_refl _, by simpa using hne, by simpa using hrun⟩
  | cons c rest ih =>
    -- after a character that is in no run nothing has been gathered
    have hlater (h : w ∈ runsFrom p [] rest) :
        w <:+: run.reverse ++ c :: rest ∧ w ≠ [] ∧ ∀ c ∈ w, p c = true := by
      obtain ⟨hpart, hw⟩ := ih (fun _ h => absurd h List.not_mem_nil) h
      refine ⟨hpart.trans ?_, hw⟩
      exact ((List.suffix_cons c rest).trans (List.suffix_append _ _)).isInfix
    rw [runsFrom] at h
    split at h
    · next hc =>
      have hboth : run.reverse ++ c :: rest = (c :: run).reverse ++ rest := by simp
      rw [hboth]
      exact ih (List.forall_mem_cons.mpr ⟨hc, hrun⟩) h
    · split at h
      · exact hlater h
      · next hne =>
        rcases List.mem_cons.mp h with rfl | h
        · exact ⟨(List.prefix_append _ _).isInfix, by simpa using hne, by simpa using hrun⟩
        · exact hlater h

/-- A run is a part of the text, not empty, and all its characters satisfy `p`. -/
theorem mem_runs {s w : List Char} (h : w ∈ runs p s) : w <:+: s ∧ w ≠ [] ∧ ∀ c ∈ w, p c = true :=
  mem_runsFrom (fun _ h => absurd h List.not_mem_nil) h

/-- What has no separator lies on one side of it. -/
private theorem infix_or_infix {l xs ys : List Char} {sep : Char} (hsep : sep ∉ l)
    (h : l <:+: xs ++ sep :: ys) : l <:+: xs ∨ l <:+: ys := by
  have hnil {l : List Char} (hsep : sep ∉ l) (h : l <+: sep :: ys) : l = [] := by
    rcases List.prefix_cons_iff.mp h with rfl | ⟨t, rfl, -⟩
    · rfl
    · exact absurd List.mem_cons_self hsep
  rcases List.infix_append_iff.mp h with h | h | ⟨front, back, rfl, hfront, hback⟩
  · exact .inl h
  · rcases List.infix_cons_iff.mp h with h | h
    · obtain rfl := hnil hsep h
      exact .inl List.nil_infix
    · exact .inr h
  · obtain rfl := hnil (fun hmem => hsep (List.mem_append_right _ hmem)) hback
    rw [List.append_nil]
    exact .inl hfront.isInfix

private theorem exists_runsFrom_of_infix {run s l : List Char} (hne : l ≠ [])
    (hl : ∀ c ∈ l, p c = true) (h : l <:+: run.reverse ++ s) : ∃ w ∈ runsFrom p run s, l <:+: w := by
  have hrun {run : List Char} (h : l <:+: run.reverse) : ¬ run.isEmpty = true := by
    intro hempty
    rw [List.isEmpty_iff.mp hempty] at h
    exact hne (List.infix_nil.mp h)
  induction s generalizing run with
  | nil =>
    rw [List.append_nil] at h
    rw [runsFrom, if_neg (hrun h)]
    exact ⟨_, List.mem_singleton_self _, h⟩
  | cons c rest ih =>
    rw [runsFrom]
    by_cases hc : p c = true
    · rw [if_pos hc]
      exact ih (by simpa using h)
    · rw [if_neg hc]
      -- the character is not in `l`, which therefore lies before it or after it
      rcases infix_or_infix (fun hmem => hc (hl c hmem)) h with h | h
      · rw [if_neg (hrun h)]
        exact ⟨_, List.mem_cons_self, h⟩
      · have hrest : l <:+: [].reverse ++ rest := h
        obtain ⟨w, hw, hpart⟩ := ih hrest
        split
        · exact ⟨w, hw, hpart⟩
        · exact ⟨w, List.mem_cons_of_mem _ hw, hpart⟩

/-- Every run of a part of a text is part of a run of the text. -/
theorem exists_run_of_infix {u s w : List Char} (h : u <:+: s) (hw : w ∈ runs p u) :
    ∃ w' ∈ runs p s, w <:+: w' := by
  obtain ⟨hpart, hne, hall⟩ := mem_runs hw
  exact exists_runsFrom_of_infix hne hall (hpart.trans h)

end VolumeSearch.Text
