import Mathlib.Tactic.Common
import Mathlib.Data.List.Perm.Subperm
import VolumeSearch.Proofs.Text.Blank
import VolumeSearch.Proofs.Text.Lowercase
import VolumeSearch.Terms

namespace VolumeSearch.Term
open VolumeSearch.Text

theorem isTokenChar_of_isBlank {c : Char} (h : isBlank c = true) : isTokenChar c = false := by
  simp [isTokenChar, h]

/-- The tokens are found in the text lowered character by character. -/
theorem tokens_eq (s : String) :
    tokens s = (runs isTokenChar (s.toList.flatMap lowerAlone)).map String.ofList := by
  have hsigma : isTokenChar 'σ' = false := by decide +kernel
  have hfinal : isTokenChar 'ς' = false := by decide +kernel
  rw [tokens, runs_lowercaseChars hsigma hfinal]

/-- A character without another lower-case form stays between the parts of a text that is lowered. -/
theorem lower_append_sep {sep : Char} (hkept : lowerAlone sep = [sep]) (s t : String) :
    (s ++ String.singleton sep ++ t).toList.flatMap lowerAlone =
      s.toList.flatMap lowerAlone ++ sep :: t.toList.flatMap lowerAlone := by
  simp [hkept]

/-- No token goes beyond a character that is in none. -/
theorem tokens_append_sep {sep : Char} (hsep : isTokenChar sep = false) (hkept : lowerAlone sep = [sep])
    (s t : String) : tokens (s ++ String.singleton sep ++ t) = tokens s ++ tokens t := by
  rw [tokens_eq, tokens_eq, tokens_eq, lower_append_sep hkept, runs_append_sep hsep, List.map_append]

theorem tokens_append_slash (s t : String) : tokens (s ++ "/" ++ t) = tokens s ++ tokens t := by
  have hslash : isTokenChar '/' = false := by decide +kernel
  have hkept : lowerAlone '/' = ['/'] := by decide +kernel
  exact tokens_append_sep hslash hkept s t

/-- Blanks around a text are in no run of characters that are not blank, in lower case either. -/
theorem runs_lower_trimChars {p : Char → Bool} (hblank : ∀ c, isBlank c = true → p c = false)
    (s : List Char) :
    runs p ((trimChars s).flatMap lowerAlone) = runs p (s.flatMap lowerAlone) := by
  obtain ⟨front, back, hsplit, hfront, hback⟩ := trimChars_split s
  have hsame {l : List Char} (hl : ∀ c ∈ l, isBlank c = true) : l.flatMap lowerAlone = l := by
    induction l with
    | nil => rfl
    | cons c rest ih =>
      rw [List.flatMap_cons, lowerAlone_of_isBlank (hl c List.mem_cons_self),
        ih fun c hc => hl c (List.mem_cons_of_mem _ hc)]
      rfl
  have hlower : s.flatMap lowerAlone = front ++ (trimChars s).flatMap lowerAlone ++ back := by
    conv_lhs => rw [hsplit]
    rw [List.flatMap_append, List.flatMap_append, hsame hfront, hsame hback]
  rw [hlower, runs_between (fun c hc => hblank c (hfront c hc)) fun c hc => hblank c (hback c hc)]

theorem tokens_trim (s : String) : tokens (trim s) = tokens s := by
  rw [tokens_eq, tokens_eq, trim, String.toList_ofList,
    runs_lower_trimChars fun c hc => isTokenChar_of_isBlank hc]

/-- The pairs are the parts of two characters. -/
theorem mem_pairs {g s : List Char} : g ∈ pairs s ↔ ∃ a b, g = [a, b] ∧ [a, b] <:+: s := by
  induction s with
  | nil => simp [pairs]
  | cons c rest ih =>
    cases rest with
    | nil => simp [pairs, List.infix_cons_iff, List.cons_prefix_cons]
    | cons d rest =>
      rw [pairs, List.mem_cons, ih]
      constructor
      · rintro (rfl | ⟨a, b, rfl, hpart⟩)
        · exact ⟨c, d, rfl, (List.prefix_append [c, d] rest).isInfix⟩
        · exact ⟨a, b, rfl, hpart.trans (List.suffix_cons c _).isInfix⟩
      · rintro ⟨a, b, rfl, hpart⟩
        rcases List.infix_cons_iff.mp hpart with hfront | hpart
        · obtain ⟨rfl, hrest⟩ := List.cons_prefix_cons.mp hfront
          obtain ⟨rfl, -⟩ := List.cons_prefix_cons.mp hrest
          exact .inl rfl
        · exact .inr ⟨a, b, rfl, hpart⟩

theorem pairs_subset {s t : List Char} (h : s <:+: t) : pairs s ⊆ pairs t := by
  intro g hg
  obtain ⟨a, b, rfl, hpart⟩ := mem_pairs.mp hg
  exact mem_pairs.mpr ⟨a, b, rfl, hpart.trans h⟩

private theorem sigma_in_no_run : (isTokenChar 'σ' = false ∧ isTokenChar 'ς' = false) ∧
    isCJK 'σ' = false ∧ isCJK 'ς' = false := by decide +kernel

/-- The n-grams are found in the text lowered character by character. -/
theorem ngrams_eq (s : String) : ngrams s =
    ((((runs isTokenChar (s.toList.flatMap lowerAlone)).filter fun w => minTokenLength ≤ w.length) ++
      runs isCJK (s.toList.flatMap lowerAlone)).flatMap pairs).map String.ofList := by
  obtain ⟨⟨hsigma, hfinal⟩, hsigma', hfinal'⟩ := sigma_in_no_run
  rw [ngrams, runs_lowercaseChars hsigma hfinal, runs_lowercaseChars hsigma' hfinal']

/-- The pairs within the runs that are long enough, of token characters or of CJK characters. -/
theorem mem_ngrams {g s : String} :
    g ∈ ngrams s ↔ ∃ w, String.toList g ∈ pairs w ∧
      ((w ∈ runs isTokenChar (s.toList.flatMap lowerAlone) ∧ minTokenLength ≤ w.length) ∨
        w ∈ runs isCJK (s.toList.flatMap lowerAlone)) := by
  have hlist (pair : List Char) : String.ofList pair = g ↔ pair = g.toList := by
    rw [← String.toList_inj, String.toList_ofList]
  simp only [ngrams_eq, List.mem_map, List.mem_flatMap, List.mem_append, List.mem_filter, decide_eq_true_eq,
    hlist, exists_eq_right]
  exact exists_congr fun w => and_comm

/-- A character that is in no token and in no run of CJK characters parts the n-grams; those of tokens come before
the others on each side, so they change places. -/
theorem ngrams_append_sep {sep : Char} (hsep : isTokenChar sep = false) (hcjk : isCJK sep = false)
    (hkept : lowerAlone sep = [sep]) (s t : String) :
    (ngrams (s ++ String.singleton sep ++ t)).Perm (ngrams s ++ ngrams t) := by
  rw [ngrams_eq, ngrams_eq, ngrams_eq, lower_append_sep hkept, runs_append_sep hsep, runs_append_sep hcjk,
    List.filter_append, ← List.map_append, ← List.flatMap_append]
  refine List.Perm.map _ (List.Perm.flatMap_right _ ?_)
  rw [List.append_assoc, List.append_assoc]
  exact (List.perm_append_comm_assoc _ _ _).append_left _

theorem ngrams_subset {s t : String} (h : s.toList <:+: t.toList) : ngrams s ⊆ ngrams t := by
  have hlower : s.toList.flatMap lowerAlone <:+: t.toList.flatMap lowerAlone := by
    obtain ⟨front, back, hsplit⟩ := h
    refine ⟨front.flatMap lowerAlone, back.flatMap lowerAlone, ?_⟩
    rw [← List.flatMap_append, ← List.flatMap_append, hsplit]
  intro g hg
  obtain ⟨w, hpair, ⟨hrun, hlong⟩ | hrun⟩ := mem_ngrams.mp hg
  · obtain ⟨w', hrun', hpart⟩ := exists_run_of_infix hlower hrun
    exact mem_ngrams.mpr ⟨w', pairs_subset hpart hpair, .inl ⟨hrun', Nat.le_trans hlong hpart.length_le⟩⟩
  · obtain ⟨w', hrun', hpart⟩ := exists_run_of_infix hlower hrun
    exact mem_ngrams.mpr ⟨w', pairs_subset hpart hpair, .inr hrun'⟩

/-- Separators stay as they are in lower case, and are in no run. -/
private theorem separator_in_no_run {sep : Char} (h : sep ∈ ['/', '.', '_', '-', ' ']) :
    isTokenChar sep = false ∧ isCJK sep = false ∧ lowerAlone sep = [sep] := by
  have hall : (['/', '.', '_', '-', ' '].all fun sep =>
      !isTokenChar sep && !isCJK sep && lowerAlone sep == [sep]) = true := by decide +kernel
  have hsep := List.all_eq_true.mp hall sep h
  simpa [and_assoc] using hsep

/-- A token has at least one character, and only those of tokens, in lower case. -/
theorem mem_tokens {t s : String} (h : t ∈ tokens s) :
    t ≠ "" ∧ ∀ c ∈ t.toList, isTokenChar c = true ∧ IsLower c := by
  obtain ⟨w, hw, rfl⟩ := List.mem_map.mp h
  obtain ⟨hpart, hne, hall⟩ := mem_runs hw
  rw [String.toList_ofList]
  refine ⟨fun hempty => hne ?_, fun c hc => ⟨hall c hc, isLower_of_mem_lowercaseFrom (hpart.subset hc)⟩⟩
  rw [← String.toList_ofList (l := w), hempty, String.toList_empty]

theorem isTokenChar_iff {c : Char} : isTokenChar c = true ↔
    c.toNat < 0x80 ∧ isBlank c = false ∧ c ∉ ['/', '.', '_', '-', ' '] := by
  have hspace (h : isBlank c = false) : c ≠ ' ' := by
    rintro rfl
    exact absurd h (by decide)
  simp only [isTokenChar, isSeparator, Bool.and_eq_true, Bool.not_eq_true', Bool.or_eq_false_iff,
    decide_eq_true_eq, decide_eq_false_iff_not, List.mem_cons, List.not_mem_nil, or_false, not_or]
  constructor
  · rintro ⟨⟨hascii, hblank⟩, ⟨⟨hslash, hdot⟩, hlow⟩, hdash⟩
    exact ⟨hascii, hblank, hslash, hdot, hlow, hdash, hspace hblank⟩
  · rintro ⟨hascii, hblank, hslash, hdot, hlow, hdash, -⟩
    exact ⟨⟨hascii, hblank⟩, ⟨⟨hslash, hdot⟩, hlow⟩, hdash⟩

/-- What the lower-case form of a text gives is what the text gives. -/
theorem tokens_lowercase (s : String) : tokens (lowercase s) = tokens s := by
  rw [tokens, tokens, lowercase, String.toList_ofList, lowercaseChars_lowercaseChars]

theorem ngrams_lowercase (s : String) : ngrams (lowercase s) = ngrams s := by
  rw [ngrams, ngrams, lowercase, String.toList_ofList, lowercaseChars_lowercaseChars]

/-- A separator parts the tokens of a text, and its n-grams in another order; to lower the text beforehand makes no
difference. Tokens are ASCII, neither empty nor with separators, blanks or capitals in them. So the families of
paths have the tokens of an entry's name, after those of its directory, and its n-grams, at least as often as the
families of names have them. -/
theorem terms_across_separators :
    (∀ sep ∈ ['/', '.', '_', '-', ' '], ∀ a b : String,
      tokens (a ++ String.singleton sep ++ b) = tokens a ++ tokens b ∧
      (ngrams (a ++ String.singleton sep ++ b)).Perm (ngrams a ++ ngrams b)) ∧
    (∀ s, tokens (lowercase s) = tokens s ∧ ngrams (lowercase s) = ngrams s) ∧
    (∀ s, ∀ t ∈ tokens s, t ≠ "" ∧ ∀ c ∈ t.toList,
      c.toNat < 0x80 ∧ c ∉ ['/', '.', '_', '-', ' '] ∧ isBlank c = false ∧ c.isUpper = false) ∧
    (∀ (e : Entry) (dir : String), e.path = dir ++ "/" ++ e.name →
      Family.name.terms e <:+ Family.path.terms e ∧
      (Family.nameNgram.terms e).Subperm (Family.pathNgram.terms e)) := by
  have hparted (sep : Char) (hsep : sep ∈ ['/', '.', '_', '-', ' ']) (a b : String) :
      tokens (a ++ String.singleton sep ++ b) = tokens a ++ tokens b ∧
        (ngrams (a ++ String.singleton sep ++ b)).Perm (ngrams a ++ ngrams b) := by
    obtain ⟨htoken, hcjk, hkept⟩ := separator_in_no_run hsep
    exact ⟨tokens_append_sep htoken hkept a b, ngrams_append_sep htoken hcjk hkept a b⟩
  refine ⟨hparted, fun s => ⟨tokens_lowercase s, ngrams_lowercase s⟩, fun s t ht => ?_, fun e dir hpath => ?_⟩
  · obtain ⟨hne, hall⟩ := mem_tokens ht
    refine ⟨hne, fun c hc => ?_⟩
    obtain ⟨htoken, hlower⟩ := hall c hc
    obtain ⟨hascii, hblank, hsep⟩ := isTokenChar_iff.mp htoken
    exact ⟨hascii, hsep, hblank, isUpper_of_isLower hlower hascii⟩
  · have hslash : e.path = dir ++ String.singleton '/' ++ e.name := hpath
    obtain ⟨htokens, hngrams⟩ := hparted '/' (by simp) dir e.name
    rw [← hslash] at htokens hngrams
    refine ⟨⟨tokens dir, htokens.symm⟩, ?_⟩
    exact (List.sublist_append_right (ngrams dir) _).subperm.trans hngrams.symm.subperm

/-- A sigma that ends its word before a dash, a token with a Kelvin sign, and an entry two directories down. -/
theorem terms_across_dash :
    let e : Entry := ⟨7, "/Fotos/2024/ΟΔΟΣ_東京都.JPG", "ΟΔΟΣ_東京都.JPG", "jpg", 0, 0, false, false⟩
    '-' ∈ ['/', '.', '_', '-', ' '] ∧
    (ngrams ("ΟΔΟΣ" ++ String.singleton '-' ++ "İzmir 東京")).Perm (ngrams "ΟΔΟΣ" ++ ngrams "İzmir 東京") ∧
    "k2" ∈ tokens "Fahrt.\u212a2" ∧ (∀ c ∈ "k2".toList, c.isUpper = false) ∧
    e.path = "/Fotos/2024" ++ "/" ++ e.name ∧ Family.name.terms e <:+ Family.path.terms e ∧
    (Family.nameNgram.terms e).Subperm (Family.pathNgram.terms e) := by
  intro e
  have hdash : '-' ∈ ['/', '.', '_', '-', ' '] := by decide
  have hkelvin : "k2" ∈ tokens "Fahrt.\u212a2" := by decide +kernel
  have hpath : e.path = "/Fotos/2024" ++ "/" ++ e.name := rfl
  obtain ⟨hparted, -, htokens, hentry⟩ := terms_across_separators
  obtain ⟨-, hall⟩ := htokens _ _ hkelvin
  exact ⟨hdash, (hparted _ hdash _ _).2, hkelvin, fun c hc => (hall c hc).2.2.2, hpath, hentry e _ hpath⟩

end VolumeSearch.Term
