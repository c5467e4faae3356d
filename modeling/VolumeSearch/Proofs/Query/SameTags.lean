import VolumeSearch.Proofs.Query.Tags

/-! Queries that name the same tags. What a query becomes, and which lookups are made for it in which order,
depends on its other predicates and on the two sets of tags that it asks for and rules out, not on how these
tags are spread over its predicates. -/
namespace VolumeSearch.Query

section Lookups
variable {m : Type → Type} [Monad m] [LawfulMonad m] (lookup : List String → m (List String))

theorem resolveTagsM_pure (lookup : List String → List String) (ps : List Predicate) :
    resolveTagsM (m := m) (fun tags => pure (lookup tags)) ps = pure (resolveTags lookup ps) := by
  have hkeys (tags : List String) : keysM (m := m) (fun tags => pure (lookup tags)) tags =
      pure (if tags = [] then [] else lookup tags) := by
    unfold keysM
    split <;> rfl
  have hincluded (tags : List String) :
      includedKeys (fun _ => if tags = [] then [] else lookup tags) tags = includedKeys lookup tags := by
    unfold includedKeys
    split <;> rfl
  have hexcluded (tags : List String) :
      excludedKeys (fun _ => if tags = [] then [] else lookup tags) tags = excludedKeys lookup tags := by
    unfold excludedKeys
    split <;> rfl
  unfold resolveTagsM resolveTags
  split
  · rfl
  · simp only [hkeys, pure_bind, hincluded, hexcluded]

private theorem run_keysM_logged (tags : List String) (log : List (List String)) :
    (keysM (logged lookup) tags).run log =
      (fun keys => (keys, log ++ [tags].filter (· ≠ []))) <$> keysM lookup tags := by
  unfold keysM
  split
  · next hnone => simp [hnone]
  · next hsome => simp [hsome, logged]

/-- The lookups of a list of predicates are those of its sides, and to log them changes nothing else. -/
theorem run_resolveTagsM_logged (ps : List Predicate) :
    (resolveTagsM (logged lookup) ps).run [] =
      (fun out => (out, tagLookups ps)) <$> resolveTagsM lookup ps := by
  unfold resolveTagsM
  split
  · next hnone => simp [hnone]
  · have hlog : ([] ++ [tagSide false ps].filter (· ≠ [])) ++ [tagSide true ps].filter (· ≠ []) =
        tagLookups ps := by
      rw [List.nil_append, ← List.filter_append]
      rfl
    simp only [StateT.run_bind, run_keysM_logged, StateT.run_pure, map_eq_pure_bind, bind_assoc, pure_bind,
      hlog]

end Lookups

def Names (ps : List Predicate) (negative : Bool) (tag : String) : Prop :=
  ∃ p ∈ ps, p.isTag = true ∧ p.isNegative = negative ∧ tag ∈ p.tags

variable {ps ps' : List Predicate}

theorem names_iff {negative : Bool} {t : String} : Names ps negative t ↔
    t ∈ (ps.filter fun p => p.isTag && p.isNegative == negative).flatMap Predicate.tags :=
  mem_tagSide.symm.trans (Ascending.mem_ofList t _)

/-- A side is determined by the tags on it. -/
theorem tagSide_eq {negative : Bool} {tags : List String} (hasc : tags.Pairwise (· < ·))
    (h : ∀ t, Names ps negative t ↔ t ∈ tags) : tagSide negative ps = tags := by
  apply Ascending.eq_of_mem_iff (Ascending.ofList_pairwise_lt _) hasc
  intro t
  exact mem_tagSide.trans (h t)

theorem tagSide_congr (h : ∀ negative t, Names ps negative t ↔ Names ps' negative t) (negative : Bool) :
    tagSide negative ps = tagSide negative ps' :=
  tagSide_eq (Ascending.ofList_pairwise_lt _) fun t => (h negative t).trans mem_tagSide.symm

theorem tagLookups_ne_nil (h : ∃ negative t, Names ps negative t) : tagLookups ps ≠ [] := by
  obtain ⟨negative, t, p, hp, htag, -, ht⟩ := h
  intro hnone
  have hvacant := tagLookups_eq_nil.mp hnone p hp htag
  rw [← Predicate.tags_eq_nil] at hvacant
  rw [hvacant] at ht
  cases ht

/-- Of predicates that name a tag only the sides and the other predicates count, for any lookup. -/
theorem resolveTagsM_congr {m : Type → Type} [Monad m] (lookup : List String → m (List String))
    (hothers : ps.filter (!·.isTag) = ps'.filter (!·.isTag))
    (hsides : ∀ negative, tagSide negative ps = tagSide negative ps') (hsome : tagLookups ps ≠ []) :
    resolveTagsM lookup ps = resolveTagsM lookup ps' := by
  have hlookups : tagLookups ps = tagLookups ps' := by
    rw [tagLookups, tagLookups, hsides, hsides]
  rw [resolveTagsM, resolveTagsM, if_neg hsome, if_neg (hlookups ▸ hsome), hothers, hsides, hsides]

/-- What becomes of predicates that name a tag: the others stay in front, and predicates on keys follow. -/
theorem run_resolveTagsM {σ : Type} (lookup : List String → StateM σ (List String)) (s : σ)
    (hsome : tagLookups ps ≠ []) :
    ∃ keys s', (∀ p ∈ keys, p.name = idsField) ∧
      (resolveTagsM lookup ps).run s = (ps.filter (!·.isTag) ++ keys, s') := by
  cases hincluded : (keysM lookup (tagSide false ps)).run s with
  | mk included s₁ =>
    cases hexcluded : (keysM lookup (tagSide true ps)).run s₁ with
    | mk excluded s₂ =>
      refine ⟨includedKeys (fun _ => included) (tagSide false ps) ++
        excludedKeys (fun _ => excluded) (tagSide true ps), s₂, fun p hp => ?_, ?_⟩
      · rcases List.mem_append.mp hp with hp | hp
        · obtain ⟨-, rfl⟩ := (mem_includedKeys _).mp hp
          rfl
        · obtain ⟨-, -, rfl⟩ := (mem_excludedKeys _).mp hp
          rfl
      · rw [resolveTagsM, if_neg hsome, StateT.run_bind, hincluded, ← List.append_assoc]
        change (keysM lookup (tagSide true ps) >>= _).run s₁ = _
        rw [StateT.run_bind, hexcluded]
        rfl

/-- Two queries with the same other predicates, which name the same tags to ask for and the same to rule out,
at least one in all. Whatever the lookup does, both become the same predicates, the others in front and in
their order, and leave the lookup in the same state. Both make the same lookups: one for each of the two sets
that has a tag, first the tags asked for and then those ruled out, each time ascending and without repeats. -/
theorem parseWithTagsM_same_tags {query query' : String}
    (hothers : (parse query).filter (!·.isTag) = (parse query').filter (!·.isTag))
    (hnames : ∀ negative t, Names (parse query) negative t ↔ Names (parse query') negative t)
    (hsome : ∃ negative t, Names (parse query) negative t) :
    ∃ included excluded : List String,
      included.Pairwise (· < ·) ∧ (∀ t, t ∈ included ↔ Names (parse query) false t) ∧
      excluded.Pairwise (· < ·) ∧ (∀ t, t ∈ excluded ↔ Names (parse query) true t) ∧
      ∀ {σ : Type} (lookup : List String → StateM σ (List String)) (s : σ),
        ∃ keys s', (∀ p ∈ keys, p.name = idsField) ∧ ∀ q ∈ [query, query'],
          (parseWithTagsM lookup q).run s = ((parse query).filter (!·.isTag) ++ keys, s') ∧
          ((parseWithTagsM (logged lookup) q).run []).run s =
            (((parse query).filter (!·.isTag) ++ keys, [included, excluded].filter (· ≠ [])), s') := by
  have hlooked := tagLookups_ne_nil hsome
  have hsides := tagSide_congr hnames
  refine ⟨tagSide false (parse query), tagSide true (parse query), Ascending.ofList_pairwise_lt _,
    fun t => mem_tagSide, Ascending.ofList_pairwise_lt _, fun t => mem_tagSide, fun lookup s => ?_⟩
  obtain ⟨keys, s', hkeys, hrun⟩ := run_resolveTagsM lookup s hlooked
  have hlogged : ((resolveTagsM (logged lookup) (parse query)).run []).run s =
      (((parse query).filter (!·.isTag) ++ keys, tagLookups (parse query)), s') := by
    rw [run_resolveTagsM_logged, StateT.run_map, hrun]
    rfl
  refine ⟨keys, s', hkeys, fun q hq => ?_⟩
  rw [parseWithTagsM, parseWithTagsM]
  rcases List.mem_pair.mp hq with rfl | rfl
  · exact ⟨hrun, hlogged⟩
  · rw [← resolveTagsM_congr lookup hothers hsides hlooked,
      ← resolveTagsM_congr (logged lookup) hothers hsides hlooked]
    exact ⟨hrun, hlogged⟩

def counting (tags : List String) : StateM Nat (List String) := do
  let asked ← get
  set (asked + 1)
  return tags.map fun tag => tag ++ "@" ++ toString asked

/-- The same tags, listed and one by one, with repeats and gaps, and ruled out by an operator and by `NOT`. -/
theorem parseWithTagsM_counting :
    let query := "tag_id:in(2,1) photo NOT tag_id:5"
    let query' := "NOT tag_id:!=1 photo tag_id:nin(5,,5) tag_id:'in( 2 ,1)'"
    let photo : Predicate := ⟨textField, none, "photo"⟩
    (parse query).filter (!·.isTag) = [photo] ∧ (parse query').filter (!·.isTag) = [photo] ∧
      (∀ negative t, Names (parse query) negative t ↔ Names (parse query') negative t) ∧
      (∃ negative t, Names (parse query) negative t) ∧
      ((parseWithTagsM (logged counting) query').run []).run 0 =
        (([photo, ⟨idsField, some .isIn, "1@0,2@0"⟩, ⟨idsField, some .notIn, "5@1"⟩],
          [["1", "2"], ["5"]]), 2) := by
  intro query query' photo
  have hparse : parse query =
      [⟨tagField, some .isIn, "2,1"⟩, photo, ⟨tagField, some (.compare .ne), "5"⟩] := by decide
  have hparse' : parse query' = [⟨tagField, some (.compare .eq), "1"⟩, photo,
      ⟨tagField, some .notIn, "5,,5"⟩, ⟨tagField, some .isIn, " 2 ,1"⟩] := by decide +kernel
  have hothers : (parse query).filter (!·.isTag) = (parse query').filter (!·.isTag) := by
    rw [hparse, hparse']
    rfl
  have hnamed (negative : Bool) (t : String) :
      Names (parse query) negative t ↔ t ∈ if negative then ["5"] else ["2", "1"] := by
    rw [names_iff, hparse]
    cases negative <;> rfl
  have hnamed' (negative : Bool) (t : String) :
      Names (parse query') negative t ↔ t ∈ if negative then ["5", "5"] else ["1", "2", "1"] := by
    rw [names_iff, hparse']
    cases negative <;> rfl
  have hnames (negative : Bool) (t : String) :
      Names (parse query) negative t ↔ Names (parse query') negative t := by
    rw [hnamed, hnamed']
    cases negative <;> simp [or_comm]
  have hsome : ∃ negative t, Names (parse query) negative t := ⟨true, "5", (hnamed true "5").mpr (by simp)⟩
  have hrun : ((parseWithTagsM (logged counting) query).run []).run 0 =
      (([photo, ⟨idsField, some .isIn, "1@0,2@0"⟩, ⟨idsField, some .notIn, "5@1"⟩],
        [["1", "2"], ["5"]]), 2) := by
    have hincluded : tagSide false (parse query) = ["1", "2"] :=
      tagSide_eq (by decide) fun t => (hnamed false t).trans (by simp [or_comm])
    have hexcluded : tagSide true (parse query) = ["5"] := tagSide_eq (by decide) (hnamed true)
    have hlooked := tagLookups_ne_nil hsome
    rw [parseWithTagsM, resolveTagsM, if_neg hlooked, hincluded, hexcluded, hparse]
    rfl
  obtain ⟨_, _, -, -, -, -, hboth⟩ := parseWithTagsM_same_tags hothers hnames hsome
  obtain ⟨keys, s', -, hall⟩ := hboth counting 0
  refine ⟨by rw [hparse]; rfl, by rw [hparse']; rfl, hnames, hsome, ?_⟩
  rw [(hall query' (by simp)).2, ← (hall query (by simp)).2, hrun]

end VolumeSearch.Query
