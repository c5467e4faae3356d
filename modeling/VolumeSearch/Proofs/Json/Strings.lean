import Mathlib.Tactic.IntervalCases
import VolumeSearch.Json
import VolumeSearch.Proofs.Bytes

namespace VolumeSearch.Json
open String (utf8EncodeChar)

/-- What `bytes` are read as within a string: some pieces that stand for `text`. -/
private def ReadsInString (bytes text : Bytes) : Prop :=
  ∃ ps : List Piece,
    (∀ tail, readBody (bytes ++ tail) = (readBody tail).map fun (body, rest) => (ps ++ body, rest)) ∧
    ∀ body, utf8? (ps ++ body) = (utf8? body).map (text ++ ·)

private theorem ReadsInString.nil : ReadsInString [] [] :=
  ⟨[], fun tail => by simp, fun body => by simp⟩

private theorem ReadsInString.append {b₁ b₂ t₁ t₂ : Bytes} (h₁ : ReadsInString b₁ t₁)
    (h₂ : ReadsInString b₂ t₂) : ReadsInString (b₁ ++ b₂) (t₁ ++ t₂) := by
  obtain ⟨ps, hread, htext⟩ := h₁
  obtain ⟨qs, hread', htext'⟩ := h₂
  refine ⟨ps ++ qs, fun tail => ?_, fun body => ?_⟩
  · rw [List.append_assoc, hread, hread']
    cases readBody tail <;> simp
  · rw [List.append_assoc, htext, htext']
    cases utf8? body <;> simp

private def isPlain (b : UInt8) : Prop := 0x20 ≤ b ∧ b ≠ 0x22 ∧ b ≠ 0x5c

private theorem readsInString_plain (b : UInt8) (h : isPlain b) : ReadsInString [b] [b] := by
  obtain ⟨hlow, hquote, hslash⟩ := h
  refine ⟨[.byte b], fun tail => ?_, fun body => rfl⟩
  rw [List.singleton_append, readBody.eq_def]
  split
  · next he => exact absurd (List.cons.inj he).1 hquote
  · next he => exact absurd (List.cons.inj he).1 hslash
  · next he => exact absurd (List.cons.inj he).1 hslash
  · next he =>
    obtain ⟨rfl, rfl⟩ := List.cons.inj he
    rw [if_neg (by simp [UInt8.not_lt.mpr hlow, hslash])]
    cases readBody tail <;> rfl
  · next he => cases he

private theorem readsInString_plains (bytes : Bytes) (h : ∀ b ∈ bytes, isPlain b) :
    ReadsInString bytes bytes := by
  induction bytes with
  | nil => exact .nil
  | cons b rest ih =>
    exact (readsInString_plain b (h b (by simp))).append (ih fun c hc => h c (by simp [hc]))

private theorem readsInString_letter (e b : UInt8) (he : escaped? e = some b) (hu : e ≠ 0x75) :
    ReadsInString [0x5c, e] [b] := by
  refine ⟨[.byte b], fun tail => ?_, fun body => rfl⟩
  rw [List.cons_append, List.singleton_append, readBody.eq_def]
  split
  · next h => cases h
  · next h =>
    simp only [List.cons.injEq, true_and] at h
    exact absurd h.1 hu
  · next e' rest _ h =>
    simp only [List.cons.injEq, true_and] at h
    obtain ⟨rfl, rfl⟩ := h
    rw [he]
    cases readBody tail <;> rfl
  · next hno h =>
    obtain ⟨hb, hrest⟩ := List.cons.inj h
    exact (hno e tail hb.symm hrest.symm).elim
  · next h => cases h

private theorem readsInString_unit (x y : UInt8) (m n : Nat) (hx : hexDigit? x = some m)
    (hy : hexDigit? y = some n) (hlow : m * 0x10 + n < 0xd800) :
    ReadsInString [0x5c, 0x75, 0x30, 0x30, x, y] (utf8EncodeChar (Char.ofNat (m * 0x10 + n))) := by
  refine ⟨[.unit (m * 0x10 + n)], fun tail => ?_, fun body => ?_⟩
  · have hzero : hexDigit? 0x30 = some 0 := rfl
    simp only [List.cons_append, List.nil_append, readBody, hzero, hx, hy]
    cases readBody tail <;> simp
  · rw [List.singleton_append, utf8?.eq_def]
    simp only
    rw [if_neg (by omega), if_neg (by omega)]

private theorem hexDigit?_digitChar : ∀ n < 16,
    utf8EncodeChar (Nat.digitChar n) = [(Nat.digitChar n).val.toUInt8] ∧
      hexDigit? (Nat.digitChar n).val.toUInt8 = some n := by
  decide

private theorem readsInString_control (c x : Char) (m n : Nat)
    (hx : utf8EncodeChar x = [x.val.toUInt8]) (hm : hexDigit? x.val.toUInt8 = some m)
    (hn : n < 16) (hc : c.toNat = m * 0x10 + n) (hlow : c.toNat < 0xd800) :
    ReadsInString (['\\', 'u', '0', '0', x, Nat.digitChar n].flatMap utf8EncodeChar)
      (utf8EncodeChar c) := by
  obtain ⟨hdigit, hread⟩ := hexDigit?_digitChar n hn
  have hunit := readsInString_unit _ _ m n hm hread (by omega)
  rw [← hc, Char.ofNat_toNat] at hunit
  simp only [List.flatMap_cons, List.flatMap_nil, hx, hdigit]
  exact hunit

/-- Bytes of longer forms have the high bit, so only one-byte forms can meet a quote. -/
private theorem isPlain_of_mem (c : Char) (hquote : c ≠ '"') (hslash : c ≠ '\\')
    (hlow : 0x20 ≤ c.toNat) : ∀ b ∈ utf8EncodeChar c, isPlain b := by
  have hquote' : c.val.toNat ≠ 0x22 := fun h => hquote (Char.toNat_inj.mp h)
  have hslash' : c.val.toNat ≠ 0x5c := fun h => hslash (Char.toNat_inj.mp h)
  have hlow' : 0x20 ≤ c.val.toNat := hlow
  have hplain (n : Nat) (h : 0x20 ≤ n ∧ n ≠ 0x22 ∧ n ≠ 0x5c ∧ n < 256) : isPlain (UInt8.ofNat n) := by
    have hn : (UInt8.ofNat n).toNat = n := by
      rw [UInt8.toNat_ofNat', Nat.mod_eq_of_lt h.2.2.2]
    refine ⟨?_, fun he => ?_, fun he => ?_⟩
    · rw [UInt8.le_iff_toNat_le, hn]
      exact h.1
    · exact h.2.1 (by rw [← hn, he]; rfl)
    · exact h.2.2.1 (by rw [← hn, he]; rfl)
  intro b hb
  unfold utf8EncodeChar at hb
  simp only at hb
  split_ifs at hb <;> simp only [List.mem_cons, List.not_mem_nil, or_false] at hb
  · subst hb
    exact hplain _ (by omega)
  · rcases hb with rfl | rfl <;> exact hplain _ (by omega)
  · rcases hb with rfl | rfl | rfl <;> exact hplain _ (by omega)
  · rcases hb with rfl | rfl | rfl | rfl <;> exact hplain _ (by omega)

private theorem readsInString_escapeChar (c : Char) :
    ReadsInString ((escapeChar c).flatMap utf8EncodeChar) (utf8EncodeChar c) := by
  unfold escapeChar
  split_ifs with hquote hslash hb hf hn hr ht hlow hlow'
  · subst hquote
    exact readsInString_letter 0x22 0x22 rfl (by decide)
  · subst hslash
    exact readsInString_letter 0x5c 0x5c rfl (by decide)
  · subst hb
    exact readsInString_letter 0x62 0x08 rfl (by decide)
  · subst hf
    exact readsInString_letter 0x66 0x0c rfl (by decide)
  · subst hn
    exact readsInString_letter 0x6e 0x0a rfl (by decide)
  · subst hr
    exact readsInString_letter 0x72 0x0d rfl (by decide)
  · subst ht
    exact readsInString_letter 0x74 0x09 rfl (by decide)
  · exact readsInString_control c '0' 0 c.toNat rfl rfl hlow (by omega) (by omega)
  · exact readsInString_control c '1' 1 (c.toNat - 0x10) rfl rfl (by omega) (by omega) (by omega)
  · rw [List.flatMap_cons, List.flatMap_nil, List.append_nil]
    exact readsInString_plains _ (isPlain_of_mem c hquote hslash (by omega))

private theorem readsInString_escape (cs : List Char) :
    ReadsInString ((cs.flatMap escapeChar).flatMap utf8EncodeChar) (cs.flatMap utf8EncodeChar) := by
  induction cs with
  | nil => exact .nil
  | cons c rest ih =>
    simp only [List.flatMap_cons, List.flatMap_append]
    exact (readsInString_escapeChar c).append ih

/-- A quoted text is an opening quote and a body that is read back as the text. -/
theorem readBody_quote (s : String) :
    ∃ bytes body, Bytes.ofText (quote s) = 0x22 :: bytes ∧ bodyText? body = some s ∧
      ∀ rest, readBody (bytes ++ rest) = some (body, rest) := by
  obtain ⟨ps, hread, htext⟩ := readsInString_escape s.toList
  refine ⟨(s.toList.flatMap escapeChar).flatMap utf8EncodeChar ++ [0x22], ps, ?_, ?_, ?_⟩
  · rw [quote, Bytes.ofText_ofList, List.flatMap_append, List.flatMap_cons]
    rfl
  · have hps := htext []
    rw [List.append_nil] at hps
    rw [bodyText?, hps, utf8?, Option.map_some, List.append_nil, ← Bytes.ofText_eq, Option.bind_some,
      Bytes.text?_ofText]
  · intro rest
    rw [List.append_assoc, hread]
    simp [readBody]

end VolumeSearch.Json
