import Mathlib.Tactic.Common
import VolumeSearch.Proofs.Json.Numbers
import VolumeSearch.Proofs.Json.Strings

namespace VolumeSearch.Json

/-- The bytes are read as the value, whatever follows that could not continue a number. -/
def ReadsAs (text : Bytes) (v : Value) : Prop :=
  ∀ fuel rest, text.length < fuel → EndsNumber rest → readValue fuel (text ++ rest) = some (v, rest)

private theorem skipBlanks_cons {b : UInt8} (h : isBlank b = false) (rest : Bytes) :
    skipBlanks (b :: rest) = b :: rest := by
  rw [skipBlanks, List.dropWhile_cons_of_neg (by simp [h])]

private theorem isBlank_of_isDigit {b : UInt8} (h : isDigit b = true) : isBlank b = false := by
  simp only [isDigit, Bool.and_eq_true, decide_eq_true_eq, UInt8.le_iff_toNat_le] at h
  have hne (c : UInt8) (hc : c.toNat < 0x30) : (b == c) = false := by
    rw [beq_eq_false_iff_ne]
    rintro rfl
    simp at h
    omega
  rw [isBlank, hne 0x20 (by decide), hne 0x09 (by decide), hne 0x0a (by decide), hne 0x0d (by decide)]
  rfl

/-- What opens no other value is left to the reader of numbers. -/
private theorem readValue_number (fuel : Nat) (b : UInt8) (tail : Bytes) (hblank : isBlank b = false)
    (h : ∀ c ∈ [0x7b, 0x5b, 0x22, 0x6e, 0x74, 0x66], b ≠ c) :
    readValue (fuel + 1) (b :: tail) =
      (readNumber (b :: tail)).map fun (n, rest) => (.number n, rest) := by
  rw [readValue.eq_def]
  simp only [skipBlanks_cons hblank]
  split
  · next he => exact absurd (List.cons.inj he).1 (h _ (by simp))
  · next he => exact absurd (List.cons.inj he).1 (h _ (by simp))
  · next he => exact absurd (List.cons.inj he).1 (h _ (by simp))
  · next he => exact absurd (List.cons.inj he).1 (h _ (by simp))
  · next he => exact absurd (List.cons.inj he).1 (h _ (by simp))
  · next he => exact absurd (List.cons.inj he).1 (h _ (by simp))
  · rfl

theorem readsAs_natural (n : Nat) : ReadsAs (digits n) (.number (.integer false n)) := by
  intro fuel rest hfuel hends
  obtain ⟨b, tail, he, -, -⟩ := digits_eq_cons n
  have hb := isDigit_of_mem_digits n b (by simp [he])
  have hnot (c : UInt8) (hc : isDigit c = false) : b ≠ c := fun h => by simp [← h, hb] at hc
  have hopens : ∀ c ∈ [0x7b, 0x5b, 0x22, 0x6e, 0x74, 0x66], b ≠ c := by
    intro c hc
    have hall : ∀ c ∈ ([0x7b, 0x5b, 0x22, 0x6e, 0x74, 0x66] : Bytes), isDigit c = false := by
      simp [isDigit]
    exact hnot c (hall c hc)
  have hread := readMagnitude_digits false n rest hends
  cases fuel with
  | zero => omega
  | succ fuel =>
    rw [he, List.cons_append] at hread ⊢
    rw [readValue_number fuel b _ (isBlank_of_isDigit hb) hopens, readNumber.eq_def]
    split
    · next h => exact absurd (List.cons.inj h).1 (hnot _ (by decide))
    · rw [hread]
      rfl

theorem readsAs_negative (n : Nat) : ReadsAs (0x2d :: digits n) (.number (.integer true n)) := by
  intro fuel rest hfuel hends
  cases fuel with
  | zero => simp at hfuel
  | succ fuel =>
    rw [List.cons_append, readValue_number fuel 0x2d _ (by decide) (by simp),
      readNumber.eq_def]
    simp only [readMagnitude_digits true n rest hends]
    rfl

theorem readsAs_string (s : String) :
    ∃ body, bodyText? body = some s ∧ ReadsAs (Bytes.ofText (quote s)) (.string body) := by
  obtain ⟨bytes, body, he, htext, hread⟩ := readBody_quote s
  refine ⟨body, htext, ?_⟩
  intro fuel rest hfuel _
  cases fuel with
  | zero => simp at hfuel
  | succ fuel =>
    rw [he, List.cons_append, readValue.eq_def]
    simp only [skipBlanks_cons (show isBlank 0x22 = false by decide), hread, Option.map_some]

theorem readsAs_true : ReadsAs [0x74, 0x72, 0x75, 0x65] (.bool true) := by
  intro fuel rest hfuel _
  cases fuel with
  | zero => simp at hfuel
  | succ fuel => simp [readValue, skipBlanks_cons (show isBlank 0x74 = false by decide), readWord]

theorem readsAs_false : ReadsAs [0x66, 0x61, 0x6c, 0x73, 0x65] (.bool false) := by
  intro fuel rest hfuel _
  cases fuel with
  | zero => simp at hfuel
  | succ fuel => simp [readValue, skipBlanks_cons (show isBlank 0x66 = false by decide), readWord]

/-- A member as it is written, and the value that its text is read as. -/
structure Member where
  key : String
  text : Bytes
  value : Value

namespace Member

def bytes (m : Member) : Bytes := Bytes.ofText (quote m.key) ++ 0x3a :: m.text

def join : List Member → Bytes
  | [] => []
  | [m] => m.bytes
  | m :: rest => m.bytes ++ 0x2c :: join rest

def object (ms : List Member) : Bytes := 0x7b :: join ms ++ [0x7d]

end Member

private def keyed (members : List (List Piece × Value)) : Option (List (String × Value)) :=
  members.mapM fun (key, v) => (bodyText? key).map (·, v)

private theorem endsNumber_cons {b : UInt8} (rest : Bytes)
    (h : isDigit b = false ∧ b ≠ 0x2e ∧ b ≠ 0x65 ∧ b ≠ 0x45) : EndsNumber (b :: rest) := by
  intro c hc
  obtain rfl : b = c := by simpa using hc
  exact h

private theorem readMembers_join (ms : List Member) (hne : ms ≠ [])
    (hread : ∀ m ∈ ms, ReadsAs m.text m.value) (fuel : Nat) (rest : Bytes)
    (hfuel : (Member.join ms).length < fuel) :
    ∃ found, readMembers fuel (Member.join ms ++ 0x7d :: rest) = some (found, rest) ∧
      keyed found = some (ms.map fun m => (m.key, m.value)) := by
  -- every member costs one unit of fuel and at least one byte, so the fuel outlasts the text
  induction ms generalizing fuel with
  | nil => exact absurd rfl hne
  | cons m ms ih =>
    obtain ⟨bytes, body, hquote, htext, hbody⟩ := readBody_quote m.key
    have hm := hread m (by simp)
    have hcolon (tail : Bytes) : skipBlanks (0x3a :: tail) = 0x3a :: tail :=
      skipBlanks_cons (by decide) tail
    have hopen (tail : Bytes) : skipBlanks (0x22 :: tail) = 0x22 :: tail :=
      skipBlanks_cons (by decide) tail
    have hclose (tail : Bytes) : skipBlanks (0x7d :: tail) = 0x7d :: tail :=
      skipBlanks_cons (by decide) tail
    have hcomma (tail : Bytes) : skipBlanks (0x2c :: tail) = 0x2c :: tail :=
      skipBlanks_cons (by decide) tail
    cases fuel with
    | zero => simp at hfuel
    | succ fuel =>
      cases ms with
      | nil =>
        have hlen : m.text.length < fuel := by
          simp only [Member.join, Member.bytes, hquote, List.length_append, List.length_cons] at hfuel
          omega
        have hvalue := hm fuel (0x7d :: rest) hlen (endsNumber_cons rest (by decide))
        refine ⟨[(body, m.value)], ?_, by simp [keyed, htext]⟩
        simp only [Member.join, Member.bytes, hquote, List.cons_append, List.append_assoc, readMembers,
          hopen, hbody, hcolon, hvalue, hclose, Option.bind_eq_bind, Option.bind_some]
        rfl
      | cons next ms =>
        have hlen : m.text.length < fuel ∧ (Member.join (next :: ms)).length < fuel := by
          simp only [Member.join, Member.bytes, hquote, List.length_append, List.length_cons] at hfuel ⊢
          omega
        have hvalue := hm fuel (0x2c :: (Member.join (next :: ms) ++ 0x7d :: rest)) hlen.1
          (endsNumber_cons _ (by decide))
        obtain ⟨found, hfound, hkeyed⟩ := ih (by simp) (fun n hn => hread n (by simp [hn])) fuel hlen.2
        refine ⟨(body, m.value) :: found, ?_, ?_⟩
        · simp only [Member.join, Member.bytes, hquote, List.cons_append, List.append_assoc, readMembers,
            hopen, hbody, hcolon, hvalue, hcomma, hfound, Option.bind_eq_bind, Option.bind_some]
          rfl
        · rw [keyed] at hkeyed ⊢
          simp [htext, hkeyed]

private theorem join_eq_cons (m : Member) (ms : List Member) :
    ∃ tail, Member.join (m :: ms) = 0x22 :: tail := by
  obtain ⟨bytes, -, hquote, -, -⟩ := readBody_quote m.key
  cases ms with
  | nil => exact ⟨_, by rw [Member.join, Member.bytes, hquote]; rfl⟩
  | cons next ms => exact ⟨_, by simp only [Member.join, Member.bytes, hquote, List.cons_append]; rfl⟩

/-- An object is read back as its members, in order and with their keys. -/
theorem read?_object (ms : List Member) (hread : ∀ m ∈ ms, ReadsAs m.text m.value) :
    ∃ found, read? (Member.object ms) = some (.object found) ∧
      (found.mapM fun (key, v) => (bodyText? key).map (·, v)) =
        some (ms.map fun m => (m.key, m.value)) := by
  have hopen (tail : Bytes) : skipBlanks (0x7b :: tail) = 0x7b :: tail :=
    skipBlanks_cons (by decide) tail
  cases ms with
  | nil => exact ⟨[], rfl, rfl⟩
  | cons m ms =>
    obtain ⟨tail, hjoin⟩ := join_eq_cons m ms
    obtain ⟨found, hfound, hkeyed⟩ := readMembers_join (m :: ms) (by simp) hread
      (2 * (Member.object (m :: ms)).length) [] (by simp [Member.object]; omega)
    refine ⟨found, ?_, hkeyed⟩
    rw [hjoin, List.cons_append] at hfound
    have hvalue : readValue (2 * (Member.object (m :: ms)).length + 1) (Member.object (m :: ms)) =
        some (.object found, []) := by
      rw [Member.object, hjoin, readValue.eq_def]
      simp only [List.cons_append, hopen, skipBlanks_cons (show isBlank 0x22 = false by decide)]
      rw [Member.object, hjoin] at hfound
      simp only [List.cons_append] at hfound
      change Option.map _ (readMembers _ (0x22 :: (tail ++ [0x7d]))) = _
      rw [hfound]
      rfl
    rw [read?, hvalue]
    rfl

end VolumeSearch.Json
