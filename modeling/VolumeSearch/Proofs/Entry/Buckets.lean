import Mathlib.Tactic.Common
import VolumeSearch.Entry

/-! The buckets of sizes and times follow the sizes and times, so the bucket of a value that compares in some
way with a target is admitted for the target. -/
namespace VolumeSearch

section
variable {α : Type} [LT α] [LE α] [DecidableEq α] [DecidableLT α] [DecidableLE α] [Std.LawfulOrderLT α]

/-- Ranks that do not descend are admitted wherever the values they stand for compare. -/
theorem Comparison.admits_of_holds {rank : α → Int} (hmono : ∀ {a b}, a ≤ b → rank a ≤ rank b)
    {op : Comparison} {value target : α} (h : op.holds value target = true) :
    op.admits (rank value) (rank target) = true := by
  cases op with
  | eq =>
    obtain rfl : value = target := by simpa [holds] using h
    simp [admits]
  | ne => rfl
  | gt =>
    have hlt : target < value := by simpa [holds] using h
    simpa [admits] using hmono (Std.le_of_lt hlt)
  | ge =>
    have hle : target ≤ value := by simpa [holds] using h
    simpa [admits] using hmono hle
  | lt =>
    have hlt : value < target := by simpa [holds] using h
    simpa [admits] using hmono (Std.le_of_lt hlt)
  | le =>
    have hle : value ≤ target := by simpa [holds] using h
    simpa [admits] using hmono hle

end

namespace SizeBucket

theorem rank_of_mono {a b : UInt64} (h : a ≤ b) : (of a).rank ≤ (of b).rank := by
  rw [UInt64.le_iff_toNat_le] at h
  simp only [of]
  split_ifs <;> first | decide | omega

theorem mem_admitted {op : Comparison} {bytes : UInt64} (b : SizeBucket) :
    b ∈ admitted op bytes ↔ op.admits b.rank (of bytes).rank = true := by
  have hall : b ∈ all := by cases b <;> decide
  rw [admitted, List.mem_filter]
  exact and_iff_right hall

theorem of_mem_admitted {op : Comparison} {size bytes : UInt64} (h : op.holds size bytes = true) :
    of size ∈ admitted op bytes :=
  (mem_admitted _).mpr (Comparison.admits_of_holds (fun hle => Int.ofNat_le.mpr (rank_of_mono hle)) h)

theorem term_injective {b b' : SizeBucket} (h : b.term = b'.term) : b = b' := by
  cases b <;> cases b' <;> first | rfl | exact absurd h (by decide)

end SizeBucket

/-- Months follow the times, and every time before the epoch is in the first of them. -/
theorem monthOf_mono {a b : Int64} (h : a ≤ b) : monthOf a ≤ monthOf b := by
  rw [Int64.le_iff_toInt_le] at h
  simp only [monthOf]
  split_ifs <;> omega

theorem monthOf_nonneg (t : Int64) : 0 ≤ monthOf t := by
  simp only [monthOf]
  split_ifs <;> omega

/-- A month is a number that a signed word can hold. -/
theorem monthOf_lt (t : Int64) : monthOf t < UInt64.size / 2 := by
  have hbound := t.toInt_lt
  have hhalf : ((UInt64.size / 2 : Nat) : Int) = 2 ^ 63 := by decide
  simp only [monthOf]
  split_ifs <;> omega

end VolumeSearch
