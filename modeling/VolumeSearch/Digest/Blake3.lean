import VolumeSearch.Bytes

/-! The BLAKE3 digest of a message that fits in one block of 64 bytes. -/
namespace VolumeSearch.Digest.Blake3

abbrev Words := Vector UInt32 16

def start : Vector UInt32 8 :=
  #v[0x6a09e667, 0xbb67ae85, 0x3c6ef372, 0xa54ff53a, 0x510e527f, 0x9b05688c, 0x1f83d9ab, 0x5be0cd19]

/-- The order in which each round takes the message words of the round before it. -/
def schedule : Vector (Fin 16) 16 := #v[2, 6, 3, 10, 7, 0, 4, 13, 1, 11, 12, 5, 9, 14, 15, 8]

def rounds : Nat := 7

def rotateRight (w count : UInt32) : UInt32 := w >>> count ||| w <<< (32 - count)

def mix (x y : UInt32) (a b c d : Fin 16) (v : Words) : Words :=
  let v := v.set a (v[a] + v[b] + x)
  let v := v.set d (rotateRight (v[d] ^^^ v[a]) 16)
  let v := v.set c (v[c] + v[d])
  let v := v.set b (rotateRight (v[b] ^^^ v[c]) 12)
  let v := v.set a (v[a] + v[b] + y)
  let v := v.set d (rotateRight (v[d] ^^^ v[a]) 8)
  let v := v.set c (v[c] + v[d])
  v.set b (rotateRight (v[b] ^^^ v[c]) 7)

def round (m v : Words) : Words :=
  let v := mix m[0] m[1] 0 4 8 12 v
  let v := mix m[2] m[3] 1 5 9 13 v
  let v := mix m[4] m[5] 2 6 10 14 v
  let v := mix m[6] m[7] 3 7 11 15 v
  let v := mix m[8] m[9] 0 5 10 15 v
  let v := mix m[10] m[11] 1 6 11 12 v
  let v := mix m[12] m[13] 2 7 8 13 v
  mix m[14] m[15] 3 4 9 14 v

def run : Nat → Words → Words → Words
  | 0, _, v => v
  | n + 1, m, v => run n (schedule.map (m[·])) (round m v)

/-- The words of a block; bytes that are missing count as zero. -/
def words (block : Bytes) : Words :=
  Vector.ofFn fun i => (Bytes.toNat ((block.drop (4 * i.val)).take 4)).toUInt32

/-- One block is at once the first, the last and the root of its tree. -/
def flags : UInt32 := 1 + 2 + 8

/-- The digest of a message of at most 64 bytes. -/
def digest (message : Bytes) : Bytes :=
  let v : Words := start ++ #v[start[0], start[1], start[2], start[3], 0, 0,
    message.length.toUInt32, flags]
  let v := run rounds (words message) v
  (List.finRange 8).flatMap fun i =>
    Bytes.ofNat 4 (v[i.castLE (by decide : 8 ≤ 16)] ^^^ v[i.addNat 8]).toNat

end VolumeSearch.Digest.Blake3
