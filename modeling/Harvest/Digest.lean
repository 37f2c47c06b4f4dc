import Harvest.Power

/-!
# Digests

The MD5 digest of a text in UTF-8: the padded message goes, block by block of sixteen words,
through 64 rounds on a state of four words.
-/

namespace Harvest.Digest

structure State where
  a : UInt32
  b : UInt32
  c : UInt32
  d : UInt32

def State.initial : State := ⟨0x67452301, 0xefcdab89, 0x98badcfe, 0x10325476⟩

/-- The additive constants of the rounds: the first 32 bits of the fractions of sines. -/
def constants : Array UInt32 := #[
  0xd76aa478, 0xe8c7b756, 0x242070db, 0xc1bdceee, 0xf57c0faf, 0x4787c62a, 0xa8304613, 0xfd469501,
  0x698098d8, 0x8b44f7af, 0xffff5bb1, 0x895cd7be, 0x6b901122, 0xfd987193, 0xa679438e, 0x49b40821,
  0xf61e2562, 0xc040b340, 0x265e5a51, 0xe9b6c7aa, 0xd62f105d, 0x02441453, 0xd8a1e681, 0xe7d3fbc8,
  0x21e1cde6, 0xc33707d6, 0xf4d50d87, 0x455a14ed, 0xa9e3e905, 0xfcefa3f8, 0x676f02d9, 0x8d2a4c8a,
  0xfffa3942, 0x8771f681, 0x6d9d6122, 0xfde5380c, 0xa4beea44, 0x4bdecfa9, 0xf6bb4b60, 0xbebfbc70,
  0x289b7ec6, 0xeaa127fa, 0xd4ef3085, 0x04881d05, 0xd9d4d039, 0xe6db99e5, 0x1fa27cf8, 0xc4ac5665,
  0xf4292244, 0x432aff97, 0xab9423a7, 0xfc93a039, 0x655b59c3, 0x8f0ccc92, 0xffeff47d, 0x85845dd1,
  0x6fa87e4f, 0xfe2ce6e0, 0xa3014314, 0x4e0811a1, 0xf7537e82, 0xbd3af235, 0x2ad7d2bb, 0xeb86d391]

/-- The rotations of the rounds: four for each quarter, repeated. -/
def rotations : Array UInt32 := #[7, 12, 17, 22, 5, 9, 14, 20, 4, 11, 16, 23, 6, 10, 15, 21]

def rotateLeft (x n : UInt32) : UInt32 := (x <<< n) ||| (x >>> (32 - n))

/-- One round with the words of a block. -/
def State.step (block : Array UInt32) (s : State) (i : Nat) : State :=
  let (f, g) := match i / 16 with
    | 0 => ((s.b &&& s.c) ||| (~~~s.b &&& s.d), i)
    | 1 => ((s.d &&& s.b) ||| (~~~s.d &&& s.c), (5 * i + 1) % 16)
    | 2 => (s.b ^^^ s.c ^^^ s.d, (3 * i + 5) % 16)
    | _ => (s.c ^^^ (s.b ||| ~~~s.d), 7 * i % 16)
  let sum := f + s.a + constants.getD i 0 + block.getD g 0
  ⟨s.d, s.b + rotateLeft sum (rotations.getD (i / 16 * 4 + i % 4) 0), s.b, s.c⟩

/-- The rounds of one block, added to the state before it. -/
def State.absorb (s : State) (block : Array UInt32) : State :=
  let t := (List.range 64).foldl (State.step block) s
  ⟨s.a + t.a, s.b + t.b, s.c + t.c, s.d + t.d⟩

/-- Words of four bytes, the lowest byte first. -/
def wordsOf : List UInt8 → List UInt32
  | a :: b :: c :: d :: r =>
    (a.toUInt32 ||| (b.toUInt32 <<< 8) ||| (c.toUInt32 <<< 16) ||| (d.toUInt32 <<< 24)) :: wordsOf r
  | _ => []

def blocksOf (ws : List UInt32) : List (Array UInt32) :=
  if ws.isEmpty then [] else (ws.take 16).toArray :: blocksOf (ws.drop 16)
termination_by ws.length
decreasing_by
  cases ws with
  | nil => simp_all
  | cons w ws => simp only [List.length_drop, List.length_cons]; omega

/-- The lowest bytes of a number, the lowest first. -/
def lowBytes (count n : Nat) : List UInt8 :=
  (List.range count).map fun i => UInt8.ofNat (n / pow2 (8 * i) % 256)

/-- The message with its end mark, zeros and its length in bits: a whole number of blocks. -/
def padded (message : List UInt8) : List UInt8 :=
  let n := message.length
  message ++ [0x80] ++ List.replicate ((119 - n % 64) % 64) 0 ++ lowBytes 8 (8 * n)

def md5 (message : List UInt8) : List UInt8 :=
  let s := (blocksOf (wordsOf (padded message))).foldl State.absorb State.initial
  [s.a, s.b, s.c, s.d].flatMap fun w => lowBytes 4 w.toNat

def hexText (bytes : List UInt8) : String :=
  String.ofList <| bytes.flatMap fun b =>
    [Nat.digitChar (b.toNat / 16), Nat.digitChar (b.toNat % 16)]

def ofText (s : String) : String := hexText (md5 s.toUTF8.toList)

end Harvest.Digest
