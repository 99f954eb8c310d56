import Mathlib.Algebra.Order.Ring.Nat
import Mathlib.Data.List.Basic

/-!
# MD5

The message digest on lists of bytes. Words are natural numbers below `2 ^ 32`.
A message is padded to whole 64-byte blocks, each block updates four words,
and the digest is those words in little-endian order.
-/
namespace Md5

/-- `⌊2 ^ 32 · |sin (i + 1)|⌋`. -/
def sineTable : List ℕ :=
  [0xd76aa478, 0xe8c7b756, 0x242070db, 0xc1bdceee, 0xf57c0faf, 0x4787c62a, 0xa8304613, 0xfd469501,
   0x698098d8, 0x8b44f7af, 0xffff5bb1, 0x895cd7be, 0x6b901122, 0xfd987193, 0xa679438e, 0x49b40821,
   0xf61e2562, 0xc040b340, 0x265e5a51, 0xe9b6c7aa, 0xd62f105d, 0x02441453, 0xd8a1e681, 0xe7d3fbc8,
   0x21e1cde6, 0xc33707d6, 0xf4d50d87, 0x455a14ed, 0xa9e3e905, 0xfcefa3f8, 0x676f02d9, 0x8d2a4c8a,
   0xfffa3942, 0x8771f681, 0x6d9d6122, 0xfde5380c, 0xa4beea44, 0x4bdecfa9, 0xf6bb4b60, 0xbebfbc70,
   0x289b7ec6, 0xeaa127fa, 0xd4ef3085, 0x04881d05, 0xd9d4d039, 0xe6db99e5, 0x1fa27cf8, 0xc4ac5665,
   0xf4292244, 0x432aff97, 0xab9423a7, 0xfc93a039, 0x655b59c3, 0x8f0ccc92, 0xffeff47d, 0x85845dd1,
   0x6fa87e4f, 0xfe2ce6e0, 0xa3014314, 0x4e0811a1, 0xf7537e82, 0xbd3af235, 0x2ad7d2bb, 0xeb86d391]

def shiftTable : List ℕ :=
  [7, 12, 17, 22, 7, 12, 17, 22, 7, 12, 17, 22, 7, 12, 17, 22,
   5, 9, 14, 20, 5, 9, 14, 20, 5, 9, 14, 20, 5, 9, 14, 20,
   4, 11, 16, 23, 4, 11, 16, 23, 4, 11, 16, 23, 4, 11, 16, 23,
   6, 10, 15, 21, 6, 10, 15, 21, 6, 10, 15, 21, 6, 10, 15, 21]

def wordSize : ℕ := 2 ^ 32

def complement (x : ℕ) : ℕ := wordSize - 1 - x

def rotateLeft (x s : ℕ) : ℕ := (x * 2 ^ s % wordSize) + x / 2 ^ (32 - s)

/-- The mixing function of round `i` and the message word it reads. -/
def mix (i b c d : ℕ) : ℕ × ℕ :=
  if i < 16 then ((b &&& c) ||| (complement b &&& d), i)
  else if i < 32 then ((d &&& b) ||| (complement d &&& c), (5 * i + 1) % 16)
  else if i < 48 then ((b ^^^ c) ^^^ d, (3 * i + 5) % 16)
  else (c ^^^ (b ||| complement d), (7 * i) % 16)

structure State where
  a : ℕ
  b : ℕ
  c : ℕ
  d : ℕ
  deriving DecidableEq, Repr

def initial : State := ⟨0x67452301, 0xefcdab89, 0x98badcfe, 0x10325476⟩

/-- Rounds `i, i + 1, …` of one block, one for each remaining pair of constants. -/
def rounds (words : List ℕ) : ℕ → List (ℕ × ℕ) → State → State
  | _, [], s => s
  | i, (k, r) :: rest, s =>
      let m := mix i s.b s.c s.d
      let f := (m.1 + s.a + k + words.getD m.2 0) % wordSize
      rounds words (i + 1) rest ⟨s.d, (s.b + rotateLeft f r) % wordSize, s.b, s.c⟩

def compress (s : State) (words : List ℕ) : State :=
  let t := rounds words 0 (sineTable.zip shiftTable) s
  ⟨(s.a + t.a) % wordSize, (s.b + t.b) % wordSize, (s.c + t.c) % wordSize, (s.d + t.d) % wordSize⟩

/-- `width` bytes of `n`, least significant first. -/
def littleEndian : ℕ → ℕ → List ℕ
  | 0, _ => []
  | width + 1, n => n % 256 :: littleEndian width (n / 256)

def pad (message : List ℕ) : List ℕ :=
  let n := message.length
  message ++ 0x80 :: List.replicate ((119 - n % 64) % 64) 0 ++ littleEndian 8 (8 * n % 2 ^ 64)

/-- Little-endian 32-bit words of a byte list. -/
def toWords : List ℕ → List ℕ
  | a :: b :: c :: d :: rest => (a + 256 * (b + 256 * (c + 256 * d))) :: toWords rest
  | _ => []

/-- Feed the words of the padded message, sixteen at a time. -/
def absorb : ℕ → List ℕ → State → State
  | 0, _, s => s
  | blocks + 1, words, s => absorb blocks (words.drop 16) (compress s (words.take 16))

/-- The sixteen digest bytes. -/
def digest (message : List ℕ) : List ℕ :=
  let words := toWords (pad message)
  let s := absorb (words.length / 16) words initial
  littleEndian 4 s.a ++ littleEndian 4 s.b ++ littleEndian 4 s.c ++ littleEndian 4 s.d

/-- RFC test vector `"abc"`. -/
example : digest [97, 98, 99] =
    [0x90, 0x01, 0x50, 0x98, 0x3c, 0xd2, 0x4f, 0xb0, 0xd6, 0x96, 0x3f, 0x7d, 0x28, 0xe1, 0x7f, 0x72] := by
  decide +kernel

end Md5
