/-! The 160-bit secure hash of a sequence of bytes. -/
namespace BoardNets.Digest

structure Words where
  a : UInt32
  b : UInt32
  c : UInt32
  d : UInt32
  e : UInt32

def initial : Words := ⟨0x67452301, 0xEFCDAB89, 0x98BADCFE, 0x10325476, 0xC3D2E1F0⟩

def rotate (x : UInt32) (n : UInt32) : UInt32 := (x <<< n) ||| (x >>> (32 - n))

def bigEndian : (count n : Nat) → List UInt8
  | 0, _ => []
  | count + 1, n => bigEndian count (n / 256) ++ [UInt8.ofNat n]

/-- A one bit, zeros up to eight bytes short of a block of 64, and the length in bits. -/
def pad (bytes : List UInt8) : List UInt8 :=
  let filled := (bytes.length + 1) % 64
  let zeros := (if filled ≤ 56 then 56 else 120) - filled
  bytes ++ 0x80 :: List.replicate zeros 0 ++ bigEndian 8 (8 * bytes.length)

def toWords : List UInt8 → List UInt32
  | a :: b :: c :: d :: rest =>
    ((a.toUInt32 <<< 24) ||| (b.toUInt32 <<< 16) ||| (c.toUInt32 <<< 8) ||| d.toUInt32) ::
      toWords rest
  | _ => []

/-- Extends the 16 words of a block to the 80 of its rounds. -/
def schedule (block : Array UInt32) : Array UInt32 :=
  (List.range 64).foldl (fun w i =>
    let word := fun back => (w[16 + i - back]?).getD 0
    w.push (rotate (word 3 ^^^ word 8 ^^^ word 14 ^^^ word 16) 1)) block

def mix (round : Nat) (s : Words) : UInt32 :=
  if round < 20 then ((s.b &&& s.c) ||| (~~~s.b &&& s.d)) + 0x5A827999
  else if round < 40 then (s.b ^^^ s.c ^^^ s.d) + 0x6ED9EBA1
  else if round < 60 then ((s.b &&& s.c) ||| (s.b &&& s.d) ||| (s.c &&& s.d)) + 0x8F1BBCDC
  else (s.b ^^^ s.c ^^^ s.d) + 0xCA62C1D6

def round (s : Words) (i : Nat) (word : UInt32) : Words :=
  ⟨rotate s.a 5 + mix i s + s.e + word, s.a, rotate s.b 30, s.c, s.d⟩

def absorb (s : Words) (block : List UInt32) : Words :=
  let w := schedule block.toArray
  let t := (List.range 80).foldl (fun t i => round t i ((w[i]?).getD 0)) s
  ⟨s.a + t.a, s.b + t.b, s.c + t.c, s.d + t.d, s.e + t.e⟩

def absorbAll (s : Words) : (blocks : Nat) → List UInt32 → Words
  | 0, _ => s
  | blocks + 1, words => absorbAll (absorb s (words.take 16)) blocks (words.drop 16)

def hash (bytes : List UInt8) : Words :=
  let words := toWords (pad bytes)
  absorbAll initial (words.length / 16) words

def Words.leading (s : Words) : BitVec 128 :=
  s.a.toBitVec ++ s.b.toBitVec ++ s.c.toBitVec ++ s.d.toBitVec

end BoardNets.Digest
