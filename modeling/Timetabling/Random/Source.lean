/-! Supplies of 64-bit random words: the generator xoshiro256++, whose state SplitMix64 fills from a
    seed, and a script, which gives its own words in turn and begins again after the last. -/

namespace Timetabling

/-- A state from which 64-bit words can be taken one after another. -/
class WordSource (σ : Type) where
  next : σ → UInt64 × σ

/-- The state of xoshiro256++. -/
structure Xoshiro where
  s0 : UInt64
  s1 : UInt64
  s2 : UInt64
  s3 : UInt64
  deriving DecidableEq, Repr

namespace Xoshiro

/-- The word with its bits rotated to the left by `n` places, `0 < n < 64`. -/
def rotateLeft (x : UInt64) (n : UInt64) : UInt64 := (x <<< n) ||| (x >>> (64 - n))

/-- The output of SplitMix64 at one state of its counter. -/
def mix (counter : UInt64) : UInt64 :=
  let z := (counter ^^^ (counter >>> 30)) * 0xbf58476d1ce4e5b9
  let z := (z ^^^ (z >>> 27)) * 0x94d049bb133111eb
  z ^^^ (z >>> 31)

/-- The state whose words are the first four outputs of SplitMix64 from the seed. -/
def ofSeed (seed : UInt64) : Xoshiro :=
  let stride : UInt64 := 0x9e3779b97f4a7c15
  ⟨mix (seed + stride), mix (seed + 2 * stride), mix (seed + 3 * stride), mix (seed + 4 * stride)⟩

/-- The word that the generator gives, and its state after that. -/
def next (x : Xoshiro) : UInt64 × Xoshiro :=
  let word := rotateLeft (x.s0 + x.s3) 23 + x.s0
  let s2 := x.s2 ^^^ x.s0
  let s3 := x.s3 ^^^ x.s1
  (word, ⟨x.s0 ^^^ s3, x.s1 ^^^ s2, s2 ^^^ (x.s1 <<< 17), rotateLeft s3 45⟩)

end Xoshiro

instance : WordSource Xoshiro := ⟨Xoshiro.next⟩

/-- Words to be given in turn, over and over, and the number of those given in this round. -/
structure Script where
  words : Array UInt64
  given : Nat := 0
  deriving DecidableEq, Repr

/-- The word whose turn it is. -/
def Script.next (s : Script) : UInt64 × Script :=
  (s.words.getD s.given 0, { s with given := (s.given + 1) % s.words.size })

instance : WordSource Script := ⟨Script.next⟩

/-- A generator or a script. -/
inductive Source where
  | seeded (state : Xoshiro)
  | scripted (script : Script)
  deriving DecidableEq, Repr

/-- The next word of the generator or of the script. -/
def Source.next : Source → UInt64 × Source
  | seeded x => let (word, x) := x.next; (word, seeded x)
  | scripted s => let (word, s) := s.next; (word, scripted s)

instance : WordSource Source := ⟨Source.next⟩

end Timetabling
