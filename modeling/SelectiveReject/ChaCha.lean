import SelectiveReject.Randomness

/-!
# A seeded generator of random words

The keystream of ChaCha with twelve rounds, a 64-bit block counter and no nonce, read as 32-bit
words.  The key is drawn from a 64-bit seed by a linear congruential generator whose states are
scrambled by a shift and a rotation.

A draw takes two words, the low half first.
-/

namespace SelectiveReject

namespace ChaCha

/-- The sixteen words of a block. -/
abbrev Block := Vector UInt32 16

def rotateLeft (x : UInt32) (n : UInt32) : UInt32 := (x <<< n) ||| (x >>> (32 - n))

/-- One quarter round on four words of a block. -/
def quarterRound (s : Block) (a b c d : Fin 16) : Block :=
  let s := s.set a (s[a] + s[b])
  let s := s.set d (rotateLeft (s[d] ^^^ s[a]) 16)
  let s := s.set c (s[c] + s[d])
  let s := s.set b (rotateLeft (s[b] ^^^ s[c]) 12)
  let s := s.set a (s[a] + s[b])
  let s := s.set d (rotateLeft (s[d] ^^^ s[a]) 8)
  let s := s.set c (s[c] + s[d])
  s.set b (rotateLeft (s[b] ^^^ s[c]) 7)

/-- A round on the columns and a round on the diagonals. -/
def doubleRound (s : Block) : Block :=
  let s := quarterRound s 0 4 8 12
  let s := quarterRound s 1 5 9 13
  let s := quarterRound s 2 6 10 14
  let s := quarterRound s 3 7 11 15
  let s := quarterRound s 0 5 10 15
  let s := quarterRound s 1 6 11 12
  let s := quarterRound s 2 7 8 13
  quarterRound s 3 4 9 14

/-- The block before the rounds: four constants, the key, the counter, and no nonce. -/
def initial (key : Vector UInt32 8) (counter : UInt64) : Block :=
  #v[0x61707865, 0x3320646e, 0x79622d32, 0x6b206574,
     key[0], key[1], key[2], key[3], key[4], key[5], key[6], key[7],
     counter.toUInt32, (counter >>> 32).toUInt32, 0, 0]

/-- A block of the keystream: twelve rounds, then the block before them is added. -/
def block (key : Vector UInt32 8) (counter : UInt64) : Block :=
  let start := initial key counter
  let mixed :=
    doubleRound (doubleRound (doubleRound (doubleRound (doubleRound (doubleRound start)))))
  mixed.zipWith (· + ·) start

/-- The next state of the generator that draws the key. -/
def stretch (state : UInt64) : UInt64 :=
  state * 6364136223846793005 + 11634580027462260723

/-- The word that such a state yields. -/
def scramble (state : UInt64) : UInt32 :=
  let x := (((state >>> 18) ^^^ state) >>> 27).toUInt32
  let turn := (state >>> 59).toUInt32
  (x >>> turn) ||| (x <<< (32 - turn))

/-- The key drawn from a seed. -/
def keyOfSeed (seed : UInt64) : Vector UInt32 8 :=
  Vector.ofFn fun i => scramble (i.val.repeat stretch (stretch seed))

end ChaCha

/-- A keystream and how far it has been read. -/
structure Generator where
  key : Vector UInt32 8
  /-- The number of the next block. -/
  counter : UInt64
  /-- The words of the last block that are still to be read. -/
  unread : List UInt32
  deriving Repr

namespace Generator

def ofSeed (seed : UInt64) : Generator := ⟨ChaCha.keyOfSeed seed, 0, []⟩

/-- The next word. -/
def word (g : Generator) : UInt32 × Generator :=
  match g.unread with
  | w :: rest => (w, { g with unread := rest })
  | [] =>
      let block := ChaCha.block g.key g.counter
      (block[0], { g with counter := g.counter + 1, unread := block.toList.tail })

/-- The next two words as one number, low half first. -/
def draw (g : Generator) : UInt64 × Generator :=
  let (low, g) := g.word
  let (high, g) := g.word
  (low.toUInt64 ||| (high.toUInt64 <<< 32), g)

end Generator

instance : Randomness Generator := ⟨Generator.draw⟩

end SelectiveReject
