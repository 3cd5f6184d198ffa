/-
The seeded word stream: the ChaCha block function with twelve rounds.

`seedWords` stretches a 64-bit seed to a key of eight words by a congruential
generator with a permuted output; `Key.block` is the ChaCha block function, on four rows
that are worked on side by side; `keyStream` pairs the output words, low word first,
into 64-bit draws.
-/
import PeerOverlay.Random.Draws

namespace PeerOverlay

/-- The next state of the generator that stretches a seed. -/
def nextSeedState (state : UInt64) : UInt64 :=
  state * 6364136223846793005 + 11634580027462260723

/-- Rotates a word to the right. -/
def rotateRight (word amount : UInt32) : UInt32 :=
  (word >>> amount) ||| (word <<< (32 - amount))

/-- Rotates a word to the left. -/
def rotateLeft (word amount : UInt32) : UInt32 :=
  (word <<< amount) ||| (word >>> (32 - amount))

/-- The word that a generator state gives. -/
def seedWord (state : UInt64) : UInt32 :=
  rotateRight (((state >>> 18) ^^^ state) >>> 27).toUInt32 (state >>> 59).toUInt32

/-- The first `count` words after a generator state. -/
def seedWords : (count : Nat) → UInt64 → List UInt32
  | 0, _ => []
  | count + 1, state =>
    let next := nextSeedState state
    seedWord next :: seedWords count next

namespace KeyStream

/-- Four words that are worked on side by side. -/
structure Row where
  (a b c d : UInt32)
deriving DecidableEq, Repr

namespace Row

/-- Combines two rows lane by lane. -/
@[inline] def zipWith (f : UInt32 → UInt32 → UInt32) (r s : Row) : Row :=
  ⟨f r.a s.a, f r.b s.b, f r.c s.c, f r.d s.d⟩

/-- Adds two rows lane by lane. -/
@[inline] def add (r s : Row) : Row :=
  r.zipWith (· + ·) s

/-- Joins two rows by exclusive or and rotates every lane to the left. -/
@[inline] def mix (r s : Row) (amount : UInt32) : Row :=
  r.zipWith (fun x y => rotateLeft (x ^^^ y) amount) s

/-- Moves every lane one place down, the first to the end. -/
@[inline] def turn (r : Row) : Row :=
  ⟨r.b, r.c, r.d, r.a⟩

end Row

/-- The sixteen words of a block, as four rows. -/
structure Block where
  (first second third fourth : Row)
deriving DecidableEq, Repr

namespace Block

/-- Four quarter rounds side by side, one on each column. -/
@[inline] def quarterRounds (s : Block) : Block :=
  let first := s.first.add s.second
  let fourth := s.fourth.mix first 16
  let third := s.third.add fourth
  let second := s.second.mix third 12
  let first := first.add second
  let fourth := fourth.mix first 8
  let third := third.add fourth
  let second := second.mix third 7
  ⟨first, second, third, fourth⟩

/-- Turns the rows so that the diagonals stand as columns. -/
@[inline] def toDiagonals (s : Block) : Block :=
  ⟨s.first, s.second.turn, s.third.turn.turn, s.fourth.turn.turn.turn⟩

/-- Turns the rows so that the columns stand as before `toDiagonals`. -/
@[inline] def ofDiagonals (s : Block) : Block :=
  ⟨s.first, s.second.turn.turn.turn, s.third.turn.turn, s.fourth.turn⟩

/-- A column round followed by a diagonal round. -/
def doubleRound (s : Block) : Block :=
  s.quarterRounds.toDiagonals.quarterRounds.ofDiagonals

/-- Adds two blocks word by word. -/
def add (s t : Block) : Block :=
  ⟨s.first.add t.first, s.second.add t.second, s.third.add t.third, s.fourth.add t.fourth⟩

/-- The row at a place, counted modulo four. -/
def row (s : Block) (i : Nat) : Row :=
  match i % 4 with
  | 0 => s.first
  | 1 => s.second
  | 2 => s.third
  | _ => s.fourth

/-- The words of a block joined in pairs, the low word first. -/
def pair (s : Block) (i : Nat) : UInt64 :=
  let row := s.row (i / 2)
  if i % 2 = 0 then row.a.toUInt64 ||| (row.b.toUInt64 <<< 32)
  else row.c.toUInt64 ||| (row.d.toUInt64 <<< 32)

end Block

/-- A key: the second and the third row of every input block. -/
structure Key where
  (low high : Row)
deriving DecidableEq, Repr

/-- The key that a list of eight words spells; missing words count as zero. -/
def Key.ofWords (words : List UInt32) : Key :=
  let word := fun i => words.getD i 0
  ⟨⟨word 0, word 1, word 2, word 3⟩, ⟨word 4, word 5, word 6, word 7⟩⟩

/-- The input block: four constants, the key, the block counter and stream zero. -/
def Key.inputBlock (key : Key) (counter : UInt64) : Block where
  first := ⟨0x61707865, 0x3320646e, 0x79622d32, 0x6b206574⟩
  second := key.low
  third := key.high
  fourth := ⟨counter.toUInt32, (counter >>> 32).toUInt32, 0, 0⟩

/-- The output block for a key and a block counter: six double rounds, then the input is
added word by word. -/
def Key.block (key : Key) (counter : UInt64) : Block :=
  let input := key.inputBlock counter
  let s := input.doubleRound.doubleRound.doubleRound
  s.doubleRound.doubleRound.doubleRound.add input

/-- The draws that a key gives: draw `i` is pair `i` of the output words; a block holds
eight pairs. -/
def Key.draws (key : Key) : DrawSource where
  word i := (key.block (UInt64.ofNat (i / 8))).pair (i % 8)

end KeyStream

/-- The draws that a seed gives: those of the key that the seed is stretched to. -/
def keyStream (seed : UInt64) : DrawSource :=
  (KeyStream.Key.ofWords (seedWords 8 seed)).draws

end PeerOverlay
