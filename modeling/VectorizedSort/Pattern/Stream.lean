/-! # The random stream

A stream of 32-bit words from a 64-bit seed. The seed is expanded to a key of eight words, and the
words of the stream are the blocks of the ChaCha cipher with twelve rounds under that key, numbered
from zero. All arithmetic is modulo the word size. -/

namespace VectorizedSort

/-! ### Blocks -/

/-- The state of the cipher, or one block of its output. -/
abbrev Block : Type := Vector UInt32 16

namespace Block

/-- Turn the bits of a word to the left. -/
def rotate (x : UInt32) (bits : UInt32) : UInt32 := (x <<< bits) ||| (x >>> (32 - bits))

/-- Mix four words of a block. -/
def quarterRound (s : Block) (a b c d : Fin 16) : Block :=
  let s := s.set a (s[a] + s[b])
  let s := s.set d (rotate (s[d] ^^^ s[a]) 16)
  let s := s.set c (s[c] + s[d])
  let s := s.set b (rotate (s[b] ^^^ s[c]) 12)
  let s := s.set a (s[a] + s[b])
  let s := s.set d (rotate (s[d] ^^^ s[a]) 8)
  let s := s.set c (s[c] + s[d])
  s.set b (rotate (s[b] ^^^ s[c]) 7)

/-- Mix the four columns of a block and then its four diagonals. -/
def doubleRound (s : Block) : Block :=
  let s := s.quarterRound 0 4 8 12
  let s := s.quarterRound 1 5 9 13
  let s := s.quarterRound 2 6 10 14
  let s := s.quarterRound 3 7 11 15
  let s := s.quarterRound 0 5 10 15
  let s := s.quarterRound 1 6 11 12
  let s := s.quarterRound 2 7 8 13
  s.quarterRound 3 4 9 14

/-- Mix a block a number of times. -/
def mix (s : Block) : (doubleRounds : Nat) → Block
  | 0 => s
  | n + 1 => mix s.doubleRound n

/-- The initial state for a key and a block number: four constants, the key, the number, zeros. -/
def initial (key : Vector UInt32 8) (number : UInt64) : Block :=
  #v[0x61707865, 0x3320646e, 0x79622d32, 0x6b206574, key[0], key[1], key[2], key[3], key[4],
    key[5], key[6], key[7], number.toUInt32, (number >>> 32).toUInt32, 0, 0]

/-- The block with a number under a key: the initial state mixed by six double rounds and added to
itself. -/
def keyed (key : Vector UInt32 8) (number : UInt64) : Block :=
  let s := initial key number
  Vector.zipWith (· + ·) (mix s 6) s

end Block

/-! ### The generator -/

/-- A position in a random stream. -/
structure Generator where
  /-- The key of the stream. -/
  key : Vector UInt32 8
  /-- The number of the block that is generated next. -/
  number : UInt64
  /-- The words of the last block that have not been drawn. -/
  rest : List UInt32

namespace Generator

/-- A computation that draws from a random stream. -/
abbrev Draw (β : Type) : Type := StateM Generator β

/-- The step of the linear congruential sequence that expands a seed. -/
def expand (state : UInt64) : UInt64 := state * 6364136223846793005 + 11634580027462260723

/-- The output word of a state of that sequence: its high bits folded, turned to the right by as
many places as its five highest bits say. -/
def outputWord (state : UInt64) : UInt32 :=
  let folded := (((state >>> 18) ^^^ state) >>> 27).toUInt32
  let turn := (state >>> 59).toUInt32
  (folded >>> turn) ||| (folded <<< (32 - turn))

/-- The first words of an expanded seed. -/
def expandedWords (state : UInt64) : (count : Nat) → List UInt32
  | 0 => []
  | n + 1 => outputWord (expand state) :: expandedWords (expand state) n

/-- The start of the stream of a seed. -/
def ofSeed (seed : UInt64) : Generator where
  key := Vector.ofFn fun i => (expandedWords seed 8).getD i 0
  number := 0
  rest := []

/-- The next word of the stream. -/
def word : Draw UInt32 := fun g =>
  match g.rest with
  | w :: rest => (w, { g with rest })
  | [] =>
    let block := Block.keyed g.key g.number
    (block[0], { g with number := g.number + 1, rest := block.toList.drop 1 })

/-- The next two words of the stream as one, the first of them being the low half. -/
def wideWord : Draw UInt64 := do
  let low ← word
  let high ← word
  return (high.toUInt64 <<< 32) ||| low.toUInt64

end Generator

end VectorizedSort
