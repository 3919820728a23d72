/-!
# Random numbers

A stream of 32-bit words from the ChaCha cipher with twelve rounds, keyed by a seed. The stream is
a function of the key and a position, so two sessions of one seed draw the same numbers.
-/

namespace RobotScript

structure Random where
  key : Vector UInt32 8
  /-- Words drawn so far. -/
  position : Nat

namespace Random

/-! ### The cipher -/

abbrev Block := Vector UInt32 16

def rotateLeft (x : UInt32) (n : UInt32) : UInt32 := x <<< n ||| x >>> (32 - n)

def quarterRound (s : Block) (a b c d : Fin 16) : Block :=
  let s := s.set a (s[a] + s[b])
  let s := s.set d (rotateLeft (s[d] ^^^ s[a]) 16)
  let s := s.set c (s[c] + s[d])
  let s := s.set b (rotateLeft (s[b] ^^^ s[c]) 12)
  let s := s.set a (s[a] + s[b])
  let s := s.set d (rotateLeft (s[d] ^^^ s[a]) 8)
  let s := s.set c (s[c] + s[d])
  s.set b (rotateLeft (s[b] ^^^ s[c]) 7)

/-- The columns, then the diagonals. -/
def doubleRound (s : Block) : Block :=
  let s := quarterRound s 0 4 8 12
  let s := quarterRound s 1 5 9 13
  let s := quarterRound s 2 6 10 14
  let s := quarterRound s 3 7 11 15
  let s := quarterRound s 0 5 10 15
  let s := quarterRound s 1 6 11 12
  let s := quarterRound s 2 7 8 13
  quarterRound s 3 4 9 14

/-- The state before any round: the cipher's constant, the key and a 64-bit block number. -/
def initial (key : Vector UInt32 8) (block : Nat) : Block :=
  #v[0x61707865, 0x3320646e, 0x79622d32, 0x6b206574,
    key[0], key[1], key[2], key[3], key[4], key[5], key[6], key[7],
    block.toUInt32, (block / UInt32.size).toUInt32, 0, 0]

def block (key : Vector UInt32 8) (n : Nat) : Block :=
  let start := initial key n
  let mixed := Nat.repeat doubleRound 6 start
  mixed.zipWith (· + ·) start

/-- Word number `n` of the stream. -/
def word (key : Vector UInt32 8) (n : Nat) : UInt32 :=
  (block key (n / 16))[n % 16]

/-! ### Seeds -/

/-- One word of key material and the state after it. -/
def seedWord (state : UInt64) : UInt32 × UInt64 :=
  let state := state * 6364136223846793005 + 11634580027462260723
  let x := (((state >>> 18) ^^^ state) >>> 27).toUInt32
  let r := (state >>> 59).toUInt32
  (x >>> r ||| x <<< ((32 - r) % 32), state)

def seedWords : Nat → UInt64 → List UInt32
  | 0, _ => []
  | n + 1, state =>
    let (w, state) := seedWord state
    w :: seedWords n state

theorem length_seedWords (n : Nat) (state : UInt64) : (seedWords n state).length = n := by
  induction n generalizing state with
  | zero => rfl
  | succ n ih => simp [seedWords, ih]

def ofSeed (seed : UInt64) : Random :=
  ⟨⟨(seedWords 8 seed).toArray, by simp [length_seedWords]⟩, 0⟩

/-! ### Draws -/

/-- A 64-bit number: two words, the low one first. -/
def next64 (g : Random) : Nat × Random :=
  let low := word g.key g.position
  let high := word g.key (g.position + 1)
  (low.toNat + high.toNat * UInt32.size, { g with position := g.position + 2 })

/-- A number below `bound`: the high half of the product of a draw with it, where draws whose low
half would favour some results are rejected. More than half of all draws are kept, so `attempts`
do not run out in practice. -/
def below (bound : Nat) : Nat → Random → Nat × Random
  | 0, g => (0, g)
  | attempts + 1, g =>
    let zone := bound <<< (63 - bound.log2) - 1
    let (v, g) := g.next64
    let p := v * bound
    if p % UInt64.size ≤ zone then (p / UInt64.size, g) else below bound attempts g

/-- A number from one to `max`, or one if that is less. -/
def upTo (max : Int64) (g : Random) : Int64 × Random :=
  let (n, g) := below (if max < 1 then 1 else max.toInt.toNat) 1000 g
  (Int64.ofNat (1 + n), g)

end Random

end RobotScript
