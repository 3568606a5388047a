import PropertyGraph.Word64

namespace PropertyGraph.ChaCha

def rotate (x : UInt32) (n : UInt32) : UInt32 :=
  (x <<< n) ||| (x >>> (32 - n))

-- One round on the words `a`, `b`, `c` and `d` of a block.
def quarterRound (w : Array UInt32) (a b c d : Nat) : Array UInt32 :=
  let wa := w.getD a 0 + w.getD b 0
  let wd := rotate (w.getD d 0 ^^^ wa) 16
  let wc := w.getD c 0 + wd
  let wb := rotate (w.getD b 0 ^^^ wc) 12
  let wa := wa + wb
  let wd := rotate (wd ^^^ wa) 8
  let wc := wc + wd
  let wb := rotate (wb ^^^ wc) 7
  (((w.setIfInBounds a wa).setIfInBounds b wb).setIfInBounds c wc).setIfInBounds d wd

-- A round down the columns and one along the diagonals.
def doubleRound (w : Array UInt32) : Array UInt32 :=
  [(0, 4, 8, 12), (1, 5, 9, 13), (2, 6, 10, 14), (3, 7, 11, 15),
    (0, 5, 10, 15), (1, 6, 11, 12), (2, 7, 8, 13), (3, 4, 9, 14)].foldl
    (fun w (a, b, c, d) => quarterRound w a b c d) w

def constants : Array UInt32 := #[0x61707865, 0x3320646e, 0x79622d32, 0x6b206574]

-- The words of block `counter` under a key of eight words.
def block (key : Array UInt32) (counter : UInt64) : Array UInt32 :=
  let start := constants ++ key ++ #[counter.toUInt32, (counter >>> 32).toUInt32, 0, 0]
  let mixed := (List.range 4).foldl (fun w _ => doubleRound w) start
  Array.zipWith (· + ·) mixed start

-- One step of the generator that expands a seed, and the word that it gives.
def expandStep (state : UInt64) : UInt32 × UInt64 :=
  let state := state * 6364136223846793005 + 11634580027462260723
  let x := (((state >>> 18) ^^^ state) >>> 27).toUInt32
  let turn := (state >>> 59).toUInt32
  (if turn = 0 then x else rotate x (32 - turn), state)

def expandKey : (n : Nat) → (state : UInt64) → Array UInt32 → Array UInt32
  | 0, _, key => key
  | n + 1, state, key =>
    let (word, state) := expandStep state
    expandKey n state (key.push word)

end ChaCha

-- A generator: its key, the next block, and the words of the current block that are left.
structure Generator where
  key : Array UInt32
  counter : UInt64
  words : List UInt32

namespace Generator

open ChaCha

def ofSeed (seed : UInt64) : Generator := ⟨expandKey 8 seed #[], 0, []⟩

-- The next 64 bits, the lower word first.
def next (g : Generator) : UInt64 × Generator :=
  match g.words with
  | low :: high :: words => ((high.toUInt64 <<< 32) ||| low.toUInt64, { g with words })
  | _ =>
    match (block g.key g.counter).toList with
    | low :: high :: words =>
      ((high.toUInt64 <<< 32) ||| low.toUInt64, { g with counter := g.counter + 1, words })
    | _ => (0, g)

-- The greatest low half of a product with `n` that is accepted.
def zone (n : Nat) : Nat :=
  (n <<< (63 - n.log2)) - 1

-- A number below `n`: the high half of a product with `n` whose low half is in the zone. Each draw is in it
-- with a chance of at least one half, so that the first of `fuel` draws that is will be among them.
def below (n : Nat) : (fuel : Nat) → Generator → Nat × Generator
  | 0, g => (0, g)
  | fuel + 1, g =>
    let (v, g) := g.next
    let product := v.toNat * n
    if product % Word64.count ≤ zone n then (product / Word64.count, g) else below n fuel g

-- Draws that suffice: a longer series of refusals does not occur.
def drawBound : Nat := 10000

end Generator

end PropertyGraph
