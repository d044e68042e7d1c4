/-!
The BLAKE3 hash of a list of bytes, 256 bits long. The input is cut into chunks of 1024 bytes, and
chunks into blocks of 64. A chunk's blocks are compressed in a row, each with the chaining value of
the one before; the chunks are the leaves of a binary tree whose left subtrees are the largest full
ones, and a parent compresses the chaining values of its children. The last compression of all
carries the root flag.
-/

set_option autoImplicit false
set_option relaxedAutoImplicit false

namespace StepScript.Digest.Blake3

/-- The initial chaining value, which also fills the third row of the state. -/
def initial : List UInt32 :=
  [0x6A09E667, 0xBB67AE85, 0x3C6EF372, 0xA54FF53A, 0x510E527F, 0x9B05688C, 0x1F83D9AB, 0x5BE0CD19]

/-- The order in which a round's message words stand in the next round. -/
def schedule : List Nat := [2, 6, 3, 10, 7, 0, 4, 13, 1, 11, 12, 5, 9, 14, 15, 8]

def chunkStart : UInt32 := 1
def chunkEnd : UInt32 := 2
def parentFlag : UInt32 := 4
def rootFlag : UInt32 := 8

def rotateRight (x : UInt32) (n : UInt32) : UInt32 := (x >>> n) ||| (x <<< (32 - n))

/-- Four words of the state. -/
structure Quad where
  a : UInt32
  b : UInt32
  c : UInt32
  d : UInt32
  deriving DecidableEq, Repr

/-- Mixes two message words into four words of the state. -/
def Quad.mix (q : Quad) (x y : UInt32) : Quad :=
  let a := q.a + q.b + x
  let d := rotateRight (q.d ^^^ a) 16
  let c := q.c + d
  let b := rotateRight (q.b ^^^ c) 12
  let a := a + b + y
  let d := rotateRight (d ^^^ a) 8
  let c := c + d
  let b := rotateRight (b ^^^ c) 7
  ⟨a, b, c, d⟩

/-- The state as four columns. -/
structure State where
  p : Quad
  q : Quad
  r : Quad
  s : Quad
  deriving DecidableEq, Repr

def word (message : List UInt32) (i : Nat) : UInt32 := message.getD i 0

def State.round (st : State) (m : List UInt32) : State :=
  let p := st.p.mix (word m 0) (word m 1)
  let q := st.q.mix (word m 2) (word m 3)
  let r := st.r.mix (word m 4) (word m 5)
  let s := st.s.mix (word m 6) (word m 7)
  let x := (Quad.mk p.a q.b r.c s.d).mix (word m 8) (word m 9)
  let y := (Quad.mk q.a r.b s.c p.d).mix (word m 10) (word m 11)
  let z := (Quad.mk r.a s.b p.c q.d).mix (word m 12) (word m 13)
  let w := (Quad.mk s.a p.b q.c r.d).mix (word m 14) (word m 15)
  ⟨⟨x.a, w.b, z.c, y.d⟩, ⟨y.a, x.b, w.c, z.d⟩, ⟨z.a, y.b, x.c, w.d⟩, ⟨w.a, z.b, y.c, x.d⟩⟩

/-- Rounds in a row, reordering the message between them. -/
def rounds : Nat → State → List UInt32 → State
  | 0, st, _ => st
  | n + 1, st, m => rounds n (st.round m) (schedule.map (word m))

/-- What is compressed. -/
structure Block where
  chaining : List UInt32
  message : List UInt32
  counter : Nat
  length : Nat
  flags : UInt32
  deriving DecidableEq, Repr

def Block.compress (b : Block) (flags : UInt32) : List UInt32 :=
  let h := word b.chaining
  let v := word initial
  let start : State :=
    ⟨⟨h 0, h 4, v 0, UInt32.ofNat b.counter⟩,
      ⟨h 1, h 5, v 1, UInt32.ofNat (b.counter / UInt32.size)⟩,
      ⟨h 2, h 6, v 2, UInt32.ofNat b.length⟩,
      ⟨h 3, h 7, v 3, b.flags ||| flags⟩⟩
  let st := rounds 7 start b.message
  [st.p.a ^^^ st.p.c, st.q.a ^^^ st.q.c, st.r.a ^^^ st.r.c, st.s.a ^^^ st.s.c,
    st.p.b ^^^ st.p.d, st.q.b ^^^ st.q.d, st.r.b ^^^ st.r.d, st.s.b ^^^ st.s.d]

def wordsOf : List UInt8 → List UInt32
  | a :: b :: c :: d :: rest =>
    (a.toUInt32 ||| (b.toUInt32 <<< 8) ||| (c.toUInt32 <<< 16) ||| (d.toUInt32 <<< 24)) ::
      wordsOf rest
  | a :: b :: c :: [] => [a.toUInt32 ||| (b.toUInt32 <<< 8) ||| (c.toUInt32 <<< 16)]
  | a :: b :: [] => [a.toUInt32 ||| (b.toUInt32 <<< 8)]
  | a :: [] => [a.toUInt32]
  | [] => []

def blockLength : Nat := 64

def chunkLength : Nat := 1024

/-- The last block of a chunk, all blocks before it compressed. The first argument bounds the number
of blocks. -/
def lastBlock (counter : Nat) : Nat → List UInt32 → UInt32 → List UInt8 → Block
  | 0, chaining, flags, bytes =>
    ⟨chaining, wordsOf (bytes.take blockLength), counter, bytes.length, flags ||| chunkEnd⟩
  | n + 1, chaining, flags, bytes =>
    let block : Block :=
      ⟨chaining, wordsOf (bytes.take blockLength), counter, (bytes.take blockLength).length, flags⟩
    if bytes.length ≤ blockLength then { block with flags := flags ||| chunkEnd }
    else lastBlock counter n (block.compress 0) 0 (bytes.drop blockLength)

def chunkBlock (counter : Nat) (bytes : List UInt8) : Block :=
  lastBlock counter (chunkLength / blockLength) initial chunkStart bytes

def parentBlock (left right : List UInt32) : Block :=
  ⟨initial, left ++ right, 0, blockLength, parentFlag⟩

/-- The number of bytes in the left subtree: the largest power of two chunks that leaves some. -/
def leftLength (length : Nat) : Nat :=
  chunkLength <<< ((length - 1) / chunkLength).log2

/-- The last block of a subtree whose first chunk has a number. The first argument bounds the height
of the subtree. -/
def treeBlock : Nat → Nat → List UInt8 → Block
  | 0, counter, bytes => chunkBlock counter bytes
  | height + 1, counter, bytes =>
    if bytes.length ≤ chunkLength then chunkBlock counter bytes
    else
      let left := leftLength bytes.length
      parentBlock ((treeBlock height counter (bytes.take left)).compress 0)
        ((treeBlock height (counter + left / chunkLength) (bytes.drop left)).compress 0)

def bytesOf (w : UInt32) : List UInt8 :=
  [w.toUInt8, (w >>> 8).toUInt8, (w >>> 16).toUInt8, (w >>> 24).toUInt8]

def hash (bytes : List UInt8) : List UInt8 :=
  ((treeBlock bytes.length.log2 0 bytes).compress rootFlag).flatMap bytesOf

def hexByte (b : UInt8) : List Char :=
  [Nat.digitChar (b.toNat / 16), Nat.digitChar (b.toNat % 16)]

/-- The hash of a text's bytes in UTF-8, in hexadecimal digits. -/
def hexHash (s : String) : String :=
  String.ofList ((hash s.toUTF8.toList).flatMap hexByte)

end StepScript.Digest.Blake3
