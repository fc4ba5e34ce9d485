/-
  ClassLint.Digest

  A digest of 256 bits, computed over a binary tree of chunks.

  The bytes are cut into chunks of 1024 and each chunk into blocks of 64.  The
  blocks of a chunk are compressed one after the other, each with the chaining
  value of the one before; the chaining values of two subtrees form the block
  of their parent, and the left subtree is always the largest full one.  The
  digest is the output of the root.
-/

import ClassLint.Power
import ClassLint.Text

namespace ClassLint

structure Digest where
  words : Vector UInt32 8
deriving DecidableEq, Repr

namespace Digest

/-! ## Compression -/

/-- The words that an empty chunk starts from. -/
def initial : Vector UInt32 8 :=
  #v[0x6A09E667, 0xBB67AE85, 0x3C6EF372, 0xA54FF53A, 0x510E527F, 0x9B05688C, 0x1F83D9AB, 0x5BE0CD19]

instance : Inhabited Digest := ⟨⟨initial⟩⟩

/-- Which message word moves to each place between two rounds. -/
def order : Vector (Fin 16) 16 :=
  #v[2, 6, 3, 10, 7, 0, 4, 13, 1, 11, 12, 5, 9, 14, 15, 8]

def rotate (w : UInt32) (n : UInt32) : UInt32 :=
  (w >>> n) ||| (w <<< (32 - n))

/-- Mix two message words into four words of the state. -/
def mix (v : Vector UInt32 16) (a b c d : Fin 16) (x y : UInt32) : Vector UInt32 16 :=
  let va := v[a] + v[b] + x
  let vd := rotate (v[d] ^^^ va) 16
  let vc := v[c] + vd
  let vb := rotate (v[b] ^^^ vc) 12
  let va := va + vb + y
  let vd := rotate (vd ^^^ va) 8
  let vc := vc + vd
  let vb := rotate (vb ^^^ vc) 7
  (((v.set a va).set b vb).set c vc).set d vd

/-- Mix the columns and then the diagonals of the state. -/
def round (v m : Vector UInt32 16) : Vector UInt32 16 :=
  let v := mix v 0 4 8 12 m[0] m[1]
  let v := mix v 1 5 9 13 m[2] m[3]
  let v := mix v 2 6 10 14 m[4] m[5]
  let v := mix v 3 7 11 15 m[6] m[7]
  let v := mix v 0 5 10 15 m[8] m[9]
  let v := mix v 1 6 11 12 m[10] m[11]
  let v := mix v 2 7 8 13 m[12] m[13]
  mix v 3 4 9 14 m[14] m[15]

/-- So many rounds, the message words moved between two of them. -/
def rounds : Nat → Vector UInt32 16 → Vector UInt32 16 → Vector UInt32 16
  | 0, v, _ => v
  | n + 1, v, m => rounds n (round v m) (order.map fun i => m[i])

/-- What a chaining value is computed from. -/
structure Node where
  chaining : Vector UInt32 8
  block : Vector UInt32 16
  /-- The number of the chunk, and zero for a parent. -/
  counter : UInt64
  length : UInt32
  flags : UInt32

/-- Marks of the first and last block of a chunk, of a parent and of the root. -/
def chunkStart : UInt32 := 1
def chunkEnd : UInt32 := 2
def parentMark : UInt32 := 4
def rootMark : UInt32 := 8

/-- The first half of the compressed state, with further flags set. -/
def Node.compress (n : Node) (flags : UInt32) : Vector UInt32 8 :=
  let tail : Vector UInt32 8 :=
    #v[initial[0], initial[1], initial[2], initial[3],
      n.counter.toUInt32, (n.counter >>> 32).toUInt32, n.length, n.flags ||| flags]
  let v := rounds 7 (n.chaining ++ tail) n.block
  Vector.ofFn fun i : Fin 8 => v[i.val] ^^^ v[i.val + 8]

/-! ## Chunks -/

/-- Four bytes as a word, the least significant first. -/
def word (bytes : List UInt8) : UInt32 :=
  bytes.foldr (fun b w => (w <<< 8) ||| b.toUInt32) 0

/-- A block of up to 64 bytes, filled up with zeros. -/
def block (bytes : List UInt8) : Vector UInt32 16 :=
  Vector.ofFn fun i : Fin 16 => word ((bytes.drop (4 * i.val)).take 4)

/-- A list cut into pieces of a length; the last may be shorter, and there is at least one. -/
def cut (length : Nat) : Nat → List UInt8 → List (List UInt8)
  | 0, bytes => [bytes]
  | pieces + 1, bytes =>
    if bytes.length ≤ length then [bytes]
    else bytes.take length :: cut length pieces (bytes.drop length)

/-- The node of a chunk: that of its last block. -/
def chunkBlocks (counter : UInt64) (chaining : Vector UInt32 8) (flags : UInt32) :
    List (List UInt8) → Node
  | [] => ⟨chaining, block [], counter, 0, flags ||| chunkEnd⟩
  | [bytes] => ⟨chaining, block bytes, counter, bytes.length.toUInt32, flags ||| chunkEnd⟩
  | bytes :: rest =>
    let node : Node := ⟨chaining, block bytes, counter, 64, flags⟩
    chunkBlocks counter (node.compress 0) 0 rest

/-- The node of a chunk of up to 1024 bytes. -/
def chunk (counter : Nat) (bytes : List UInt8) : Node :=
  chunkBlocks counter.toUInt64 initial chunkStart (cut 64 16 bytes)

/-! ## The tree -/

def parent (left right : Node) : Node :=
  ⟨initial, left.compress 0 ++ right.compress 0, 0, 64, parentMark⟩

/-- The node above a list of chunks, whose number bounds the depth. -/
def tree : Nat → List Node → Option Node
  | _, [] => none
  | _, [node] => some node
  | 0, node :: _ => some node
  | depth + 1, nodes => do
    let half := twoTo (nodes.length - 1).log2
    some (parent (← tree depth (nodes.take half)) (← tree depth (nodes.drop half)))

def chunks (bytes : List UInt8) : List Node :=
  (cut 1024 bytes.length bytes).zipIdx.map fun p => chunk p.2 p.1

def ofBytes (bytes : List UInt8) : Digest :=
  let nodes := chunks bytes
  ⟨((tree nodes.length nodes).map fun root => root.compress rootMark).getD initial⟩

/-! ## Writing -/

/-- The bytes of a word, the least significant first. -/
def wordBytes (w : UInt32) : List UInt8 :=
  [w.toUInt8, (w >>> 8).toUInt8, (w >>> 16).toUInt8, (w >>> 24).toUInt8]

/-- Two hexadecimal digits in lower case. -/
def hexByte (b : UInt8) : Text :=
  [Nat.digitChar (b.toNat / 16), Nat.digitChar (b.toNat % 16)]

def hex (d : Digest) : Text :=
  (d.words.toList.flatMap wordBytes).flatMap hexByte

end Digest

end ClassLint
