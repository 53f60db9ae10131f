/-! # BLAKE3

The hash function BLAKE3 with its default output of 32 bytes. A text is cut into chunks of 1024
bytes, each chunk is compressed block by block, and the chunks are the leaves of a binary tree whose
left subtrees are complete. -/

namespace MapPlan.Digest.Blake3

/-! ## Compression -/

abbrev Word := UInt32

def initial : Vector Word 8 :=
  #v[0x6A09E667, 0xBB67AE85, 0x3C6EF372, 0xA54FF53A,
     0x510E527F, 0x9B05688C, 0x1F83D9AB, 0x5BE0CD19]

def rotateRight (w : Word) (n : Word) : Word :=
  (w >>> n) ||| (w <<< (32 - n))

/-- Mix two words of the message into one column or diagonal of the state. -/
def mix (v : Vector Word 16) (a b c d : Fin 16) (x y : Word) : Vector Word 16 :=
  let va := v[a] + v[b] + x
  let vd := rotateRight (v[d] ^^^ va) 16
  let vc := v[c] + vd
  let vb := rotateRight (v[b] ^^^ vc) 12
  let va := va + vb + y
  let vd := rotateRight (vd ^^^ va) 8
  let vc := vc + vd
  let vb := rotateRight (vb ^^^ vc) 7
  (((v.set a va).set b vb).set c vc).set d vd

def round (v m : Vector Word 16) : Vector Word 16 :=
  let v := mix v 0 4 8 12 m[0] m[1]
  let v := mix v 1 5 9 13 m[2] m[3]
  let v := mix v 2 6 10 14 m[4] m[5]
  let v := mix v 3 7 11 15 m[6] m[7]
  let v := mix v 0 5 10 15 m[8] m[9]
  let v := mix v 1 6 11 12 m[10] m[11]
  let v := mix v 2 7 8 13 m[12] m[13]
  mix v 3 4 9 14 m[14] m[15]

/-- The order in which the next round takes the words of the message. -/
def permute (m : Vector Word 16) : Vector Word 16 :=
  #v[m[2], m[6], m[3], m[10], m[7], m[0], m[4], m[13],
     m[1], m[11], m[12], m[5], m[9], m[14], m[15], m[8]]

def rounds : Nat → Vector Word 16 → Vector Word 16 → Vector Word 16
  | 0, v, _ => v
  | n + 1, v, m => rounds n (round v m) (permute m)

def flagChunkStart : Word := 1

def flagChunkEnd : Word := 2

def flagParent : Word := 4

def flagRoot : Word := 8

/-- The input of one compression. -/
structure Node where
  chaining : Vector Word 8
  block : Vector Word 16
  counter : UInt64
  length : Word
  flags : Word

/-- The first half of the compressed state. -/
def Node.output (n : Node) : Vector Word 8 :=
  let h := n.chaining
  let v := rounds 7
    #v[h[0], h[1], h[2], h[3], h[4], h[5], h[6], h[7],
       initial[0], initial[1], initial[2], initial[3],
       n.counter.toUInt32, (n.counter >>> 32).toUInt32, n.length, n.flags] n.block
  #v[v[0] ^^^ v[8], v[1] ^^^ v[9], v[2] ^^^ v[10], v[3] ^^^ v[11],
     v[4] ^^^ v[12], v[5] ^^^ v[13], v[6] ^^^ v[14], v[7] ^^^ v[15]]

/-! ## Chunks and the tree -/

def word (bytes : List UInt8) : Word :=
  bytes.foldr (fun b w => w <<< 8 ||| b.toUInt32) 0

/-- Up to 64 bytes as 16 little-endian words, with zeros after the last byte. -/
def blockWords (bytes : List UInt8) : Vector Word 16 :=
  Vector.ofFn fun i => word ((bytes.drop (4 * i)).take 4)

/-- The last compression of a chunk, with the ones before it done. -/
def chunkFrom (chaining : Vector Word 8) (counter : UInt64) (flags : Word) (bytes : List UInt8) :
    Node :=
  let node : Node := ⟨chaining, blockWords (bytes.take 64), counter,
    (bytes.take 64).length.toUInt32, flags⟩
  let rest := bytes.drop 64
  if rest = [] then { node with flags := flags ||| flagChunkEnd }
  else chunkFrom node.output counter 0 rest
termination_by bytes.length
decreasing_by
  simp only [rest, List.drop_eq_nil_iff, Nat.not_le] at *
  simp only [List.length_drop]
  omega

def parent (left right : Vector Word 8) : Node :=
  ⟨initial, left ++ right, 0, 64, flagParent⟩

/-- The largest power of two below `n`, or one. -/
def leftChunks (n : Nat) : Nat :=
  if n ≤ 2 then 1 else 2 * leftChunks ((n + 1) / 2)

theorem leftChunks_pos (n : Nat) : 0 < leftChunks n := by
  fun_induction leftChunks n <;> omega

theorem leftChunks_lt {n : Nat} (h : 1 < n) : leftChunks n < n := by
  fun_induction leftChunks n <;> omega

/-- How many of `n` bytes belong to the left subtree, if one chunk cannot hold them. -/
def leftSize (n : Nat) : Nat :=
  1024 * leftChunks ((n + 1023) / 1024)

theorem leftSize_pos (n : Nat) : 0 < leftSize n := by
  have := leftChunks_pos ((n + 1023) / 1024)
  simp only [leftSize]
  omega

theorem leftSize_lt {n : Nat} (h : 1024 < n) : leftSize n < n := by
  have := leftChunks_lt (n := (n + 1023) / 1024) (by omega)
  simp only [leftSize]
  omega

/-- The root of the tree over the bytes, whose first chunk has the given number. -/
def tree (counter : UInt64) (bytes : List UInt8) : Node :=
  if bytes.length ≤ 1024 then chunkFrom initial counter flagChunkStart bytes
  else
    let left := leftSize bytes.length
    parent (tree counter (bytes.take left)).output
      (tree (counter + (left / 1024).toUInt64) (bytes.drop left)).output
termination_by bytes.length
decreasing_by
  all_goals
    have := leftSize_pos bytes.length
    have := leftSize_lt (n := bytes.length) (by omega)
    simp only [List.length_take, List.length_drop]
    omega

def wordBytes (w : Word) : List UInt8 :=
  [w.toUInt8, (w >>> 8).toUInt8, (w >>> 16).toUInt8, (w >>> 24).toUInt8]

def hash (bytes : List UInt8) : List UInt8 :=
  let root := tree 0 bytes
  { root with flags := root.flags ||| flagRoot }.output.toList.flatMap wordBytes

end MapPlan.Digest.Blake3
