import TxnPath.Fault
import TxnPath.Text.Hexadecimal

/-!
# Digests

The 32-byte BLAKE3 digest of a byte string. The string is cut into chunks of 1024 bytes and each
chunk into blocks of 64; compressing the blocks of a chunk one after the other gives its chaining
value. Chunks are the leaves of a binary tree whose left part is always the largest full one, and
the digest is the compression of the tree's root.

A digest also sorts values into buckets: its first eight bytes, least significant first, modulo the
number of buckets.
-/

set_option autoImplicit false

namespace TxnPath

/-- A 32-byte digest. -/
structure Digest where
  /-- The bytes, first to last. -/
  bytes : List UInt8
  deriving DecidableEq

namespace Digest

/-- The state that a chunk starts from. -/
def initial : Vector UInt32 8 :=
  #v[0x6A09E667, 0xBB67AE85, 0x3C6EF372, 0xA54FF53A, 0x510E527F, 0x9B05688C, 0x1F83D9AB, 0x5BE0CD19]

/-- The order in which a round takes the message words of the round before. -/
def schedule : Vector (Fin 16) 16 :=
  #v[2, 6, 3, 10, 7, 0, 4, 13, 1, 11, 12, 5, 9, 14, 15, 8]

/-- Marks the first block of a chunk. -/
def chunkStart : UInt32 := 1

/-- Marks the last block of a chunk. -/
def chunkEnd : UInt32 := 2

/-- Marks an inner node of the tree. -/
def parent : UInt32 := 4

/-- Marks the root of the tree. -/
def root : UInt32 := 8

/-- Rotates a word to the right. -/
def rotate (w : UInt32) (by' : UInt32) : UInt32 := (w >>> by') ||| (w <<< (32 - by'))

/-- Mixes two message words into four words of the state. -/
def mix (s : Vector UInt32 16) (a b c d : Fin 16) (x y : UInt32) : Vector UInt32 16 :=
  let wa := s[a] + s[b] + x
  let wd := rotate (s[d] ^^^ wa) 16
  let wc := s[c] + wd
  let wb := rotate (s[b] ^^^ wc) 12
  let wa := wa + wb + y
  let wd := rotate (wd ^^^ wa) 8
  let wc := wc + wd
  let wb := rotate (wb ^^^ wc) 7
  (((s.set a wa).set b wb).set c wc).set d wd

/-- One round: the columns of the state, then its diagonals. -/
def round (s m : Vector UInt32 16) : Vector UInt32 16 :=
  let s := mix s 0 4 8 12 m[0] m[1]
  let s := mix s 1 5 9 13 m[2] m[3]
  let s := mix s 2 6 10 14 m[4] m[5]
  let s := mix s 3 7 11 15 m[6] m[7]
  let s := mix s 0 5 10 15 m[8] m[9]
  let s := mix s 1 6 11 12 m[10] m[11]
  let s := mix s 2 7 8 13 m[12] m[13]
  mix s 3 4 9 14 m[14] m[15]

/-- A number of rounds, the message words rearranged between them. -/
def rounds : Nat → Vector UInt32 16 → Vector UInt32 16 → Vector UInt32 16
  | 0, s, _ => s
  | n + 1, s, m => rounds n (round s m) (schedule.map fun i => m[i])

/-- Everything that a compression takes in. -/
structure Node where
  /-- The chaining value so far. -/
  chain : Vector UInt32 8
  /-- The message block. -/
  block : Vector UInt32 16
  /-- The number of the chunk. -/
  counter : UInt64
  /-- How many bytes of the block count. -/
  length : UInt32
  /-- The marks of the block. -/
  marks : UInt32

/-- The chaining value behind a node, given further marks. -/
def Node.compress (n : Node) (marks : UInt32) : Vector UInt32 8 :=
  let s : Vector UInt32 16 :=
    #v[n.chain[0], n.chain[1], n.chain[2], n.chain[3], n.chain[4], n.chain[5], n.chain[6], n.chain[7],
      initial[0], initial[1], initial[2], initial[3],
      n.counter.toUInt32, (n.counter >>> 32).toUInt32, n.length, n.marks ||| marks]
  let s := rounds 7 s n.block
  Vector.ofFn fun i : Fin 8 => s[i.val] ^^^ s[i.val + 8]

/-- The byte at a position, zero behind the end. -/
def byteAt (bytes : ByteArray) (i : Nat) : UInt32 :=
  if h : i < bytes.size then bytes[i].toUInt32 else 0

/-- The message block at a position, filled up with zeros behind `stop`. -/
def blockAt (bytes : ByteArray) (start stop : Nat) : Vector UInt32 16 :=
  Vector.ofFn fun i : Fin 16 =>
    let byte := fun k => let at' := start + 4 * i.val + k; if at' < stop then byteAt bytes at' else 0
    byte 0 ||| (byte 1 <<< 8) ||| (byte 2 <<< 16) ||| (byte 3 <<< 24)

/-- The last block of a chunk that still has `more` blocks before it. -/
def chunkBlocks (bytes : ByteArray) (stop : Nat) (counter : UInt64) :
    Nat → Nat → UInt32 → Vector UInt32 8 → Node
  | 0, start, marks, chain =>
    ⟨chain, blockAt bytes start stop, counter, UInt32.ofNat (stop - start), marks ||| chunkEnd⟩
  | more + 1, start, marks, chain =>
    let node : Node := ⟨chain, blockAt bytes start stop, counter, 64, marks⟩
    chunkBlocks bytes stop counter more (start + 64) 0 (node.compress 0)

/-- The node of one chunk. -/
def chunk (bytes : ByteArray) (start length counter : Nat) : Node :=
  chunkBlocks bytes (start + length) (UInt64.ofNat counter) ((length - 1) / 64) start chunkStart initial

/-- The node above two subtrees. -/
def join (left right : Vector UInt32 8) : Node :=
  ⟨initial, (left ++ right).cast (by decide), 0, 64, parent⟩

/-- How many bytes the left part of a tree covers: the largest full tree that leaves something to
the right. -/
def leftLength (length : Nat) : Nat := 1024 * Nat.pow 2 ((length - 1) / 1024).log2

theorem leftLength_lt {length : Nat} (h : 1024 < length) : leftLength length < length := by
  have hk : (length - 1) / 1024 ≠ 0 := by omega
  have := Nat.log2_self_le hk
  have : leftLength length ≤ 1024 * ((length - 1) / 1024) := Nat.mul_le_mul_left _ this
  omega

theorem leftLength_pos (length : Nat) : 0 < leftLength length :=
  Nat.mul_pos (by decide) (Nat.pow_pos (by decide))

/-- The node of the tree over `length` bytes, whose first chunk has number `counter`. -/
def tree (bytes : ByteArray) (start length counter : Nat) : Node :=
  if h : length ≤ 1024 then chunk bytes start length counter
  else
    let left := leftLength length
    join ((tree bytes start left counter).compress 0)
      ((tree bytes (start + left) (length - left) (counter + left / 1024)).compress 0)
termination_by length
decreasing_by
  · exact leftLength_lt (Nat.lt_of_not_le h)
  · exact Nat.sub_lt (Nat.lt_trans (by decide) (Nat.lt_of_not_le h)) (leftLength_pos length)

/-- The bytes of a word, least significant first. -/
def wordBytes (w : UInt32) : List UInt8 :=
  [w.toUInt8, (w >>> 8).toUInt8, (w >>> 16).toUInt8, (w >>> 24).toUInt8]

/-- The digest of a byte string. -/
def ofBytes (bytes : ByteArray) : Digest :=
  ⟨((tree bytes 0 bytes.size 0).compress root).toList.flatMap wordBytes⟩

/-- The digest of a text's UTF-8 bytes. -/
def ofText (s : String) : Digest := ofBytes s.toUTF8

/-- The digest of the eight bytes of a word, least significant first. -/
def ofWord (w : UInt64) : Digest :=
  ofBytes ⟨((List.range 8).map fun i => (w >>> (8 * UInt64.ofNat i)).toUInt8).toArray⟩

/-- The digest in lower-case hexadecimal. -/
def hex (d : Digest) : String :=
  String.ofList (d.bytes.flatMap fun b => [Text.hexDigit (b.toNat / 16), Text.hexDigit (b.toNat % 16)])

/-- The first eight bytes as a number, least significant first. -/
def head (d : Digest) : Nat := (d.bytes.take 8).foldr (fun b n => b.toNat + 256 * n) 0

/-- The bucket of the digest among `n`. -/
def bucket (d : Digest) (n : Nat) : Nat := d.head % n

/-- The bucket of the digest among `n`, which must not be zero. -/
def bucketOf (d : Digest) (n : Nat) : Except Fault Nat :=
  if n = 0 then .error .noBuckets else .ok (d.bucket n)

end Digest

end TxnPath
