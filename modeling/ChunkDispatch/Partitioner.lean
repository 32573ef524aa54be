import ChunkDispatch.Key

/-!
# Partitions

The trackers are spread over a fixed number of *partitions*.  A *partitioner* says which
partition a key belongs to: the key, as one number of 64 bits, is multiplied by 2^64 divided by
the golden ratio, and the upper half of the product, which depends on all bits of the key, is
taken modulo the number of partitions.
-/

namespace ChunkDispatch

/-- A number of partitions. -/
structure Partitioner where
  count : Nat
  count_pos : 0 < count

namespace Partitioner

/-- The partitioner over `n` partitions, over one if `n` is zero. -/
def ofCount (n : Nat) : Partitioner :=
  ⟨max n 1, by omega⟩

/-- The two numbers of a key side by side in 64 bits. -/
def packed (k : Key) : UInt64 :=
  k.job.toUInt32.toUInt64 <<< 32 ||| k.chunk.toUInt32.toUInt64

/-- The odd number nearest to 2^64 divided by the golden ratio. -/
def goldenRatio : UInt64 := 0x9E3779B97F4A7C15

/-- The number which spreads a key over the partitions. -/
def spread (k : Key) : Nat :=
  ((packed k * goldenRatio) >>> 32).toNat

/-- The partition a key belongs to. -/
def home (p : Partitioner) (k : Key) : Fin p.count :=
  ⟨spread k % p.count, Nat.mod_lt _ p.count_pos⟩

end Partitioner

end ChunkDispatch
