import Mathlib.Tactic

/-!
# Lock targets and wait queues

What the lock tables of `flock.rs` and `record_lock.rs` share: the targets they are keyed by, the
shard a target falls in, and the identity of a wait queue.  The 32 shards are kept as one table;
`lockTargetShard` says which of its targets one shard lock covers.
-/

namespace PulseOS.Lock

inductive LockTarget where
  | location (fsId inode : UInt64)
  | fdObject (address : UInt64)
  deriving DecidableEq, Repr

def LOCK_TABLE_SHARDS : Nat := 32

def lockTargetShard (target : LockTarget) : Nat :=
  let hash := match target with
    | .location fsId inode => fsId.toBitVec.rotateLeft 13 ^^^ inode.toBitVec.rotateRight 7
    | .fdObject address => address.toBitVec.rotateRight 4
  hash.toNat % LOCK_TABLE_SHARDS

/-- The identity of an `Arc<WaitQueue>`. -/
abbrev WaitQueue := Nat

end PulseOS.Lock
