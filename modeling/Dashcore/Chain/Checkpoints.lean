import Dashcore.Primitives
import Dashcore.Lib.SortedMap

/-!
# Checkpoints

Known blocks at fixed heights. They cut the header download into segments and stop
reorganizations below the last of them.
-/

namespace Dashcore

/-- A known valid block. -/
structure Checkpoint where
  height : Nat
  blockHash : BlockHash
  deriving DecidableEq

/-- Checkpoints by height, with their heights in order. -/
structure CheckpointManager where
  checkpoints : SortedMap Nat Checkpoint
  sortedHeights : List Nat
  deriving DecidableEq

namespace CheckpointManager

/-- Index a list of checkpoints; of two at one height the later one counts. -/
def new (checkpoints : List Checkpoint) : CheckpointManager where
  checkpoints := checkpoints.foldl (fun m checkpoint => m.insert checkpoint.height checkpoint) ∅
  sortedHeights := (checkpoints.map Checkpoint.height).insertionSort (· ≤ ·)

variable (cm : CheckpointManager)

/-- The checkpoint at a height. -/
def getCheckpoint (height : Nat) : Option Checkpoint :=
  cm.checkpoints.get? height

/-- The checkpoint at the greatest height. -/
def lastCheckpoint : Option Checkpoint :=
  cm.sortedHeights.getLast?.bind cm.checkpoints.get?

/-- Whether a fork at this height is at or below the last checkpoint. -/
def shouldRejectFork (forkHeight : Nat) : Bool :=
  match cm.lastCheckpoint with
  | some lastCheckpoint => forkHeight ≤ lastCheckpoint.height
  | none => false

end CheckpointManager

end Dashcore
