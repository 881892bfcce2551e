import Dashcore.Sync.Basic
import Dashcore.Sync.DownloadCoordinator

/-!
# Block downloads in height order

The pipeline downloads the blocks that wallets need and hands them out by height: a block
waits until no block below it is still to be downloaded. It remembers for each block which
wallets asked for it.

A block is any type with a hash. Whether a request leaves is an argument: `accepts n` says
whether the channel takes the `n`-th request of a round.
-/

namespace Dashcore

def maxConcurrentBlockDownloads : Nat := 20

/-- In milliseconds. -/
def blockTimeout : Nat := 30000

def blocksPerRequest : Nat := 8

structure BlocksPipeline (Block : Type) where
  coordinator : DownloadCoordinator BlockHash
  /-- The heights that wait for their download. -/
  pendingHeights : Finset Nat
  downloaded : SortedMap Nat Block
  hashToHeight : SortedMap BlockHash Nat
  /-- The wallets that a block was asked for. -/
  hashToWallets : SortedMap BlockHash (Finset WalletId)

namespace BlocksPipeline

variable {Block : Type} (hashOf : Block → BlockHash)

def new : BlocksPipeline Block where
  coordinator := .new ⟨maxConcurrentBlockDownloads, blockTimeout⟩
  pendingHeights := ∅
  downloaded := ∅
  hashToHeight := ∅
  hashToWallets := ∅

variable (p : BlocksPipeline Block)

/-- Add to the wallets that a block is asked for. -/
def addWallets (hash : BlockHash) (wallets : Finset WalletId) : BlocksPipeline Block :=
  { p with hashToWallets :=
      p.hashToWallets.insert hash ((p.hashToWallets.get? hash).getD ∅ ∪ wallets) }

/-- A block is asked for already: it waits for its download or to be taken. -/
def isTracked (hash : BlockHash) : Bool :=
  p.hashToHeight.contains hash || p.hashToWallets.contains hash

/-- Ask for the download of a block. -/
def track (key : FilterMatchKey) : BlocksPipeline Block :=
  { p with
    coordinator := p.coordinator.enqueue [key.hash]
    pendingHeights := insert key.height p.pendingHeights
    hashToHeight := p.hashToHeight.insert key.hash key.height }

def queueBlock (block : FilterMatchKey × Finset WalletId) : BlocksPipeline Block :=
  (if p.isTracked block.1.hash then p else p.track block.1).addWallets block.1.hash block.2

/-- Ask for blocks, each for some wallets. -/
def queue (blocks : List (FilterMatchKey × Finset WalletId)) : BlocksPipeline Block :=
  blocks.foldl queueBlock p

/-- Nothing is waiting, in flight or to be taken. -/
def isComplete : Bool :=
  p.coordinator.isEmpty && p.downloaded.size = 0 && p.pendingHeights = ∅

def hasPendingRequests : Bool := 0 < p.coordinator.availableToSend

/-- Send requests of several blocks each, as long as there are any to send. After a failure the
blocks of the request are neither queued nor in flight. Every round takes a block off the
queue, so its length bounds the rounds. -/
def sendLoop (now generation : Nat) (accepts : Nat → Bool) :
    Nat → Nat → Nat → BlocksPipeline Block → BlocksPipeline Block × Except SyncError Nat
  | 0, _, totalSent, p => (p, .ok totalSent)
  | fuel + 1, round, totalSent, p =>
    if p.coordinator.availableToSend = 0 then (p, .ok totalSent)
    else
      let count := min p.coordinator.availableToSend blocksPerRequest
      let (coordinator, hashes) := p.coordinator.takePending count
      if accepts round then
        sendLoop now generation accepts fuel (round + 1) (totalSent + hashes.length)
          { p with coordinator := coordinator.markSentWithGeneration now hashes generation }
      else ({ p with coordinator }, .error .requestFailed)

/-- Send what may be sent, tagged with the reorg generation. -/
def sendPendingWithGeneration (now generation : Nat)
    (accepts : Nat → Bool) : BlocksPipeline Block × Except SyncError Nat :=
  sendLoop now generation accepts p.coordinator.pending.length 0 0 p

def generationForHash (hash : BlockHash) : Option Nat :=
  p.coordinator.generationFor hash

/-- Take a block in; the result says whether it was in flight. -/
def receiveBlock (block : Block) : BlocksPipeline Block × Bool :=
  match p.coordinator.receive (hashOf block) with
  | (_, false) => (p, false)
  | (coordinator, true) =>
    match p.hashToHeight.get? (hashOf block) with
    | some height =>
      ({ p with
          coordinator
          hashToHeight := p.hashToHeight.erase (hashOf block)
          pendingHeights := p.pendingHeights.erase height
          downloaded := p.downloaded.insert height block }, true)
    | none => ({ p with coordinator }, true)

/-- Take the lowest block, with its height and wallets, unless a lower one is to be downloaded. -/
def takeNextOrderedBlock : BlocksPipeline Block × Option (Block × Nat × Finset WalletId) :=
  match p.downloaded.entries with
  | [] => (p, none)
  | ⟨lowest, block⟩ :: _ =>
    if ∃ height ∈ p.pendingHeights, height < lowest then (p, none)
    else
      ({ p with
          downloaded := p.downloaded.erase lowest
          hashToWallets := p.hashToWallets.erase (hashOf block) },
        some (block, lowest, (p.hashToWallets.get? (hashOf block)).getD ∅))

/-- Add a block from the block store. -/
def addFromStorage (block : Block) (height : Nat)
    (wallets : Finset WalletId) : BlocksPipeline Block :=
  { p.addWallets (hashOf block) wallets with downloaded := p.downloaded.insert height block }

/-- Queue timed-out requests again. -/
def handleTimeouts (now : Nat) : BlocksPipeline Block :=
  { p with coordinator := p.coordinator.checkAndRetryTimeouts now }

/-- Queue everything in flight again. -/
def requeueInFlight : BlocksPipeline Block :=
  { p with coordinator := p.coordinator.requeueInFlight }

end BlocksPipeline

end Dashcore
