import Dashcore.Lib.Runs
import Dashcore.Sml.MessageVerification

/-!
# The block container of the masternode list engine

The engine records the hash of a height and the height of a hash in two maps. Snapshots and
rotation cycles are kept under block hashes, and a reorg drops those without a recorded height
up to the fork. Feeding a block writes both maps and removes nothing from them, so a height that
is fed again with another hash leaves the old hash behind.
-/

namespace Dashcore

open SortedMap

structure BlockContainer where
  blockHashes : SortedMap Nat BlockHash
  blockHeights : SortedMap BlockHash Nat

namespace BlockContainer

variable (c : BlockContainer) (height : Nat) (blockHash : BlockHash)

/-- The zero hash stands for the genesis block. -/
def getHeight : Option Nat :=
  if blockHash = 0 then some 0 else c.blockHeights.get? blockHash

def getHash : Option BlockHash := c.blockHashes.get? height

def feedBlockHeight : BlockContainer where
  blockHeights := c.blockHeights.insert blockHash height
  blockHashes := c.blockHashes.insert height blockHash

def truncateAbove : BlockContainer where
  blockHashes := c.blockHashes.filter fun h _ => h ≤ height
  blockHeights := c.blockHeights.filter fun _ h => h ≤ height

/-- A hash is recorded at a height exactly if the height is recorded for the hash. -/
def Inverse : Prop :=
  ∀ h b, c.getHash h = some b ↔ c.blockHeights.get? b = some h

/-- Neither the height nor the hash is recorded otherwise. -/
def Agrees : Prop :=
  (∀ b, c.getHash height = some b → b = blockHash) ∧
    ∀ h, c.blockHeights.get? blockHash = some h → h = height

variable {c height blockHash}

theorem getHash_truncateAbove {h : Nat} : (c.truncateAbove height).getHash h = some blockHash ↔
    c.getHash h = some blockHash ∧ h ≤ height := by
  simp [getHash, truncateAbove, get?_filter, Option.filter_eq_some_iff]

theorem Inverse.truncateAbove (hc : c.Inverse) : (c.truncateAbove height).Inverse := by
  intro h b
  rw [getHash_truncateAbove, hc h b]
  simp [BlockContainer.truncateAbove, get?_filter, Option.filter_eq_some_iff]

/-- Feeding a block keeps the maps inverse exactly if nothing else is recorded for it. -/
theorem Inverse.feedBlockHeight_iff (hc : c.Inverse) :
    (c.feedBlockHeight height blockHash).Inverse ↔ c.Agrees height blockHash := by
  simp only [Inverse, Agrees, getHash, feedBlockHeight, get?_insert] at hc ⊢
  constructor
  · refine fun hfed => ⟨fun b hb => ?_, fun h hh => ?_⟩
    · have hold := hfed height b
      grind
    · have hold := hfed h blockHash
      grind
  · rintro ⟨hhash, hheight⟩ h b
    split_ifs with hh hb hb
    · simp [hh, hb]
    · subst hh
      simpa [hb] using fun hold => hb (hhash b ((hc height b).mpr hold)).symm
    · subst hb
      simpa [hh] using fun hold => hh (hheight h ((hc h blockHash).mp hold)).symm
    · exact hc h b

end BlockContainer

/-- A diff between two blocks: the list it makes from nothing at a height, and what it makes of
the lists from a base list. Both can fail. -/
structure MnListDiff where
  baseBlockHash : BlockHash
  blockHash : BlockHash
  start : Nat → Option MasternodeList
  extend : MasternodeList → Nat → SortedMap Nat MasternodeList →
    Option (SortedMap Nat MasternodeList)

/-- The engine with its container and the snapshots of quorums. -/
structure AnchoredEngine (Snapshot : Type) extends MasternodeListEngine where
  blockContainer : BlockContainer
  knownSnapshots : SortedMap BlockHash Snapshot

/-- What happens to an engine. Snapshots and cycles come with rotation messages. -/
inductive EngineAction (Snapshot : Type)
  | feedBlockHeight (height : Nat) (blockHash : BlockHash)
  | applyDiff (diff : MnListDiff) (diffEndHeight : Option Nat)
  | truncateAbove (height : Nat)
  | storeSnapshot (blockHash : BlockHash) (snapshot : Snapshot)
  | storeCycle (cycleHash : BlockHash) (quorums : SortedMap Nat QualifiedQuorumEntry)

namespace AnchoredEngine

variable {Snapshot : Type}

def defaultForNetwork (network : Network) : AnchoredEngine Snapshot where
  masternodeLists := ∅
  rotatedQuorumsPerCycle := ∅
  network
  blockContainer := ⟨∅, ∅⟩
  knownSnapshots := ∅

variable (knownGenesis : Network → Option BlockHash) (e : AnchoredEngine Snapshot)

/-- The lists after a diff, and the height that is recorded for its block. From the genesis
block on, only a height that was given is recorded. -/
def diffOutcome (diff : MnListDiff) (diffEndHeight : Option Nat) :
    Option (SortedMap Nat MasternodeList × Option Nat) :=
  let endHeight := diffEndHeight.or (e.blockContainer.getHeight diff.blockHash)
  if ((knownGenesis e.network).or (e.blockContainer.getHash 0)).any fun genesis =>
      diff.baseBlockHash = genesis || diff.baseBlockHash = 0 then do
    let height ← endHeight
    some (e.masternodeLists.insert height (← diff.start height), diffEndHeight)
  else do
    let base ← e.masternodeLists.get? (← e.blockContainer.getHeight diff.baseBlockHash)
    let height ← endHeight
    some (← diff.extend base height e.masternodeLists, some height)

/-- A diff that fails changes nothing. -/
def applyDiff (diff : MnListDiff) (diffEndHeight : Option Nat) : AnchoredEngine Snapshot :=
  match e.diffOutcome knownGenesis diff diffEndHeight with
  | none => e
  | some (masternodeLists, none) => { e with masternodeLists }
  | some (masternodeLists, some height) =>
    { e with
      masternodeLists
      blockContainer := e.blockContainer.feedBlockHeight height diff.blockHash }

def truncateAbove (height : Nat) : AnchoredEngine Snapshot :=
  let keeps hash := (e.blockContainer.getHeight hash).any (· ≤ height)
  { e with
    masternodeLists := e.masternodeLists.filter fun h _ => h ≤ height
    knownSnapshots := e.knownSnapshots.filter fun hash _ => keeps hash
    rotatedQuorumsPerCycle := e.rotatedQuorumsPerCycle.filter fun hash _ => keeps hash
    blockContainer := e.blockContainer.truncateAbove height }

def step : EngineAction Snapshot → AnchoredEngine Snapshot
  | .feedBlockHeight height blockHash =>
    { e with blockContainer := e.blockContainer.feedBlockHeight height blockHash }
  | .applyDiff diff diffEndHeight => e.applyDiff knownGenesis diff diffEndHeight
  | .truncateAbove height => e.truncateAbove height
  | .storeSnapshot blockHash snapshot =>
    { e with knownSnapshots := e.knownSnapshots.insert blockHash snapshot }
  | .storeCycle cycleHash quorums =>
    { e with rotatedQuorumsPerCycle := e.rotatedQuorumsPerCycle.insert cycleHash quorums }

/-- A snapshot or a rotation cycle is kept under a hash. -/
def Keyed (hash : BlockHash) : Prop :=
  e.knownSnapshots.contains hash = true ∨ e.rotatedQuorumsPerCycle.contains hash = true

/-- The maps of the container are inverse, and a truncation leaves only what is kept under a
hash that is recorded at its height, up to that of the truncation. -/
def Forgets : Prop :=
  e.blockContainer.Inverse ∧ ∀ height hash, (e.truncateAbove height).Keyed hash →
    ∃ h ≤ height, (e.truncateAbove height).blockContainer.getHeight hash = some h ∧
      (e.truncateAbove height).blockContainer.getHash h = some hash

/-- The condition on a step: a block is fed only as it is recorded, if it is, and nothing is kept
under the zero hash, unless that is recorded at height 0. -/
def Regular : EngineAction Snapshot → Prop
  | .feedBlockHeight height blockHash => e.blockContainer.Agrees height blockHash
  | .applyDiff diff diffEndHeight =>
    ∀ height ∈ (e.diffOutcome knownGenesis diff diffEndHeight).bind Prod.snd,
      e.blockContainer.Agrees height diff.blockHash
  | .truncateAbove _ => True
  | .storeSnapshot hash _ | .storeCycle hash _ => hash = 0 → e.blockContainer.getHash 0 = some 0

variable {knownGenesis e} {e' : AnchoredEngine Snapshot} {height : Nat} {blockHash : BlockHash}

theorem keyed_truncateAbove : (e.truncateAbove height).Keyed blockHash ↔
    e.Keyed blockHash ∧ ∃ h, e.blockContainer.getHeight blockHash = some h ∧ h ≤ height := by
  simp only [Keyed, truncateAbove, contains_filter_key, ← or_and_right,
    Option.any_eq_true, decide_eq_true_eq]

/-- Only the zero hash can be kept without being recorded. -/
theorem forgets_iff : e.Forgets ↔
    e.blockContainer.Inverse ∧ (e.Keyed 0 → e.blockContainer.getHash 0 = some 0) := by
  refine and_congr_right fun hinverse => ⟨fun hkept hzero => ?_, fun hzero height hash hkeyed => ?_⟩
  · obtain ⟨h, hle, -, hhash⟩ := hkept 0 0 (keyed_truncateAbove.mpr ⟨hzero, 0, if_pos rfl, le_rfl⟩)
    obtain rfl := Nat.le_zero.mp hle
    exact (BlockContainer.getHash_truncateAbove.mp hhash).1
  · obtain ⟨hkeyed, h, hheight, hle⟩ := keyed_truncateAbove.mp hkeyed
    have hrec : (e.truncateAbove height).blockContainer.getHash h = some hash := by
      refine BlockContainer.getHash_truncateAbove.mpr ⟨?_, hle⟩
      unfold BlockContainer.getHeight at hheight
      split_ifs at hheight with hgenesis
      · obtain rfl := Option.some.inj hheight
        exact hgenesis ▸ hzero (hgenesis ▸ hkeyed)
      · exact (hinverse h hash).mpr hheight
    refine ⟨h, hle, ?_, hrec⟩
    unfold BlockContainer.getHeight at hheight ⊢
    split_ifs at hheight ⊢
    · exact hheight
    · exact (hinverse.truncateAbove h hash).mp hrec

theorem Forgets.feed_iff (h : e.Forgets) (hkeyed : e'.Keyed 0 ↔ e.Keyed 0)
    (hfed : e'.blockContainer = e.blockContainer.feedBlockHeight height blockHash) :
    e'.Forgets ↔ e.blockContainer.Agrees height blockHash := by
  obtain ⟨hinverse, hzero⟩ := forgets_iff.mp h
  rw [forgets_iff, hkeyed, hfed, hinverse.feedBlockHeight_iff, and_iff_left_iff_imp]
  intro hagrees hkept
  rw [BlockContainer.getHash, BlockContainer.feedBlockHeight, get?_insert]
  split_ifs with hheight
  · rw [hagrees.1 0 (hheight ▸ hzero hkept)]
  · exact hzero hkept

theorem Forgets.keep_iff (h : e.Forgets) (hsame : e'.blockContainer = e.blockContainer)
    (hkeyed : e'.Keyed 0 ↔ 0 = blockHash ∨ e.Keyed 0) :
    e'.Forgets ↔ (blockHash = 0 → e.blockContainer.getHash 0 = some 0) := by
  obtain ⟨hinverse, hzero⟩ := forgets_iff.mp h
  rw [forgets_iff, hkeyed, hsame, or_imp, and_iff_right hinverse, and_iff_left hzero, eq_comm]

/-- A step keeps an engine forgetful exactly if it is regular. -/
theorem Forgets.step_iff (h : e.Forgets) (a : EngineAction Snapshot) :
    (e.step knownGenesis a).Forgets ↔ e.Regular knownGenesis a := by
  cases a with
  | feedBlockHeight height blockHash => exact h.feed_iff Iff.rfl rfl
  | applyDiff diff diffEndHeight =>
    simp only [step, applyDiff, Regular]
    split
    · simp [*]
    · exact iff_of_true h (by simp [*])
    · refine (h.feed_iff ?_ rfl).trans (by simp [*])
      exact Iff.rfl
  | truncateAbove height =>
    obtain ⟨hinverse, hzero⟩ := forgets_iff.mp h
    refine iff_of_true (forgets_iff.mpr ⟨hinverse.truncateAbove, fun hkeyed => ?_⟩) trivial
    exact BlockContainer.getHash_truncateAbove.mpr
      ⟨hzero (keyed_truncateAbove.mp hkeyed).1, Nat.zero_le _⟩
  | storeSnapshot hash snapshot =>
    exact h.keep_iff rfl (by simp only [Keyed, step, contains_insert, or_assoc])
  | storeCycle hash quorums =>
    exact h.keep_iff rfl (by simp only [Keyed, step, contains_insert, or_left_comm])

/-- The maps are inverse and reorgs leave nothing of an abandoned branch, in every state of a
run, exactly if all its steps are regular. -/
theorem run_forgets_iff (knownGenesis : Network → Option BlockHash) (network : Network)
    (actions : List (EngineAction Snapshot)) :
    (∀ k, (Runs.run (step knownGenesis) (defaultForNetwork network) (actions.take k)).Forgets) ↔
      Runs.Along (step knownGenesis) (Regular knownGenesis) (defaultForNetwork network) actions :=
  Runs.forall_take_iff_along (fun _ h => h) (fun _ a h => (h.step_iff a).mpr)
    (fun _ a h => (h.step_iff a).mp) (forgets_iff.mpr ⟨by simp [BlockContainer.Inverse, defaultForNetwork,
      BlockContainer.getHash], by simp [Keyed, defaultForNetwork, contains]⟩)

/-- Height 5 is fed with hash 1 and, after a reorg, with hash 2. The snapshot of hash 1 is kept. -/
theorem abandoned_snapshot_kept :
    let e : AnchoredEngine Unit := Runs.run (step fun _ => none) (defaultForNetwork .regtest)
      [.feedBlockHeight 5 1, .storeSnapshot 1 (), .feedBlockHeight 5 2, .truncateAbove 5]
    e.Keyed 1 ∧ e.blockContainer.getHeight 1 = some 5 ∧ e.blockContainer.getHash 5 = some 2 ∧
      ¬ e.Forgets := by
  refine ⟨.inl (by decide +kernel), by decide +kernel, by decide +kernel, fun hforgets => ?_⟩
  have hback := (hforgets.1 5 1).mpr (by decide +kernel)
  revert hback
  decide +kernel

end AnchoredEngine

end Dashcore
