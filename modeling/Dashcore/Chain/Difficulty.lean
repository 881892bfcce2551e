import Mathlib.Data.List.Sort
import Dashcore.Chain.Work

/-!
# Difficulty rules

The rules a buffered fork is validated against: the Dark Gravity Wave v3 retarget, the
minimum-difficulty exception of the test networks, and the median time of past blocks.
-/

namespace Dashcore

/-- Consensus parameters of a network. -/
structure Params where
  network : Network
  /-- Seconds between blocks. -/
  powTargetSpacing : Nat
  allowMinDifficultyBlocks : Bool
  noPowRetargeting : Bool
  deriving DecidableEq

/-- The parameters of each network. -/
def Params.new (network : Network) : Params where
  network := network
  powTargetSpacing := 10 * 60
  allowMinDifficultyBlocks := match network with
    | .mainnet | .devnet => false
    | .testnet | .regtest => true
  noPowRetargeting := match network with
    | .mainnet | .testnet | .devnet => false
    | .regtest => true

/-- The greatest target of a network. -/
def powLimitTarget : Network → Target
  | .mainnet | .testnet => BitVec.ofNat 256 (2 ^ 228 - 1)
  | .regtest | .devnet => BitVec.ofNat 256 (2 ^ 255 - 1)

/-- Blocks the retarget averages over. -/
def dgwPastBlocks : Nat := 24

/-- The running average of the window's targets, newest first. -/
def dgwAverage (window : List Header) : U256 :=
  (window.reverse.zipIdx 1).foldl
    (fun avg (header, count) =>
      if count = 1 then header.target
      else (avg * BitVec.ofNat 256 count + header.target) / BitVec.ofNat 256 (count + 1)) 0

/-- The compact target the block after `previousHeaders` must have. -/
def nextWorkRequiredDgwV3 (previousHeaders : List Header) (tipHeight : Nat) (params : Params) :
    Nat :=
  let powLimit := powLimitTarget params.network
  let powLimitBits := powLimit.toCompactLossy
  if tipHeight < dgwPastBlocks then powLimitBits
  else if params.noPowRetargeting then powLimitBits
  else if previousHeaders.length < dgwPastBlocks then powLimitBits
  else
    let window := previousHeaders.drop (previousHeaders.length - dgwPastBlocks)
    match window.getLast?, window.head? with
    | some last, some first =>
      -- a window whose times run backwards counts as no time at all
      let actual := last.time - first.time
      let targetTimespan := dgwPastBlocks * params.powTargetSpacing
      let clamped := min (max actual (targetTimespan / 3)) (targetTimespan * 3)
      let scaled := dgwAverage window * BitVec.ofNat 256 clamped
      let new := scaled / BitVec.ofNat 256 targetTimespan
      (if powLimit < new then powLimit else new).toCompactLossy
    | _, _ => powLimitBits

/-- The compact target a late block may have instead on a network that allows it. -/
def minDifficultyBits (params : Params) (prevTipTime prevTipBits candidateTime : Nat) :
    Option Nat :=
  if params.allowMinDifficultyBlocks then
    let powLimit := powLimitTarget params.network
    let gap := candidateTime - prevTipTime
    if 2 * 60 * 60 < gap then some powLimit.toCompactLossy
    else if params.powTargetSpacing * 4 < gap then
      let prevTarget := Target.fromCompact prevTipBits
      let result :=
        if powLimit / 10 ≤ prevTarget then powLimit else prevTarget * 10
      some result.toCompactLossy
    else none
  else none

/-- Blocks the median time is taken over. -/
def mtpWindow : Nat := 11

/-- The median of the last timestamps. -/
def medianTimePast (history : List Header) : Nat :=
  let window := history.drop (history.length - mtpWindow)
  let times := (window.map Header.time).insertionSort (· ≤ ·)
  (times[times.length / 2]?).getD 0

end Dashcore
