import Dashcore.Sml.Quorum

/-!
# Verification of ChainLocks and InstantSend locks

The masternode list engine holds masternode lists by height and rotated quorums by
cycle. A ChainLock is checked against the lists around the height eight blocks below
it, an InstantSend lock against the rotated quorums of its cycle. Both checks end in
one BLS verification of a sign id under one quorum.
-/

namespace Dashcore

open SortedMap

/-- The state of one masternode list that quorum selection reads. -/
structure MasternodeList where
  blockHash : BlockHash
  knownHeight : Nat
  quorums : SortedMap LLMQType (SortedMap QuorumHash QualifiedQuorumEntry)
  deriving DecidableEq

/-- The state of the engine that message verification reads. -/
structure MasternodeListEngine where
  masternodeLists : SortedMap Nat MasternodeList
  rotatedQuorumsPerCycle : SortedMap BlockHash (SortedMap Nat QualifiedQuorumEntry)
  network : Network
  deriving DecidableEq

/-- A quorum's signature that a block is final. -/
structure ChainLock where
  blockHeight : Nat
  blockHash : BlockHash
  signature : BLSSignature
  deriving DecidableEq

/-- A quorum's signature that a transaction's inputs are locked to it. -/
structure InstantLock where
  version : Nat
  inputs : List OutPoint
  txid : Txid
  cyclehash : CycleHash
  signature : BLSSignature
  deriving DecidableEq

/-! ### Signing requests -/

section

variable (crypto : Crypto)

/-- The id of the signing request for a ChainLock at this height. -/
def ChainLock.requestId (lock : ChainLock) : Hash256 :=
  crypto.sha256d
    (varInt 5 ++ asciiBytes ['c', 'l', 's', 'i', 'g'] ++ leBytes 4 lock.blockHeight)

/-- The digest a quorum signs to lock the block. -/
def ChainLock.signId (lock : ChainLock) (quorumType : LLMQType)
    (quorumHash : QuorumHash) (precomputedRequestId : Option Hash256) : Hash256 :=
  crypto.sha256d
    (leBytes 1 quorumType.toU8 ++ toByteArray quorumHash ++
      toByteArray (precomputedRequestId.getD (lock.requestId crypto)) ++
      toByteArray lock.blockHash)

/-- The id of the signing request for an InstantSend lock on these inputs. -/
def InstantLock.requestId (lock : InstantLock) : Hash256 :=
  crypto.sha256d
    (varInt 6 ++ asciiBytes ['i', 's', 'l', 'o', 'c', 'k'] ++ varInt lock.inputs.length ++
      lock.inputs.flatMap fun input => toByteArray input.txid ++ leBytes 4 input.vout)

/-- The digest a quorum signs to lock the inputs to the transaction. -/
def InstantLock.signId (lock : InstantLock) (quorumType : LLMQType)
    (quorumHash : QuorumHash) (precomputedRequestId : Option Hash256) : Hash256 :=
  crypto.sha256d
    (leBytes 1 quorumType.toU8 ++ toByteArray quorumHash ++
      toByteArray (precomputedRequestId.getD (lock.requestId crypto)) ++
      toByteArray lock.txid)

end

namespace MasternodeListEngine

variable (crypto : Crypto) (engine : MasternodeListEngine)

/-! ### ChainLocks -/

/-- The list at or just below a height, and the list just above it. -/
def masternodeListsAroundHeight (coreBlockHeight : Nat) :
    Option MasternodeList × Option MasternodeList :=
  (engine.masternodeLists.lastLE coreBlockHeight,
    engine.masternodeLists.firstGE (coreBlockHeight + 1))

section

variable (lock : ChainLock)

/-- Check a ChainLock against the responsible quorum of one list. -/
def verifyChainLockWithMasternodeList (list : MasternodeList)
    (requestId : Hash256) : Except MessageVerificationError Unit :=
  match list.quorums.get? engine.network.chainLocksType with
  | none => .error (.masternodeListHasNoQuorums list.knownHeight)
  | some quorumsOfType =>
    match quorumsOfType.values.argmin
        (fun quorum => QuorumOrderingHash.create crypto quorum.quorumEntry requestId) with
    | none => .error (.masternodeListHasNoQuorums list.knownHeight)
    | some quorum =>
      quorum.verifyMessageDigest crypto
        (lock.signId crypto quorum.quorumEntry.llmqType quorum.quorumEntry.quorumHash
          (some requestId))
        lock.signature

/-- Check a ChainLock against the lists around the signing height. -/
def verifyChainLock : Except MessageVerificationError Unit :=
  match engine.masternodeListsAroundHeight (lock.blockHeight - 8) with
  | (none, none) => .error .noMasternodeLists
  | (before, after) =>
    let requestId := lock.requestId crypto
    match before.map fun list =>
        engine.verifyChainLockWithMasternodeList crypto lock list requestId with
    | some (.ok ()) => .ok ()
    | initial =>
      match after with
      | some after =>
        -- the second check only runs if the quorums changed in between
        let doCheck : Bool := match before with
          | some before =>
            before.quorums.get? engine.network.chainLocksType ≠
              after.quorums.get? engine.network.chainLocksType
          | none => true
        if doCheck then engine.verifyChainLockWithMasternodeList crypto lock after requestId
        else match initial with
          | some (.error initialError) => .error initialError
          | _ => .ok ()
      | none => .ok ()

/-! ### InstantSend locks -/

section

variable (lock : InstantLock)

/-- The rotated quorums of the lock's cycle. -/
def isLockPotentialQuorums :
    Except MessageVerificationError (SortedMap Nat QualifiedQuorumEntry) :=
  match engine.rotatedQuorumsPerCycle.get? lock.cyclehash with
  | none => .error (.cycleHashNotPresent lock.cyclehash)
  | some quorums =>
    if quorums.entries.isEmpty then .error (.cycleHashEmpty lock.cyclehash) else .ok quorums

/-- The quorum of the cycle that the request id selects. -/
def isLockQuorum :
    Except MessageVerificationError (QualifiedQuorumEntry × Hash256 × Nat) :=
  match engine.isLockPotentialQuorums lock with
  | .error e => .error e
  | .ok quorums =>
    let requestId := lock.requestId crypto
    let selectionHash64 := fromLeBytes ((toByteArray requestId).drop 24)
    let n := Nat.log2 engine.network.isdLlmqType.activeQuorumCount
    let quorumIndexMask := 2 ^ n - 1
    let quorumIndex := quorumIndexMask &&& (selectionHash64 >>> (64 - n - 1))
    match quorums.get? (quorumIndex % 2 ^ 16) with
    | none => .error (.quorumIndexNotFound (quorumIndex % 2 ^ 16) lock.cyclehash)
    | some quorum => .ok (quorum, requestId, quorumIndex)

/-- Check an InstantSend lock against the selected quorum of its cycle. -/
def verifyIsLock : Except MessageVerificationError Unit :=
  match engine.isLockQuorum crypto lock with
  | .error e => .error e
  | .ok (quorum, requestId, _) =>
    quorum.verifyMessageDigest crypto
      (lock.signId crypto quorum.quorumEntry.llmqType quorum.quorumEntry.quorumHash
        (some requestId))
      lock.signature

end

/-! ### What acceptance of a ChainLock should mean -/

/-- `quorum` is of the ChainLock type and has the least ordering hash in the list. -/
def Responsible (list : MasternodeList) (requestId : Hash256) (quorum : QualifiedQuorumEntry) :
    Prop :=
  ∃ quorums, list.quorums.get? engine.network.chainLocksType = some quorums ∧
    quorum ∈ quorums.values ∧ ∀ other ∈ quorums.values,
      QuorumOrderingHash.create crypto quorum.quorumEntry requestId ≤
        QuorumOrderingHash.create crypto other.quorumEntry requestId

/-- The lock's sign id verifies under the responsible quorum of the list. -/
def SignedUnder (list : MasternodeList) : Prop :=
  ∃ quorum, engine.Responsible crypto list (lock.requestId crypto) quorum ∧
    quorum.verifyMessageDigest crypto
      (lock.signId crypto quorum.quorumEntry.llmqType quorum.quorumEntry.quorumHash none)
      lock.signature = .ok ()

/-- `list` is the stored list at the greatest height at or below `height`. -/
def NearestAtOrBelow (height : Nat) (list : MasternodeList) : Prop :=
  ∃ h, engine.masternodeLists.get? h = some list ∧ h ≤ height ∧
    ∀ h' ≤ height, engine.masternodeLists.contains h' = true → h' ≤ h

/-- `list` is the stored list at the least height above `height`. -/
def NearestAbove (height : Nat) (list : MasternodeList) : Prop :=
  ∃ h, engine.masternodeLists.get? h = some list ∧ height < h ∧
    ∀ h', height < h' → engine.masternodeLists.contains h' = true → h ≤ h'

/-- A ChainLock is accepted only if it is signed under one of the two nearest lists, and
is rejected with an error otherwise. -/
def ChainLockSound : Prop :=
  let signed := ∃ list, (engine.NearestAtOrBelow (lock.blockHeight - 8) list ∨
    engine.NearestAbove (lock.blockHeight - 8) list) ∧ engine.SignedUnder crypto lock list
  (engine.verifyChainLock crypto lock = .ok () → signed) ∧
    (¬ signed → ∃ e, engine.verifyChainLock crypto lock = .error e)

end

variable {crypto engine} {list : MasternodeList} {height : Nat}

theorem lists_fst_eq_some_iff :
    (engine.masternodeListsAroundHeight height).1 = some list ↔
      engine.NearestAtOrBelow height list :=
  lastLE_eq_some_iff

theorem lists_snd_eq_some_iff :
    (engine.masternodeListsAroundHeight height).2 = some list ↔
      engine.NearestAbove height list :=
  firstGE_eq_some_iff

variable {lock : ChainLock}

/-- A successful check against one list is a signature under its responsible quorum. -/
theorem signedUnder_of_verify_ok
    (h : engine.verifyChainLockWithMasternodeList crypto lock list (lock.requestId crypto) =
      .ok ()) : engine.SignedUnder crypto lock list := by
  unfold verifyChainLockWithMasternodeList at h
  split at h
  · cases h
  · next quorums hquorums =>
    split at h
    · cases h
    · next quorum hmin =>
      refine ⟨quorum, ⟨quorums, hquorums, ?_, fun other hother => ?_⟩, h⟩
      · exact List.argmin_mem hmin
      · exact List.le_of_mem_argmin hother hmin

/-- Whether the check against a list succeeds depends only on its ChainLock quorums. -/
theorem verify_ok_congr {list list' : MasternodeList} {requestId : Hash256}
    (hquorums : list.quorums.get? engine.network.chainLocksType =
      list'.quorums.get? engine.network.chainLocksType) :
    engine.verifyChainLockWithMasternodeList crypto lock list requestId = .ok () ↔
      engine.verifyChainLockWithMasternodeList crypto lock list' requestId = .ok () := by
  unfold verifyChainLockWithMasternodeList
  rw [hquorums]
  split
  · simp
  · split <;> simp

/-- A ChainLock is accepted when one of the two lists verifies it, and also when the
list at or below the height does not verify it but no later list is known. -/
theorem verifyChainLock_eq_ok_iff :
    engine.verifyChainLock crypto lock = .ok () ↔
      let lists := engine.masternodeListsAroundHeight (lock.blockHeight - 8)
      let verifies := fun list =>
        engine.verifyChainLockWithMasternodeList crypto lock list (lock.requestId crypto) = .ok ()
      (∃ list, lists.1 = some list ∧ verifies list) ∨
        (∃ list, lists.2 = some list ∧ verifies list) ∨
        (lists.1.isSome ∧ lists.2 = none) := by
  unfold verifyChainLock
  rcases engine.masternodeListsAroundHeight (lock.blockHeight - 8) with
    ⟨_ | before, _ | after⟩
  · simp
  · simp
  · simp only [Option.map_some]
    split <;> simp_all
  · simp only [Option.map_some]
    split
    · next h => simp [Option.some.inj h]
    · next hfail =>
      have hbefore : engine.verifyChainLockWithMasternodeList crypto lock before
          (lock.requestId crypto) ≠ .ok () := fun h => hfail (by rw [h])
      by_cases hsame : before.quorums.get? engine.network.chainLocksType =
          after.quorums.get? engine.network.chainLocksType
      · -- unchanged quorums: the second check is skipped, and would fail like the first
        have hafter := mt (verify_ok_congr hsame).mpr hbefore
        cases hres : engine.verifyChainLockWithMasternodeList crypto lock before
            (lock.requestId crypto) with
        | ok u => exact absurd hres hbefore
        | error e => simp [hsame, hres, hafter]
      · simp [hsame, hbefore]

/-- A ChainLock check is sound exactly when a later list is known, or no list at or below
the signing height is, or the nearest list at or below it does verify the lock. -/
theorem chainLockSound_iff (crypto : Crypto) (engine : MasternodeListEngine)
    (lock : ChainLock) :
    engine.ChainLockSound crypto lock ↔
      (∃ list, engine.NearestAbove (lock.blockHeight - 8) list) ∨
      (¬ ∃ list, engine.NearestAtOrBelow (lock.blockHeight - 8) list) ∨
      (∃ list, engine.NearestAtOrBelow (lock.blockHeight - 8) list ∧
        engine.SignedUnder crypto lock list) := by
  constructor
  · rintro ⟨hsound, -⟩
    by_contra hnot
    simp only [not_or, not_not] at hnot
    obtain ⟨hnoAbove, ⟨before, hbefore⟩, hunsigned⟩ := hnot
    have hnone : (engine.masternodeListsAroundHeight (lock.blockHeight - 8)).2 = none :=
      Option.eq_none_iff_forall_ne_some.mpr fun list hlist =>
        hnoAbove ⟨list, lists_snd_eq_some_iff.mp hlist⟩
    have hok : engine.verifyChainLock crypto lock = .ok () :=
      verifyChainLock_eq_ok_iff.mpr
        (.inr (.inr ⟨by rw [lists_fst_eq_some_iff.mpr hbefore]; rfl, hnone⟩))
    obtain ⟨list, hlist | hlist, hsigned⟩ := hsound hok
    · exact hunsigned ⟨list, hlist, hsigned⟩
    · exact hnoAbove ⟨list, hlist⟩
  · intro hcases
    have hsigned (hok : engine.verifyChainLock crypto lock = .ok ()) :
        ∃ list, (engine.NearestAtOrBelow (lock.blockHeight - 8) list ∨
          engine.NearestAbove (lock.blockHeight - 8) list) ∧
          engine.SignedUnder crypto lock list := by
      rcases verifyChainLock_eq_ok_iff.mp hok with
        ⟨list, hlist, hverifies⟩ | ⟨list, hlist, hverifies⟩ | ⟨hsome, hnone⟩
      · exact ⟨list, .inl (lists_fst_eq_some_iff.mp hlist), signedUnder_of_verify_ok hverifies⟩
      · exact ⟨list, .inr (lists_snd_eq_some_iff.mp hlist), signedUnder_of_verify_ok hverifies⟩
      · -- the branch that accepts without a signature: only the last case is left
        obtain ⟨before, hbefore⟩ := Option.isSome_iff_exists.mp hsome
        rcases hcases with ⟨above, habove⟩ | hnoBelow | ⟨list, hlist, hsigned⟩
        · rw [lists_snd_eq_some_iff.mpr habove] at hnone
          cases hnone
        · exact absurd ⟨before, lists_fst_eq_some_iff.mp hbefore⟩ hnoBelow
        · exact ⟨list, .inl hlist, hsigned⟩
    refine ⟨hsigned, fun hunsigned => ?_⟩
    cases hres : engine.verifyChainLock crypto lock with
    | ok u => exact absurd (hsigned hres) hunsigned
    | error e => exact ⟨e, rfl⟩

/-! ### A forged ChainLock at the tip -/

/-- A signature scheme that rejects every signature. -/
def rejectAll : Crypto where
  sha256d _ := 0
  PublicKey := Unit
  Signature := Unit
  publicKeyTryFrom _ := .ok ()
  signatureFromCompressed _ := some ()
  verify _ _ _ := .error "Invalid signature"

/-- A ChainLock quorum of mainnet. -/
def tipQuorum : QualifiedQuorumEntry where
  quorumEntry :=
    { version := 1, llmqType := .llmqtype400_60, quorumHash := 7, quorumIndex := none
      signers := [], validMembers := [], quorumPublicKey := .replicate 48 1
      quorumVvecHash := 0, thresholdSig := .replicate 96 0
      allCommitmentAggregatedSignature := .replicate 96 0 }
  verified := .verified
  commitmentHash := 0
  entryHash := 0
  verifyingChainLockSignature := none

/-- A mainnet engine whose newest list is at height 100. -/
def tipEngine : MasternodeListEngine where
  masternodeLists := empty.insert 100
    { blockHash := 1, knownHeight := 100
      quorums := empty.insert .llmqtype400_60 (empty.insert 7 tipQuorum) }
  rotatedQuorumsPerCycle := ∅
  network := .mainnet

/-- A ChainLock for a block above the newest list, with an arbitrary signature. -/
def forgedLock : ChainLock where
  blockHeight := 110
  blockHash := 5
  signature := .replicate 96 9

/-- The lock is accepted although its signature fails under the only quorum the engine
knows. -/
theorem forged_chainLock_accepted :
    tipEngine.verifyChainLock rejectAll forgedLock = .ok () ∧
      ¬ tipEngine.ChainLockSound rejectAll forgedLock := by
  have hok : tipEngine.verifyChainLock rejectAll forgedLock = .ok () := by decide
  refine ⟨hok, fun hsound => ?_⟩
  obtain ⟨list, -, quorum, -, hverify⟩ := hsound.1 hok
  simp [QualifiedQuorumEntry.verifyMessageDigest, rejectAll] at hverify

end MasternodeListEngine

end Dashcore
