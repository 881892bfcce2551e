import Dashcore.Chain.Difficulty
import Dashcore.Sync.Reorg

/-!
# The staged fork buffer

Branches that peers build beside the active chain wait here until one of them outweighs
it. Every header of a branch is validated when it enters: it follows its predecessor, meets
its target, is later than the median time, and has the difficulty that is due.

The iteration order of the hash map is a parameter `order` that ranks its keys.
-/

namespace Dashcore

/-- The key of a buffered branch. -/
structure BranchKey where
  peer : SocketAddr
  tip : BlockHash
  deriving DecidableEq

instance : LinearOrder BranchKey :=
  LinearOrder.lift' (fun k : BranchKey => toLex (k.peer, k.tip)) fun a b h => by
    cases a
    cases b
    simpa using h

/-- A validated branch. -/
structure BufferedBranch where
  headers : List HashedBlockHeader
  ancestorHeight : Nat
  totalWork : ChainWork
  arrivedAt : Nat
  nonempty : headers ≠ []

section

variable (branch : BufferedBranch)

/-- The branch as a candidate for promotion. -/
def BufferedBranch.toCandidate : ForkCandidate where
  ancestorHeight := branch.ancestorHeight
  headers := branch.headers
  totalWork := branch.totalWork
  nonempty := branch.nonempty

@[simp] theorem BufferedBranch.toCandidate_ancestorHeight :
    branch.toCandidate.ancestorHeight = branch.ancestorHeight := rfl

@[simp] theorem BufferedBranch.toCandidate_headers :
    branch.toCandidate.headers = branch.headers := rfl

end

/-- Branches by peer and tip hash. -/
structure ForkBuffer where
  branches : SortedMap BranchKey BufferedBranch
  params : Params

/-- Most headers a branch may have. -/
def maxForkHeadersPerPeer : Nat := 4096

/-- Most branches a peer may have. -/
def maxBranchesPerPeer : Nat := 16

/-- How an extension left its branch. -/
structure BranchUpdate where
  newTip : BlockHash
  newHeight : Nat
  newWork : ChainWork

namespace ForkBuffer

variable (blockHash : Header → BlockHash)

def new (params : Params) : ForkBuffer := { branches := ∅, params }

/-- Whether a header has the difficulty that is due after `prev`. -/
def bitsOk (params : Params) (rollingHistory : List Header) (prev header : Header)
    (height : Nat) : Bool :=
  header.bits = nextWorkRequiredDgwV3 rollingHistory (height - 1) params ||
    minDifficultyBits params prev.time prev.bits header.time = some header.bits

/-- Validate headers that continue `prev`. The rolling history grows with each of them. -/
def validateChain (params : Params) :
    List Header → Header → Nat → List Header → Except SyncError (List HashedBlockHeader)
  | [], _, _, _ => .ok []
  | header :: rest, prev, prevHeight, rollingHistory =>
    let height := prevHeight + 1
    let hashed := HashedBlockHeader.ofHeader blockHash header
    let mtp := medianTimePast rollingHistory
    if header.prevBlockhash ≠ blockHash prev then
      .error (.forkChainBreak (blockHash prev) header.prevBlockhash)
    else if header.target.isMetBy hashed.hash = false then .error (.forkProofOfWork height)
    else if header.time ≤ mtp then .error (.forkMedianTime height header.time mtp)
    else if bitsOk params rollingHistory prev header height then
      match validateChain params rest header height (rollingHistory ++ [header]) with
      | .error e => .error e
      | .ok validated => .ok (hashed :: validated)
    else
      .error (.forkBits height header.bits
        (nextWorkRequiredDgwV3 rollingHistory (height - 1) params))

variable (b : ForkBuffer)

section

variable (peer : SocketAddr)

/-- Put a validated branch under the hash of its last header. -/
def put (branch : BufferedBranch) : ForkBuffer :=
  { b with branches := b.branches.insert ⟨peer, branch.toCandidate.tipHash⟩ branch }

/-- Validate and buffer a new branch of a peer. -/
def ingest (headers : List Header) (ancestorHeight : Nat)
    (ancestorHeader : Header) (history : List Header) (now : Nat) : Except SyncError ForkBuffer :=
  if headers.isEmpty then .ok b
  else if maxForkHeadersPerPeer < headers.length then .error (.forkTooLarge headers.length)
  else if maxBranchesPerPeer ≤ (b.branches.keys.filter fun k => k.peer = peer).length then
    .error (.tooManyBranches peer)
  else
    match validateChain blockHash b.params headers ancestorHeader ancestorHeight history with
    | .error e => .error e
    | .ok [] => .ok b
    | .ok (first :: rest) =>
      .ok (b.put peer
        { headers := first :: rest
          ancestorHeight
          totalWork := ChainWork.accumulate 0 headers
          arrivedAt := now
          nonempty := List.cons_ne_nil first rest })

/-- Continue the branch of a peer that ends in `prevTipHash`. It moves to its new tip. -/
def extendBranch (prevTipHash : BlockHash)
    (headers history : List Header) (now : Nat) : Except SyncError (ForkBuffer × BranchUpdate) :=
  if headers.isEmpty then .error .emptyExtension
  else
    match b.branches.get? ⟨peer, prevTipHash⟩ with
    | none => .error (.noBufferedBranch peer prevTipHash)
    | some branch =>
      let total := branch.headers.length + headers.length
      if maxForkHeadersPerPeer < total then .error (.extensionTooLarge total)
      else
        let tip := (branch.headers.getLast branch.nonempty).header
        let tipHeight := branch.ancestorHeight + branch.headers.length
        match validateChain blockHash b.params headers tip tipHeight
            (history ++ branch.headers.map HashedBlockHeader.header) with
        | .error e => .error e
        | .ok validated =>
          let extended : BufferedBranch :=
            { headers := branch.headers ++ validated
              ancestorHeight := branch.ancestorHeight
              totalWork := branch.totalWork + ChainWork.accumulate 0 headers
              arrivedAt := now
              nonempty := List.append_ne_nil_of_left_ne_nil branch.nonempty validated }
          let b := { b with branches := b.branches.erase ⟨peer, prevTipHash⟩ }
          .ok (b.put peer extended,
            { newTip := extended.toCandidate.tipHash
              newHeight := branch.ancestorHeight + extended.headers.length
              newWork := extended.totalWork })

/-- Drop branches older than `ttl`. -/
def expireStale (now ttl : Nat) : ForkBuffer :=
  { b with branches := b.branches.filter fun _ branch => now - branch.arrivedAt ≤ ttl }

/-- Drop the branches of a peer. -/
def removePeer : ForkBuffer :=
  { b with branches := b.branches.filter fun key _ => key.peer ≠ peer }

end

section

variable (order : BranchKey → Nat)

/-- The entries in the iteration order of the map. -/
def iterate : List ((_ : BranchKey) × BufferedBranch) :=
  b.branches.entries.insertionSort fun x y => order x.1 ≤ order y.1

/-- Take the heaviest branch if it outweighs the active extension. Of equally heavy ones
the last in iteration order counts. -/
def takeWinningCandidate (activeExtensionWork : ChainWork) : ForkBuffer × Option ForkCandidate :=
  match (b.iterate order).reverse.argmax fun e => e.2.totalWork.toNat with
  | none => (b, none)
  | some ⟨key, branch⟩ =>
    if branch.totalWork ≤ activeExtensionWork then (b, none)
    else ({ b with branches := b.branches.erase key }, some branch.toCandidate)

/-- The tips of the buffered branches. -/
def branchTipHashes : List BlockHash := b.branches.keys.map BranchKey.tip

/-- Take a branch by its tip, whatever its work. -/
def takeBranchByTip (tip : BlockHash) :
    ForkBuffer × Option ForkCandidate :=
  match (b.iterate order).find? fun e => e.1.tip = tip with
  | none => (b, none)
  | some ⟨key, branch⟩ => ({ b with branches := b.branches.erase key }, some branch.toCandidate)

end

/-! ### What the operations do -/

section Spec

variable {blockHash} {b b' : ForkBuffer} {headers history : List Header}

/-- Accepted headers are linked, to each other and to the header they continue. -/
theorem validateChain_spec {params : Params} {prev : Header}
    {prevHeight : Nat} {validated : List HashedBlockHeader}
    (h : validateChain blockHash params headers prev prevHeight history = .ok validated) :
    validated = headers.map (.ofHeader blockHash) ∧
      (HashedBlockHeader.ofHeader blockHash prev :: validated).IsChain Follows := by
  induction headers generalizing prev prevHeight history validated with
  | nil =>
    cases h
    exact ⟨rfl, List.isChain_singleton _⟩
  | cons header rest ih =>
    rw [validateChain] at h
    split_ifs at h with hprev hpow hmtp hbits
    cases hrest : validateChain blockHash params rest header (prevHeight + 1)
        (history ++ [header]) with
    | error e => simp [hrest] at h
    | ok tail =>
      obtain ⟨htail, hchain⟩ := ih hrest
      simp only [hrest, Except.ok.injEq] at h
      subst h
      refine ⟨by rw [htail, List.map_cons], List.isChain_cons_cons.mpr ⟨?_, hchain⟩⟩
      exact not_not.mp hprev

variable {peer : SocketAddr}

/-- A batch is buffered as one new branch. -/
theorem ingest_spec {ancestorHeight now : Nat} {ancestor : Header}
    (h : b.ingest blockHash peer headers ancestorHeight ancestor history now = .ok b') :
    b' = b ∨ ∃ branch : BufferedBranch, b' = b.put peer branch ∧
      branch.ancestorHeight = ancestorHeight ∧
      branch.headers = headers.map (.ofHeader blockHash) ∧
      (HashedBlockHeader.ofHeader blockHash ancestor :: branch.headers).IsChain Follows ∧
      branch.totalWork = ChainWork.accumulate 0 headers := by
  unfold ingest at h
  split_ifs at h
  · exact .inl (Except.ok.inj h).symm
  · cases hvalid : validateChain blockHash b.params headers ancestor ancestorHeight history with
    | error e => simp [hvalid] at h
    | ok validated =>
      obtain ⟨hmap, hchain⟩ := validateChain_spec hvalid
      cases validated with
      | nil =>
        simp only [hvalid, Except.ok.injEq] at h
        exact .inl h.symm
      | cons first rest =>
        simp only [hvalid, Except.ok.injEq] at h
        exact .inr ⟨_, h.symm, rfl, hmap, hchain, rfl⟩

/-- An extension replaces one branch by its continuation. -/
theorem extendBranch_spec {prevTipHash : BlockHash} {now : Nat} {update : BranchUpdate}
    (h : b.extendBranch blockHash peer prevTipHash headers history now = .ok (b', update)) :
    ∃ old ∈ b.branches.values, ∃ new : BufferedBranch,
      b' = { b with branches := b.branches.erase ⟨peer, prevTipHash⟩ }.put peer new ∧
      new.ancestorHeight = old.ancestorHeight ∧
      new.headers = old.headers ++ headers.map (.ofHeader blockHash) ∧
      (HashedBlockHeader.ofHeader blockHash (old.headers.getLast old.nonempty).header ::
        headers.map (.ofHeader blockHash)).IsChain Follows ∧
      new.totalWork = old.totalWork + ChainWork.accumulate 0 headers := by
  unfold extendBranch at h
  split_ifs at h with hempty
  cases hget : b.branches.get? ⟨peer, prevTipHash⟩ with
  | none => simp [hget] at h
  | some old =>
    simp only [hget] at h
    split_ifs at h
    split at h
    · cases h
    · next validated hvalid =>
      obtain ⟨hmap, hchain⟩ := validateChain_spec hvalid
      subst hmap
      obtain ⟨rfl, -⟩ := Prod.mk.inj (Except.ok.inj h)
      exact ⟨old, SortedMap.mem_values_iff.mpr ⟨_, hget⟩, _, rfl, rfl, rfl, hchain, rfl⟩

theorem mem_put {branch other : BufferedBranch} (h : other ∈ (b.put peer branch).branches.values) :
    other = branch ∨ other ∈ b.branches.values :=
  SortedMap.mem_values_insert h

theorem mem_iterate {order : BranchKey → Nat} {e : (_ : BranchKey) × BufferedBranch}
    (h : e ∈ b.iterate order) : e.2 ∈ b.branches.values := by
  rw [iterate, List.mem_insertionSort] at h
  exact List.mem_map.mpr ⟨e, h, rfl⟩

/-- A winner was buffered and is heavier than the active headers it was compared to. -/
theorem takeWinningCandidate_spec (b : ForkBuffer) (order : BranchKey → Nat) (work : ChainWork) :
    b.takeWinningCandidate order work = (b, none) ∨
    ∃ branch ∈ b.branches.values, ∃ key, work < branch.totalWork ∧
      b.takeWinningCandidate order work =
        ({ b with branches := b.branches.erase key }, some branch.toCandidate) := by
  unfold takeWinningCandidate
  cases hmax : (b.iterate order).reverse.argmax fun e => e.2.totalWork.toNat with
  | none => exact .inl rfl
  | some e =>
    have hmem := mem_iterate (List.mem_reverse.mp (List.argmax_mem hmax))
    by_cases hle : e.2.totalWork ≤ work
    · simp [hle]
    · exact .inr ⟨e.2, hmem, e.1, BitVec.not_le.mp hle, by simp [hle]⟩

theorem takeBranchByTip_spec (b : ForkBuffer) (order : BranchKey → Nat) (tip : BlockHash) :
    b.takeBranchByTip order tip = (b, none) ∨
    ∃ branch ∈ b.branches.values, ∃ key, b.takeBranchByTip order tip =
      ({ b with branches := b.branches.erase key }, some branch.toCandidate) := by
  unfold takeBranchByTip
  cases hfind : (b.iterate order).find? fun e => e.1.tip = tip with
  | none => exact .inl rfl
  | some e => exact .inr ⟨e.2, mem_iterate (List.mem_of_find?_eq_some hfind), e.1, rfl⟩

end Spec

end ForkBuffer

end Dashcore
