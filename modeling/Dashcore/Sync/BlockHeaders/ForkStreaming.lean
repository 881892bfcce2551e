import Dashcore.Sync.BlockHeaders.ReorgWork

/-!
# Forks that arrive in pieces

A fork may come in one message or be continued by later ones. The continuation rebuilds the
window of past headers from the history and the buffered branch, where the single message lets
it grow header by header. Both see the same window, so both accept the same headers.
-/

namespace Dashcore

open ChainWork SortedMap List

namespace ForkBuffer

open SparseBlocks StaleAnchor

variable {blockHash : Header → BlockHash} {b : ForkBuffer} {peer : SocketAddr}
  {headers headers' history : List Header} {ancestor : Header} {ancestorHeight now now' now'' : Nat}

/-- `ingest` on the buffer itself. Nothing is written before the branch is validated. -/
def ingestIn (blockHash : Header → BlockHash) (b : ForkBuffer) (peer : SocketAddr)
    (headers : List Header) (ancestorHeight : Nat) (ancestor : Header) (history : List Header)
    (now : Nat) : ForkBuffer × Except SyncError Unit :=
  match b.ingest blockHash peer headers ancestorHeight ancestor history now with
  | .error e => (b, .error e)
  | .ok b' => (b', .ok ())

/-- `extendBranch` on the buffer itself. The branch is taken out first, and put back where the
extension fails. -/
def extendBranchIn (blockHash : Header → BlockHash) (b : ForkBuffer) (peer : SocketAddr)
    (prevTipHash : BlockHash) (headers history : List Header) (now : Nat) :
    ForkBuffer × Except SyncError BranchUpdate :=
  if headers.isEmpty then (b, .error .emptyExtension)
  else
    match b.branches.get? ⟨peer, prevTipHash⟩ with
    | none => (b, .error (.noBufferedBranch peer prevTipHash))
    | some branch =>
      let removed := { b with branches := b.branches.erase ⟨peer, prevTipHash⟩ }
      let restored := { removed with
        branches := removed.branches.insert ⟨peer, prevTipHash⟩ branch }
      let total := branch.headers.length + headers.length
      if maxForkHeadersPerPeer < total then (restored, .error (.extensionTooLarge total))
      else
        match validateChain blockHash b.params headers
            (branch.headers.getLast branch.nonempty).header
            (branch.ancestorHeight + branch.headers.length)
            (history ++ branch.headers.map HashedBlockHeader.header) with
        | .error e => (restored, .error e)
        | .ok validated =>
          let extended : BufferedBranch :=
            { headers := branch.headers ++ validated
              ancestorHeight := branch.ancestorHeight
              totalWork := branch.totalWork + accumulate 0 headers
              arrivedAt := now
              nonempty := fun hnil => branch.nonempty (append_eq_nil_iff.mp hnil).1 }
          (removed.put peer extended,
            .ok { newTip := extended.toCandidate.tipHash
                  newHeight := branch.ancestorHeight + extended.headers.length
                  newWork := extended.totalWork })

/-- On the buffer itself an extension does what the function without failures in place does. -/
theorem extendBranchIn_eq (b : ForkBuffer) (peer : SocketAddr) (prevTipHash : BlockHash)
    (headers history : List Header) (now : Nat) :
    b.extendBranchIn blockHash peer prevTipHash headers history now =
      match b.extendBranch blockHash peer prevTipHash headers history now with
      | .error e => (b, .error e)
      | .ok (b', update) => (b', .ok update) := by
  unfold extendBranchIn extendBranch
  split_ifs with hempty
  · rfl
  cases hget : b.branches.get? ⟨peer, prevTipHash⟩ with
  | none => rfl
  | some branch =>
    -- the branch goes back to where it was
    have hrestored : (b.branches.erase ⟨peer, prevTipHash⟩).insert ⟨peer, prevTipHash⟩ branch =
        b.branches := by
      apply ext_get?
      intro key
      rw [get?_insert, get?_erase]
      split_ifs with hkey
      · rw [← hkey, hget]
      · rfl
    dsimp only
    rw [hrestored]
    split_ifs
    · rfl
    · cases validateChain blockHash b.params headers (branch.headers.getLast branch.nonempty).header
          (branch.ancestorHeight + branch.headers.length)
          (history ++ branch.headers.map HashedBlockHeader.header) <;> rfl

/-- Validation of a fork is validation of its first part, and then of the rest with the first
part in the history. -/
theorem validateChain_append (params : Params) (headers headers' : List Header) (prev : Header)
    (prevHeight : Nat) (history : List Header) :
    validateChain blockHash params (headers ++ headers') prev prevHeight history =
      match validateChain blockHash params headers prev prevHeight history with
      | .error e => .error e
      | .ok validated =>
        (validateChain blockHash params headers' (headers.getLast?.getD prev)
          (prevHeight + headers.length) (history ++ headers)).map (validated ++ ·) := by
  induction headers generalizing prev prevHeight history with
  | nil =>
    cases hrest : validateChain blockHash params headers' prev prevHeight history <;>
      simp [validateChain, hrest, Except.map]
  | cons header rest ih =>
    have hlast : (header :: rest).getLast?.getD prev = rest.getLast?.getD header := by
      rw [getLast?_cons, Option.getD_some]
    rw [cons_append, validateChain, validateChain, ih, hlast]
    split_ifs
    · rfl
    · rfl
    · rfl
    · cases validateChain blockHash params rest header (prevHeight + 1) (history ++ [header]) with
      | error e => rfl
      | ok validated =>
        rw [append_assoc, singleton_append, length_cons, Nat.add_right_comm,
          Nat.add_assoc prevHeight]
        cases validateChain blockHash params headers' (rest.getLast?.getD header)
          (prevHeight + (rest.length + 1)) (history ++ header :: rest) <;> rfl
    · rfl

/-- The branch that a validated fork makes. -/
def branchOf (blockHash : Header → BlockHash) (headers : List Header) (ancestorHeight now : Nat)
    (hne : headers ≠ []) : BufferedBranch where
  headers := headers.map (.ofHeader blockHash)
  ancestorHeight
  totalWork := accumulate 0 headers
  arrivedAt := now
  nonempty := by simpa using hne

/-- A new fork of a peer that may have one more branch. -/
theorem ingest_eq (hne : headers ≠ [])
    (hcap : (b.branches.keys.filter fun k => k.peer = peer).length < maxBranchesPerPeer) :
    b.ingest blockHash peer headers ancestorHeight ancestor history now =
      if maxForkHeadersPerPeer < headers.length then .error (.forkTooLarge headers.length)
      else (validateChain blockHash b.params headers ancestor ancestorHeight history).map
        fun _ => b.put peer (branchOf blockHash headers ancestorHeight now hne) := by
  rw [ingest, if_neg (by simpa using hne), if_neg (Nat.not_le.mpr hcap)]
  split_ifs
  · rfl
  · cases hvalid : validateChain blockHash b.params headers ancestor ancestorHeight history with
    | error e => rfl
    | ok validated =>
      obtain ⟨hmap, -⟩ := validateChain_spec hvalid
      cases validated with
      | nil => exact absurd (map_eq_nil_iff.mp hmap.symm) hne
      | cons first rest =>
        dsimp only [Except.map]
        congr 2
        simp only [branchOf, hmap]

/-- A fork and its continuation, with the history of the ancestor both times. -/
def ingestThenExtend (blockHash : Header → BlockHash) (b : ForkBuffer) (peer : SocketAddr)
    (headers headers' : List Header) (ancestorHeight : Nat) (ancestor : Header)
    (history : List Header) (now now' : Nat) : ForkBuffer × Except SyncError BranchUpdate :=
  match b.ingestIn blockHash peer headers ancestorHeight ancestor history now with
  | (b, .error e) => (b, .error e)
  | (b, .ok ()) =>
    b.extendBranchIn blockHash peer (blockHash (headers.getLast?.getD ancestor)) headers' history now'

theorem tipHash_branchOf (hne : headers ≠ []) (ancestor : Header) :
    (branchOf blockHash headers ancestorHeight now hne).toCandidate.tipHash =
      blockHash (headers.getLast?.getD ancestor) := by
  simp [ForkCandidate.tipHash, BufferedBranch.toCandidate, branchOf,
    getLast?_eq_some_getLast hne, getLast_map]

/-- The continuation of a fork that was just buffered. -/
theorem extendBranch_put (hne : headers ≠ []) (hne' : headers' ≠ [])
    (hfresh : b.branches.get? ⟨peer, blockHash (headers.getLast?.getD ancestor)⟩ = none) :
    (b.put peer (branchOf blockHash headers ancestorHeight now hne)).extendBranch blockHash
        peer (blockHash (headers.getLast?.getD ancestor)) headers' history now' =
      if maxForkHeadersPerPeer < (headers ++ headers').length then
        .error (.extensionTooLarge (headers.length + headers'.length))
      else (validateChain blockHash b.params headers' (headers.getLast?.getD ancestor)
          (ancestorHeight + headers.length) (history ++ headers)).map fun _ =>
        (b.put peer (branchOf blockHash (headers ++ headers') ancestorHeight now' (by simp [hne])),
          { newTip := blockHash ((headers ++ headers').getLast?.getD ancestor)
            newHeight := ancestorHeight + (headers ++ headers').length
            newWork := accumulate 0 (headers ++ headers') }) := by
  have hlast : ((branchOf blockHash headers ancestorHeight now hne).headers.getLast
      (branchOf blockHash headers ancestorHeight now hne).nonempty).header =
        headers.getLast?.getD ancestor := by
    simp [branchOf, getLast_map, getLast?_eq_some_getLast hne]
  have hhdrs : (branchOf blockHash headers ancestorHeight now hne).headers.map
      HashedBlockHeader.header = headers := by
    simp [branchOf, Function.comp_def]
  have hlength : (branchOf blockHash headers ancestorHeight now hne).headers.length =
      headers.length := length_map _
  rw [extendBranch, if_neg (by simpa using hne'), put, tipHash_branchOf hne ancestor]
  simp only [get?_insert, if_true, hlength, hlast, hhdrs, length_append]
  split_ifs
  · rfl
  · -- the window of the continuation is the history with the first part behind it
    rw [show (branchOf blockHash headers ancestorHeight now hne).ancestorHeight = ancestorHeight
      from rfl]
    cases hvalid : validateChain blockHash b.params headers' (headers.getLast?.getD ancestor)
        (ancestorHeight + headers.length) (history ++ headers) with
    | error e => rfl
    | ok validated =>
      obtain ⟨rfl, -⟩ := validateChain_spec hvalid
      have htip : (branchOf blockHash (headers ++ headers') ancestorHeight now'
          (by simp [hne])).toCandidate.tipHash = _ := tipHash_branchOf _ ancestor
      rw [← htip]
      simp only [erase_insert_of_none hfresh, Except.map, branchOf, map_append, accumulate_append,
        accumulate_eq_add (accumulate 0 headers), length_map]

/-- The two branches differ at most in when they arrived. -/
def SameFork (branch branch' : BufferedBranch) : Prop :=
  branch.headers = branch'.headers ∧ branch.ancestorHeight = branch'.ancestorHeight ∧
    branch.totalWork = branch'.totalWork

/-- A fork in two parts fails, or leaves its branch, together with the whole fork. -/
theorem ingestThenExtend_cases (hne : headers ≠ []) (hne' : headers' ≠ [])
    (hcap : (b.branches.keys.filter fun k => k.peer = peer).length < maxBranchesPerPeer)
    (hfresh : b.branches.get? ⟨peer, blockHash (headers.getLast?.getD ancestor)⟩ = none) :
    let streamed := b.ingestThenExtend blockHash peer headers headers' ancestorHeight ancestor history
      now now'
    let whole := b.ingestIn blockHash peer (headers ++ headers') ancestorHeight ancestor history now''
    (∃ e e', streamed.2 = .error e ∧ whole.2 = .error e') ∨
      ∃ update key branch branch', streamed.2 = .ok update ∧ whole.2 = .ok () ∧
        streamed.1 = { b with branches := b.branches.insert key branch } ∧
        whole.1 = { b with branches := b.branches.insert key branch' } ∧
        SameFork branch branch' := by
  have happend : headers ++ headers' ≠ [] := by simp [hne]
  rw [ingestThenExtend, ingestIn, ingestIn, ingest_eq hne hcap, ingest_eq happend hcap,
    validateChain_append]
  by_cases hlarge : maxForkHeadersPerPeer < headers.length
  · rw [if_pos hlarge, if_pos (by rw [length_append]; omega)]
    exact .inl ⟨_, _, rfl, rfl⟩
  rw [if_neg hlarge]
  cases validateChain blockHash b.params headers ancestor ancestorHeight history with
  | error e => split_ifs <;> exact .inl ⟨_, _, rfl, rfl⟩
  | ok validated =>
    simp only [Except.map, extendBranchIn_eq, extendBranch_put hne hne' hfresh]
    split_ifs
    · exact .inl ⟨_, _, rfl, rfl⟩
    · cases validateChain blockHash b.params headers' (headers.getLast?.getD ancestor)
          (ancestorHeight + headers.length) (history ++ headers) with
      | error e => exact .inl ⟨_, _, rfl, rfl⟩
      | ok validated' => exact .inr ⟨_, _, _, _, rfl, rfl, rfl, rfl, rfl, rfl, rfl⟩

/-- A fork received in two parts is accepted exactly when it is accepted whole, and leaves the
same branch under the same key. A message that is refused leaves the buffer as it was. -/
theorem streamed_iff_whole (hne : headers ≠ []) (hne' : headers' ≠ [])
    (hcap : (b.branches.keys.filter fun k => k.peer = peer).length < maxBranchesPerPeer)
    (hfresh : b.branches.get? ⟨peer, blockHash (headers.getLast?.getD ancestor)⟩ = none) :
    let streamed := b.ingestThenExtend blockHash peer headers headers' ancestorHeight ancestor history
      now now'
    let whole := b.ingestIn blockHash peer (headers ++ headers') ancestorHeight ancestor history now''
    ((∃ update, streamed.2 = .ok update) ↔ whole.2 = .ok ()) ∧
    (whole.2 = .ok () → ∃ key branch branch',
      streamed.1 = { b with branches := b.branches.insert key branch } ∧
      whole.1 = { b with branches := b.branches.insert key branch' } ∧ SameFork branch branch') ∧
    ∀ (b : ForkBuffer) (headers : List Header) (e : SyncError),
      ((b.ingestIn blockHash peer headers ancestorHeight ancestor history now).2 = .error e →
        (b.ingestIn blockHash peer headers ancestorHeight ancestor history now).1 = b) ∧
      ∀ tip, (b.extendBranchIn blockHash peer tip headers history now).2 = .error e →
        (b.extendBranchIn blockHash peer tip headers history now).1 = b := by
  intro streamed whole
  refine ⟨?_, ?_, fun b headers e => ⟨?_, fun tip => ?_⟩⟩
  · obtain ⟨e, e', hs, hw⟩ | ⟨update, -, -, -, hs, hw, -⟩ :=
      ingestThenExtend_cases hne hne' hcap hfresh
    · exact iff_of_false (by rintro ⟨_, hok⟩; cases hs.symm.trans hok) fun hok => by cases hw.symm.trans hok
    · exact iff_of_true ⟨update, hs⟩ hw
  · intro hok
    obtain ⟨e, e', -, hw⟩ | ⟨-, key, branch, branch', -, -, hrest⟩ :=
      ingestThenExtend_cases hne hne' hcap hfresh
    · cases hw.symm.trans hok
    · exact ⟨key, branch, branch', hrest⟩
  · unfold ingestIn
    split
    · exact fun _ => rfl
    · exact fun h => by cases h
  · rw [extendBranchIn_eq]
    split
    · exact fun _ => rfl
    · exact fun h => by cases h

/-- A fork of height 1 that comes as one header and then two more. -/
theorem streamed_oneFork :
    let b : ForkBuffer := .new (.new .regtest)
    let ancestor := (headerAfter 1 2).header
    let history := [(headerAfter 0 1).header, ancestor]
    (b.ingestIn nonceHash 7 (batch 2 [10] ++ batch 10 [11, 12]) 1 ancestor history 0).2 = .ok () ∧
      ∃ update, (b.ingestThenExtend nonceHash 7 (batch 2 [10]) (batch 10 [11, 12]) 1 ancestor history
        0 0).2 = .ok update := by
  intro b ancestor history
  have hwhole : (b.ingestIn nonceHash 7 (batch 2 [10] ++ batch 10 [11, 12]) 1 ancestor history 0).2 =
      .ok () := by decide +kernel
  exact ⟨hwhole, (streamed_iff_whole (by decide) (by decide) (by decide) rfl).1.mpr hwhole⟩

end ForkBuffer

end Dashcore
