import Dashcore.Lib.Runs
import Dashcore.Sync.Blocks.Pipeline

/-!
# The order of blocks

What the pipeline is for, as a ledger of requests: a queued block is undelivered until it is
received in flight or found in the block store; then it is ready until it is taken, with all the
wallets that asked for it since it was last taken. The pipeline keeps such a ledger with its
five collections as long as no request is lost on its way out and no block comes from the store
while its download is outstanding. Otherwise a lost block is waited for forever, and a block
from the store is taken a second time once its download arrives.

Blocks of different hashes have different heights; `heights` gives them.
-/

namespace Dashcore

open Finset Function SortedMap

/-- The requests as the users of the pipeline see them. -/
structure BlockLedger where
  undelivered : Finset BlockHash
  ready : Finset BlockHash
  /-- The wallets that a block was asked for since it was last taken. -/
  wanted : BlockHash → Finset WalletId
  /-- How often a block became ready, and how often it was taken. -/
  supplied : BlockHash → Nat
  returned : BlockHash → Nat

namespace BlockLedger

def new : BlockLedger where
  undelivered := ∅
  ready := ∅
  wanted := fun _ => ∅
  supplied := fun _ => 0
  returned := fun _ => 0

variable (l : BlockLedger)

def want (hash : BlockHash) (wallets : Finset WalletId) : BlockLedger :=
  { l with wanted := update l.wanted hash (l.wanted hash ∪ wallets) }

/-- A block is asked for. -/
def queueBlock (block : FilterMatchKey × Finset WalletId) : BlockLedger :=
  { l.want block.1.hash block.2 with
    undelivered :=
      if block.1.hash ∈ l.ready then l.undelivered else insert block.1.hash l.undelivered }

/-- A block becomes ready. -/
def supply (hash : BlockHash) : BlockLedger :=
  { l with
    undelivered := l.undelivered.erase hash
    ready := insert hash l.ready
    supplied := if hash ∈ l.ready then l.supplied
      else update l.supplied hash (l.supplied hash + 1) }

/-- A block is taken. -/
def take (hash : BlockHash) : BlockLedger :=
  { l with
    ready := l.ready.erase hash
    wanted := update l.wanted hash ∅
    returned := update l.returned hash (l.returned hash + 1) }

end BlockLedger

namespace BlocksPipeline

variable {Block : Type} (hashOf : Block → BlockHash)

/-- The operations of a pipeline. -/
inductive Op (Block : Type)
  | queue (blocks : List (FilterMatchKey × Finset WalletId))
  | addFromStorage (block : Block) (height : Nat) (wallets : Finset WalletId)
  | send (now generation : Nat) (accepts : Nat → Bool)
  | receive (block : Block)
  | timeouts (now : Nat)
  | requeue
  | take

/-- A pipeline with the ledger of its requests. -/
structure Booked (Block : Type) where
  pipeline : BlocksPipeline Block
  ledger : BlockLedger

/-- One operation on the pipeline, noted in the ledger. -/
def step (s : Booked Block) : Op Block → Booked Block
  | .queue blocks => ⟨s.pipeline.queue blocks, blocks.foldl BlockLedger.queueBlock s.ledger⟩
  | .addFromStorage block height wallets =>
    ⟨s.pipeline.addFromStorage hashOf block height wallets,
      (s.ledger.want (hashOf block) wallets).supply (hashOf block)⟩
  | .send now generation accepts =>
    ⟨(s.pipeline.sendPendingWithGeneration now generation accepts).1, s.ledger⟩
  | .receive block =>
    ⟨(s.pipeline.receiveBlock hashOf block).1,
      if s.pipeline.coordinator.isInFlight (hashOf block) ∧ hashOf block ∈ s.ledger.undelivered then
        s.ledger.supply (hashOf block)
      else s.ledger⟩
  | .timeouts now => ⟨s.pipeline.handleTimeouts now, s.ledger⟩
  | .requeue => ⟨s.pipeline.requeueInFlight, s.ledger⟩
  | .take =>
    match s.pipeline.takeNextOrderedBlock hashOf with
    | (p, some (block, _, _)) => ⟨p, s.ledger.take (hashOf block)⟩
    | (p, none) => ⟨p, s.ledger⟩

def start : Booked Block := ⟨.new, .new⟩

/-- The heights of an operation are those of its blocks. -/
def Op.KeyedBy (heights : BlockHash → Nat) : Op Block → Prop
  | .queue blocks => ∀ block ∈ blocks, block.1.height = heights block.1.hash
  | .addFromStorage block height _ => height = heights (hashOf block)
  | _ => True

instance (heights : BlockHash → Nat) : (op : Op Block) → Decidable (op.KeyedBy hashOf heights)
  | .queue blocks => List.decidableBAll _ blocks
  | .addFromStorage _ _ _ => inferInstanceAs (Decidable (_ = _))
  | .send _ _ _ | .receive _ | .timeouts _ | .requeue | .take => .isTrue trivial

/-- The condition on an operation: requests leave, and the store supplies no block whose
download is outstanding. -/
def Regular (s : Booked Block) : Op Block → Prop
  | .send _ _ accepts => ∀ n, accepts n = true
  | .addFromStorage block _ _ => s.pipeline.hashToHeight.contains (hashOf block) = false
  | _ => True

/-- What the users of a pipeline can rely on. -/
structure Orderly (heights : BlockHash → Nat) (s : Booked Block) : Prop where
  /-- Every undelivered block is queued or in flight. -/
  kept : ∀ hash ∈ s.ledger.undelivered, hash ∈ s.pipeline.coordinator.pending ∨
    s.pipeline.coordinator.isInFlight hash = true
  /-- A block is taken when it is ready, before all others that are ready or undelivered, with
  the wallets that asked for it. -/
  taken : ∀ block height wallets,
    (s.pipeline.takeNextOrderedBlock hashOf).2 = some (block, height, wallets) →
      hashOf block ∈ s.ledger.ready ∧ height = heights (hashOf block) ∧
      wallets = s.ledger.wanted (hashOf block) ∧
      (∀ hash ∈ s.ledger.ready, height ≤ heights hash) ∧
      ∀ hash ∈ s.ledger.undelivered, height < heights hash
  /-- A ready block with nothing undelivered below it is taken next or soon after. -/
  eventually : ∀ hash ∈ s.ledger.ready,
    (∀ other ∈ s.ledger.undelivered, heights hash < heights other) →
      ∃ k < s.ledger.ready.card, ∃ block wallets,
        (takeNextOrderedBlock hashOf
          ((fun p => (takeNextOrderedBlock hashOf p).1)^[k] s.pipeline)).2 =
            some (block, heights hash, wallets) ∧ hashOf block = hash
  /-- A block is taken as often as it became ready, but for once if it is ready. -/
  once : ∀ hash, s.ledger.supplied hash =
    s.ledger.returned hash + if hash ∈ s.ledger.ready then 1 else 0
  complete : s.pipeline.isComplete = true → s.ledger.undelivered = ∅ ∧ s.ledger.ready = ∅

/-! ### Keeping the ledger -/

/-- A pipeline keeps a ledger with its collections. -/
structure Keeps (heights : BlockHash → Nat) (p : BlocksPipeline Block) (l : BlockLedger) : Prop where
  holds : p.coordinator.Holds (· ∈ l.undelivered)
  pending : p.pendingHeights = l.undelivered.image heights
  tracked : ∀ hash, p.hashToHeight.get? hash =
    if hash ∈ l.undelivered then some (heights hash) else none
  wallets : ∀ hash, p.hashToWallets.get? hash =
    if hash ∈ l.undelivered ∨ hash ∈ l.ready then some (l.wanted hash) else none
  downloaded : ∀ {height block}, p.downloaded.get? height = some block →
    height = heights (hashOf block) ∧ hashOf block ∈ l.ready
  ready : ∀ hash ∈ l.ready, ∃ block, p.downloaded.get? (heights hash) = some block ∧
    hashOf block = hash
  apart : ∀ hash ∈ l.undelivered, hash ∉ l.ready
  idle : ∀ hash, hash ∉ l.undelivered → hash ∉ l.ready → l.wanted hash = ∅
  once : ∀ hash, l.supplied hash = l.returned hash + if hash ∈ l.ready then 1 else 0

namespace Keeps

variable {hashOf} {heights : BlockHash → Nat} {p : BlocksPipeline Block} {l : BlockLedger}

theorem new : Keeps hashOf heights (BlocksPipeline.new : BlocksPipeline Block) .new where
  holds := .of_isEmpty rfl rfl (by simp [BlockLedger.new])
  pending := rfl
  tracked := by simp [BlocksPipeline.new, BlockLedger.new]
  wallets := by simp [BlocksPipeline.new, BlockLedger.new]
  downloaded := by simp [BlocksPipeline.new]
  ready := by simp [BlockLedger.new]
  apart := by simp [BlockLedger.new]
  idle := by simp [BlockLedger.new]
  once := by simp [BlockLedger.new]

variable {coordinator : DownloadCoordinator BlockHash}

/-- Only the coordinator changes, and it holds the same blocks. -/
theorem of_coordinator (h : Keeps hashOf heights p l)
    (hholds : coordinator.Holds (· ∈ l.undelivered)) :
    Keeps hashOf heights { p with coordinator } l :=
  ⟨hholds, h.pending, h.tracked, h.wallets, h.downloaded, h.ready, h.apart, h.idle, h.once⟩

theorem isTracked_iff (h : Keeps hashOf heights p l) (hash : BlockHash) :
    p.isTracked hash = true ↔ hash ∈ l.undelivered ∨ hash ∈ l.ready := by
  rw [isTracked, contains, contains, h.tracked, h.wallets]
  by_cases hu : hash ∈ l.undelivered <;> by_cases hr : hash ∈ l.ready <;> simp [hu, hr]

variable {hash : BlockHash}

section

variable (h : Keeps hashOf heights p l)
include h

/-- Adding wallets to a block that is asked for. -/
theorem addWallets (hasked : hash ∈ l.undelivered ∨ hash ∈ l.ready) (wallets : Finset WalletId) :
    Keeps hashOf heights (p.addWallets hash wallets) (l.want hash wallets) := by
  refine ⟨h.holds, h.pending, h.tracked, ?_, h.downloaded, h.ready, h.apart, ?_, h.once⟩
  · intro other
    show (p.hashToWallets.insert hash ((p.hashToWallets.get? hash).getD ∅ ∪ wallets)).get? other =
      if other ∈ l.undelivered ∨ other ∈ l.ready then
        some (update l.wanted hash (l.wanted hash ∪ wallets) other)
      else none
    rw [get?_insert]
    by_cases hsame : hash = other
    · subst hsame
      rw [if_pos rfl, if_pos hasked, h.wallets, if_pos hasked, update_self]
      rfl
    · rw [if_neg hsame, h.wallets, update_of_ne (Ne.symm hsame)]
  · intro other hu hr
    have hne : other ≠ hash := by
      rintro rfl
      exact hasked.elim hu hr
    simp only [BlockLedger.want]
    rw [update_of_ne hne]
    exact h.idle other hu hr

/-- A block that nobody asked for is queued for its download. -/
theorem track {key : FilterMatchKey} (hheight : key.height = heights key.hash)
    (hu : key.hash ∉ l.undelivered) (hr : key.hash ∉ l.ready) (wallets : Finset WalletId) :
    Keeps hashOf heights ((p.track key).addWallets key.hash wallets)
      { l.want key.hash wallets with undelivered := insert key.hash l.undelivered } := by
  refine ⟨?_, ?_, ?_, ?_, h.downloaded, h.ready, ?_, ?_, h.once⟩
  · refine (h.holds.enqueue hu).congr fun hash => ?_
    rw [mem_insert]
    exact or_comm
  · show insert key.height p.pendingHeights = (insert key.hash l.undelivered).image heights
    rw [image_insert, h.pending, hheight]
  · intro hash
    simp only [BlocksPipeline.track, BlocksPipeline.addWallets, get?_insert, mem_insert]
    by_cases hsame : key.hash = hash
    · subst hsame
      simp [hheight]
    · rw [if_neg hsame, h.tracked]
      simp [Ne.symm hsame]
  · intro hash
    simp only [BlocksPipeline.track, BlocksPipeline.addWallets, BlockLedger.want,
      get?_insert, mem_insert]
    by_cases hsame : key.hash = hash
    · subst hsame
      simp [h.wallets, hu, hr, h.idle _ hu hr]
    · rw [if_neg hsame, h.wallets, update_of_ne (Ne.symm hsame)]
      simp [Ne.symm hsame]
  · intro hash hmem
    rcases mem_insert.mp hmem with rfl | hmem
    · exact hr
    · exact h.apart hash hmem
  · intro hash hnot hready
    rw [mem_insert, not_or] at hnot
    simp only [BlockLedger.want]
    rw [update_of_ne hnot.1]
    exact h.idle hash hnot.2 hready

theorem queueBlock {block : FilterMatchKey × Finset WalletId}
    (hheight : block.1.height = heights block.1.hash) :
    Keeps hashOf heights (p.queueBlock block) (l.queueBlock block) := by
  obtain ⟨key, wallets⟩ := block
  unfold BlocksPipeline.queueBlock BlockLedger.queueBlock
  by_cases htracked : p.isTracked key.hash = true
  · rw [if_pos htracked]
    have hasked := (h.isTracked_iff key.hash).mp htracked
    have hsame : (if key.hash ∈ l.ready then l.undelivered else insert key.hash l.undelivered) =
        l.undelivered := by
      split_ifs with hr
      · rfl
      · exact insert_eq_of_mem (hasked.resolve_right hr)
    rw [hsame]
    exact h.addWallets hasked wallets
  · rw [if_neg htracked]
    rw [h.isTracked_iff, not_or] at htracked
    dsimp only
    rw [if_neg htracked.2]
    exact h.track hheight htracked.1 htracked.2 wallets

theorem queue {blocks : List (FilterMatchKey × Finset WalletId)}
    (hheights : ∀ block ∈ blocks, block.1.height = heights block.1.hash) :
    Keeps hashOf heights (p.queue blocks) (blocks.foldl BlockLedger.queueBlock l) := by
  induction blocks generalizing p l with
  | nil => exact h
  | cons block rest ih =>
    obtain ⟨hblock, hrest⟩ := List.forall_mem_cons.mp hheights
    exact ih (h.queueBlock hblock) hrest

end

/-! A block comes in. -/

variable {block : Block}

section

variable (h : Keeps hashOf heights p l)
include h

theorem downloaded_insert {height : Nat} {other : Block}
    (hget : (p.downloaded.insert (heights (hashOf block)) block).get? height = some other) :
    height = heights (hashOf other) ∧ hashOf other ∈ insert (hashOf block) l.ready := by
  obtain ⟨rfl, rfl⟩ | ⟨-, hget⟩ := of_get?_insert hget
  · exact ⟨rfl, mem_insert_self _ _⟩
  · obtain ⟨hheight, hready⟩ := h.downloaded hget
    exact ⟨hheight, mem_insert_of_mem hready⟩

theorem ready_insert (hinj : Function.Injective heights)
    (hmem : hash ∈ insert (hashOf block) l.ready) :
    ∃ other, (p.downloaded.insert (heights (hashOf block)) block).get? (heights hash) =
      some other ∧ hashOf other = hash := by
  rw [get?_insert]
  by_cases hsame : hashOf block = hash
  · rw [if_pos (congrArg heights hsame)]
    exact ⟨block, rfl, hsame⟩
  · rw [if_neg fun heq => hsame (hinj heq)]
    exact h.ready hash ((mem_insert.mp hmem).resolve_left (Ne.symm hsame))

theorem once_supply (hash other : BlockHash) :
    (l.supply hash).supplied other = (l.supply hash).returned other +
      if other ∈ (l.supply hash).ready then 1 else 0 := by
  have hother := h.once other
  unfold BlockLedger.supply
  by_cases hsame : other = hash
  · subst hsame
    by_cases hready : other ∈ l.ready
    · simp [hready, hother]
    · simp [hready, hother]
  · split_ifs <;> simp_all

/-- A block in flight is received. -/
theorem receiveBlock (hinj : Function.Injective heights)
    (hflight : p.coordinator.isInFlight (hashOf block) = true) :
    Keeps hashOf heights (p.receiveBlock hashOf block).1 (l.supply (hashOf block)) := by
  have hmem : hashOf block ∈ l.undelivered := (h.holds.exact _).mpr (.inr hflight)
  have hheld := h.holds.receive hflight
  have hheight : p.hashToHeight.get? (hashOf block) = some (heights (hashOf block)) := by
    rw [h.tracked, if_pos hmem]
  have hfound : (p.coordinator.receive (hashOf block)).2 = true := by
    rw [DownloadCoordinator.receive,
      if_pos (show p.coordinator.inFlight.contains (hashOf block) = true from hflight)]
  unfold BlocksPipeline.receiveBlock
  generalize p.coordinator.receive (hashOf block) = r at hheld hfound
  obtain ⟨coordinator, found⟩ := r
  subst hfound
  simp only [hheight]
  refine ⟨?_, ?_, ?_, ?_, h.downloaded_insert, fun hash => h.ready_insert hinj, ?_, ?_,
    h.once_supply (hashOf block)⟩
  · exact hheld.congr fun hash => by rw [BlockLedger.supply, mem_erase, and_comm]
  · show p.pendingHeights.erase (heights (hashOf block)) =
      (l.undelivered.erase (hashOf block)).image heights
    rw [h.pending, image_erase hinj]
  · intro hash
    simp only [BlockLedger.supply, get?_erase, mem_erase, h.tracked]
    by_cases hsame : hashOf block = hash
    · simp [hsame]
    · simp [hsame, Ne.symm hsame]
  · intro hash
    simp only [BlockLedger.supply, mem_erase, mem_insert, h.wallets]
    by_cases hsame : hash = hashOf block
    · simp [hsame, hmem]
    · simp [hsame]
  · intro hash hu hr
    obtain ⟨hne, hu⟩ := mem_erase.mp hu
    exact h.apart hash hu ((mem_insert.mp hr).resolve_left hne)
  · intro hash hu hr
    rw [BlockLedger.supply, mem_insert, not_or] at hr
    rw [BlockLedger.supply, mem_erase, not_and] at hu
    exact h.idle hash (hu hr.1) hr.2

/-- A block whose download is not outstanding comes from the store. -/
theorem addFromStorage (hinj : Function.Injective heights) (hu : hashOf block ∉ l.undelivered)
    (wallets : Finset WalletId) :
    Keeps hashOf heights (p.addFromStorage hashOf block (heights (hashOf block)) wallets)
      ((l.want (hashOf block) wallets).supply (hashOf block)) := by
  have herase : l.undelivered.erase (hashOf block) = l.undelivered := erase_eq_of_notMem hu
  refine ⟨?_, ?_, ?_, ?_, h.downloaded_insert, fun hash => h.ready_insert hinj, ?_, ?_, ?_⟩
  · refine h.holds.congr fun hash => ?_
    rw [BlockLedger.supply, BlockLedger.want, herase]
  · show p.pendingHeights = (l.undelivered.erase (hashOf block)).image heights
    rw [herase, h.pending]
  · intro hash
    show p.hashToHeight.get? hash =
      if hash ∈ l.undelivered.erase (hashOf block) then some (heights hash) else none
    rw [herase, h.tracked]
  · intro hash
    show (p.hashToWallets.insert (hashOf block)
        ((p.hashToWallets.get? (hashOf block)).getD ∅ ∪ wallets)).get? hash =
      if hash ∈ l.undelivered.erase (hashOf block) ∨ hash ∈ insert (hashOf block) l.ready then
        some (update l.wanted (hashOf block) (l.wanted (hashOf block) ∪ wallets) hash)
      else none
    rw [herase, get?_insert]
    by_cases hsame : hashOf block = hash
    · subst hsame
      rw [if_pos rfl, if_pos (.inr (mem_insert_self _ _)), update_self, h.wallets]
      by_cases hr : hashOf block ∈ l.ready
      · rw [if_pos (.inr hr)]
        rfl
      · rw [if_neg (not_or.mpr ⟨hu, hr⟩), h.idle _ hu hr]
        rfl
    · rw [if_neg hsame, h.wallets, update_of_ne (Ne.symm hsame)]
      simp [Ne.symm hsame]
  · intro hash hmem hr
    obtain ⟨hne, hmem⟩ := mem_erase.mp hmem
    exact h.apart hash hmem ((mem_insert.mp hr).resolve_left hne)
  · intro hash hnot hr
    rw [BlockLedger.supply, mem_insert, not_or] at hr
    rw [BlockLedger.supply, BlockLedger.want, mem_erase, not_and] at hnot
    show update l.wanted (hashOf block) _ hash = ∅
    rw [update_of_ne hr.1]
    exact h.idle hash (hnot hr.1) hr.2
  · exact fun other => h.once_supply (hashOf block) other

/-! The lowest block is taken. -/

/-- What a take finds. -/
theorem take_cases :
    (p.takeNextOrderedBlock hashOf = (p, none) ∧
      (l.ready = ∅ ∨ ∃ hash ∈ l.undelivered, ∀ other ∈ l.ready, heights hash < heights other)) ∨
    ∃ block, hashOf block ∈ l.ready ∧
      (∀ hash ∈ l.ready, heights (hashOf block) ≤ heights hash) ∧
      (∀ hash ∈ l.undelivered, heights (hashOf block) ≤ heights hash) ∧
      p.takeNextOrderedBlock hashOf =
        ({ p with
            downloaded := p.downloaded.erase (heights (hashOf block))
            hashToWallets := p.hashToWallets.erase (hashOf block) },
          some (block, heights (hashOf block), l.wanted (hashOf block))) := by
  unfold takeNextOrderedBlock
  cases hentries : p.downloaded.entries with
  | nil =>
    refine .inl ⟨rfl, .inl (eq_empty_of_forall_notMem fun hash hmem => ?_)⟩
    obtain ⟨block, hget, -⟩ := h.ready hash hmem
    have hentry := mem_entries_iff.mpr hget
    rw [hentries] at hentry
    cases hentry
  | cons entry rest =>
    obtain ⟨lowest, block⟩ := entry
    have hget : p.downloaded.get? lowest = some block :=
      mem_entries_iff.mp (by rw [hentries]; exact List.mem_cons_self)
    obtain ⟨hheight, hready⟩ := h.downloaded hget
    have hlowest : ∀ hash ∈ l.ready, lowest ≤ heights hash := by
      intro hash hmem
      obtain ⟨other, hother, -⟩ := h.ready hash hmem
      refine le_of_keys_head? ?_ hother
      rw [keys, hentries]
      rfl
    subst hheight
    dsimp only
    split_ifs with hlower
    · obtain ⟨height, hpend, hlt⟩ := hlower
      rw [h.pending, mem_image] at hpend
      obtain ⟨hash, hmem, rfl⟩ := hpend
      exact .inl ⟨rfl, .inr ⟨hash, hmem, fun other hother => hlt.trans_le (hlowest other hother)⟩⟩
    · refine .inr ⟨block, hready, hlowest, fun hash hmem => ?_, ?_⟩
      · by_contra hlt
        refine hlower ⟨heights hash, ?_, Nat.not_le.mp hlt⟩
        rw [h.pending]
        exact mem_image_of_mem heights hmem
      · rw [h.wallets, if_pos (.inr hready)]
        rfl

/-- A take keeps the ledger. -/
theorem take (hinj : Function.Injective heights) (hready : hashOf block ∈ l.ready) :
    Keeps hashOf heights
      { p with
        downloaded := p.downloaded.erase (heights (hashOf block))
        hashToWallets := p.hashToWallets.erase (hashOf block) }
      (l.take (hashOf block)) := by
  have hnot : hashOf block ∉ l.undelivered := fun hu => h.apart _ hu hready
  refine ⟨h.holds, h.pending, h.tracked, ?_, ?_, ?_, ?_, ?_, ?_⟩
  · intro hash
    show (p.hashToWallets.erase (hashOf block)).get? hash =
      if hash ∈ l.undelivered ∨ hash ∈ l.ready.erase (hashOf block) then
        some (update l.wanted (hashOf block) ∅ hash)
      else none
    rw [get?_erase]
    by_cases hsame : hashOf block = hash
    · subst hsame
      simp [hnot]
    · rw [if_neg hsame, h.wallets, update_of_ne (Ne.symm hsame)]
      simp [mem_erase, Ne.symm hsame]
  · intro height other hget
    obtain ⟨hsame, hget⟩ := of_get?_erase hget
    obtain ⟨hheight, hother⟩ := h.downloaded hget
    refine ⟨hheight, mem_erase.mpr ⟨fun heq => hsame ?_, hother⟩⟩
    rw [hheight, heq]
  · intro hash hmem
    obtain ⟨hne, hmem⟩ := mem_erase.mp hmem
    obtain ⟨other, hget, hhash⟩ := h.ready hash hmem
    refine ⟨other, ?_, hhash⟩
    rw [get?_erase, if_neg fun heq => hne (hinj heq).symm]
    exact hget
  · exact fun hash hu hr => h.apart hash hu (mem_of_mem_erase hr)
  · intro hash hu hr
    show update l.wanted (hashOf block) ∅ hash = ∅
    by_cases hsame : hash = hashOf block
    · rw [hsame, update_self]
    · rw [update_of_ne hsame]
      exact h.idle hash hu fun hmem => hr (mem_erase.mpr ⟨hsame, hmem⟩)
  · intro hash
    have hold := h.once hash
    show l.supplied hash = update l.returned (hashOf block) (l.returned (hashOf block) + 1)
      hash + if hash ∈ l.ready.erase (hashOf block) then 1 else 0
    by_cases hsame : hash = hashOf block
    · subst hsame
      rw [if_pos hready] at hold
      simp [hold]
    · rw [update_of_ne hsame, hold]
      simp [mem_erase, hsame]

end

/-! Requests leave. -/

theorem markSent {P : BlockHash → Prop}
    (h : coordinator.Holds P) (now generation : Nat) {hashes : List BlockHash}
    (hnodup : hashes.Nodup) (hnew : ∀ hash ∈ hashes, ¬ P hash) :
    (coordinator.markSentWithGeneration now hashes generation).Holds
      fun hash => P hash ∨ hash ∈ hashes := by
  induction hashes generalizing coordinator P with
  | nil => exact h.congr fun hash => by simp
  | cons hash rest ih =>
    obtain ⟨hout, hrest⟩ := List.nodup_cons.mp hnodup
    have hfirst := h.markSentWithGeneration (hnew hash List.mem_cons_self) now generation
    refine (ih hfirst hrest ?_).congr fun k => ?_
    · rintro k hk (hP | rfl)
      · exact hnew k (List.mem_cons_of_mem hash hk) hP
      · exact hout hk
    · rw [List.mem_cons, or_assoc]

theorem sendLoop {accepts : Nat → Bool} (haccepts : ∀ n, accepts n = true) (now generation : Nat)
    (fuel round totalSent : Nat) (h : Keeps hashOf heights p l) :
    Keeps hashOf heights
      (BlocksPipeline.sendLoop now generation accepts fuel round totalSent p).1 l := by
  induction fuel generalizing round totalSent p with
  | zero => exact h
  | succ fuel ih =>
    unfold BlocksPipeline.sendLoop
    split_ifs with hnone hsend
    · exact h
    swap
    · exact absurd (haccepts round) hsend
    obtain ⟨hrest, hnodup, htaken⟩ :=
      h.holds.takePending (min p.coordinator.availableToSend blocksPerRequest)
    refine ih (round + 1) _ (h.of_coordinator ?_)
    refine (markSent hrest now generation hnodup fun hash hmem hP => hP.2 hmem).congr fun hash => ?_
    constructor
    · intro hmem
      by_cases htake : hash ∈ (p.coordinator.takePending
          (min p.coordinator.availableToSend blocksPerRequest)).2
      · exact .inr htake
      · exact .inl ⟨hmem, htake⟩
    · rintro (hmem | htake)
      · exact hmem.1
      · exact htaken hash htake

variable {s : Booked Block}

/-- Every regular operation keeps the ledger. -/
theorem step (h : Keeps hashOf heights s.pipeline s.ledger)
    (hinj : Function.Injective heights) {op : Op Block} (hkeys : op.KeyedBy hashOf heights)
    (hregular : Regular hashOf s op) :
    Keeps hashOf heights (BlocksPipeline.step hashOf s op).pipeline
      (BlocksPipeline.step hashOf s op).ledger := by
  cases op with
  | queue blocks => exact h.queue hkeys
  | addFromStorage block height wallets =>
    have hheight : height = heights (hashOf block) := hkeys
    subst hheight
    refine h.addFromStorage hinj (fun hmem => ?_) wallets
    have hout : s.pipeline.hashToHeight.contains (hashOf block) = false := hregular
    rw [contains, h.tracked, if_pos hmem] at hout
    cases hout
  | send now generation accepts => exact h.sendLoop hregular now generation _ 0 0
  | receive block =>
    unfold BlocksPipeline.step
    by_cases hflight : s.pipeline.coordinator.isInFlight (hashOf block) = true
    · have hmem : hashOf block ∈ s.ledger.undelivered := (h.holds.exact _).mpr (.inr hflight)
      simp only [hflight, hmem, and_self, if_true]
      exact h.receiveBlock hinj hflight
    · have hsame : (s.pipeline.receiveBlock hashOf block).1 = s.pipeline := by
        have hout : ¬ s.pipeline.coordinator.inFlight.contains (hashOf block) = true := hflight
        unfold BlocksPipeline.receiveBlock
        rw [DownloadCoordinator.receive, if_neg hout]
      simp only [hflight, false_and, if_false, hsame, Bool.false_eq_true]
      exact h
  | timeouts now => exact h.of_coordinator (h.holds.checkAndRetryTimeouts now)
  | requeue => exact h.of_coordinator h.holds.requeueInFlight
  | take =>
    unfold BlocksPipeline.step
    obtain ⟨htake, -⟩ | ⟨block, hready, -, -, htake⟩ := h.take_cases
    · rw [htake]
      exact h
    · rw [htake]
      exact h.take hinj hready

/-- With nothing undelivered below it, a ready block is reached by taking the ready blocks
below it. -/
theorem eventually
    (h : Keeps hashOf heights p l) (hinj : Function.Injective heights) (hready : hash ∈ l.ready)
    (hlowest : ∀ other ∈ l.undelivered, heights hash < heights other) :
    ∃ k < l.ready.card, ∃ block wallets,
      (takeNextOrderedBlock hashOf ((fun p => (takeNextOrderedBlock hashOf p).1)^[k] p)).2 =
        some (block, heights hash, wallets) ∧ hashOf block = hash := by
  -- by induction on the number of ready blocks
  generalize hcard : l.ready.card = n
  induction n generalizing p l with
  | zero =>
    rw [card_eq_zero.mp hcard] at hready
    simp at hready
  | succ n ih =>
    obtain ⟨-, hempty | ⟨other, hother, hbelow⟩⟩ | ⟨block, hmem, -, -, htake⟩ := h.take_cases
    · simp [hempty] at hready
    · exact absurd (hbelow hash hready) (Nat.lt_asymm (hlowest other hother))
    · by_cases hsame : hashOf block = hash
      · refine ⟨0, Nat.succ_pos n, block, l.wanted (hashOf block), ?_, hsame⟩
        rw [iterate_zero, id_eq, htake, hsame]
      · have hrest : (l.take (hashOf block)).ready.card = n := by
          show (l.ready.erase (hashOf block)).card = n
          rw [card_erase_of_mem hmem, hcard, Nat.add_sub_cancel]
        obtain ⟨k, hk, found, wallets, hfound, hhash⟩ := ih (h.take hinj hmem)
          (mem_erase.mpr ⟨Ne.symm hsame, hready⟩) hlowest hrest
        refine ⟨k + 1, Nat.succ_lt_succ hk, found, wallets, ?_, hhash⟩
        rw [iterate_succ_apply, htake]
        exact hfound

/-- A pipeline that keeps its ledger is orderly. -/
theorem orderly (h : Keeps hashOf heights s.pipeline s.ledger)
    (hinj : Function.Injective heights) : Orderly hashOf heights s where
  kept hash hmem := (h.holds.exact hash).mp hmem
  taken block height wallets htaken := by
    obtain ⟨htake, -⟩ | ⟨lowest, hready, hfirst, hbelow, htake⟩ := h.take_cases
    · rw [htake] at htaken
      cases htaken
    · rw [htake] at htaken
      obtain ⟨rfl, rfl, rfl⟩ := htaken
      refine ⟨hready, rfl, rfl, hfirst, fun hash hmem => lt_of_le_of_ne (hbelow hash hmem) ?_⟩
      intro heq
      exact h.apart hash hmem (hinj heq ▸ hready)
  eventually hash hready hlowest := h.eventually hinj hready hlowest
  once := h.once
  complete hcomp := by
    simp only [isComplete, Bool.and_eq_true, decide_eq_true_eq] at hcomp
    obtain ⟨⟨-, hdownloaded⟩, hpend⟩ := hcomp
    refine ⟨?_, eq_empty_of_forall_notMem fun hash hmem => ?_⟩
    · rw [h.pending] at hpend
      exact image_eq_empty.mp hpend
    · obtain ⟨block, hget, -⟩ := h.ready hash hmem
      rw [size_eq_zero_iff.mp hdownloaded] at hget
      cases hget

end Keeps

/-- Every run of a pipeline in which requests leave and the store supplies no block whose
download is outstanding is orderly: blocks are taken in height order, once for each time they
became ready and with the wallets that asked for them, and none is lost. -/
theorem run_orderly {heights : BlockHash → Nat} (hinj : Function.Injective heights)
    (ops : List (Op Block)) (hkeys : ∀ op ∈ ops, op.KeyedBy hashOf heights)
    (hregular : Runs.Along (step hashOf) (Regular hashOf) start ops) :
    Orderly hashOf heights (Runs.run (step hashOf) start ops) := by
  refine Keeps.orderly ?_ hinj
  refine @Runs.invariant_run _ _ (step hashOf)
    (fun s => Keeps hashOf heights s.pipeline s.ledger)
    (fun s op => Regular hashOf s op ∧ op.KeyedBy hashOf heights)
    (fun s op hs hop => hs.step hinj hop.2 hop.1) start ops .new ?_
  exact hregular.and_of_forall_mem hkeys

namespace TwoBlocks

/-- Blocks that are their hashes, at the heights they encode. -/
def heightOf (hash : BlockHash) : Nat := hash.val

def keyOf (hash : BlockHash) : FilterMatchKey := ⟨heightOf hash, hash⟩

/-- Two blocks arrive in the wrong order, and another wallet asks for the second. -/
def outOfOrder : List (Op BlockHash) :=
  [.queue [(keyOf 1, {7}), (keyOf 2, {7})], .send 0 0 fun _ => true, .receive 2,
    .queue [(keyOf 2, {8})], .receive 1, .take]

/-- The block store supplies a block in flight, which is taken and then received. -/
def suppliedInFlight : List (Op BlockHash) :=
  [.queue [(keyOf 1, {7})], .send 0 0 fun _ => true, .addFromStorage 1 (heightOf 1) {8}, .take,
    .receive 1]

/-- A request does not leave; the block above it arrives later. -/
def lostRequest : List (Op BlockHash) :=
  [.queue [(keyOf 1, {7})], .send 0 0 fun _ => false, .queue [(keyOf 2, {7})],
    .send 0 0 fun _ => true, .receive 2]

/-- The second block is taken after the first, for both wallets. -/
theorem run_orderly_outOfOrder :
    Orderly id heightOf (Runs.run (step id) start outOfOrder) ∧
    (takeNextOrderedBlock id (Runs.run (step id) start outOfOrder).pipeline).2 =
      some (2, 2, {7, 8}) := by
  refine ⟨run_orderly id Fin.val_injective outOfOrder (by decide +kernel) ?_, by decide +kernel⟩
  exact ⟨trivial, fun _ => rfl, trivial, trivial, trivial, trivial, trivial⟩

/-- A block supplied in flight is taken again when its download arrives, for no wallet. After a
lost request the block is neither queued nor in flight, and the block above it is not handed
out. -/
theorem supplied_twice_or_lost :
    (∀ op ∈ suppliedInFlight ++ lostRequest, op.KeyedBy id heightOf) ∧
    ((Runs.run (step id) start suppliedInFlight).ledger.returned 1 = 1 ∧
      (takeNextOrderedBlock id (Runs.run (step id) start suppliedInFlight).pipeline).2 =
        some (1, 1, ∅) ∧
      ¬ Orderly id heightOf (Runs.run (step id) start suppliedInFlight)) ∧
    (1 ∈ (Runs.run (step id) start lostRequest).ledger.undelivered ∧
      2 ∈ (Runs.run (step id) start lostRequest).ledger.ready ∧
      (takeNextOrderedBlock id (Runs.run (step id) start lostRequest).pipeline).2 = none ∧
      ¬ Orderly id heightOf (Runs.run (step id) start lostRequest)) := by
  have htaken : (takeNextOrderedBlock id
      (Runs.run (step id) start suppliedInFlight).pipeline).2 = some (1, 1, ∅) := by decide +kernel
  have hundelivered : 1 ∈ (Runs.run (step id) start lostRequest).ledger.undelivered := by
    decide +kernel
  refine ⟨by decide +kernel, ⟨by decide +kernel, htaken, fun h => ?_⟩,
    ⟨hundelivered, by decide +kernel, by decide +kernel, fun h => ?_⟩⟩
  · exact absurd (h.taken 1 1 ∅ htaken).1 (by decide +kernel)
  · exact absurd (h.kept 1 hundelivered) (by decide +kernel)

end TwoBlocks

end BlocksPipeline

end Dashcore
