import Dashcore.Sync.LockAnnouncements

/-!
# Who holds the slot of a transaction

The InstantSend manager caches one lock for each transaction. A lock whose signature could not be
verified is cached as well, and a lock for a transaction that has one is dropped without a look at
its signature. So a lock that verifies locks its transaction only if its slot is free.

There is a second, smaller gap. A full cache gives up its oldest entry after it has taken the new
one, and with a clock that went back the oldest entry can be the new one.
-/

namespace Dashcore

open SortedMap

/-! ### The first least element in an order of iteration -/

/-- The least element that comes first in an order is the least for both, in this order. -/
theorem lex_le_of_argmin_insertionSort {α : Type} [DecidableEq α] {f g : α → Nat} {l : List α}
    {a b : α} (ha : (l.insertionSort fun x y => g x ≤ g y).argmin f = some a) (hb : b ∈ l) :
    f a < f b ∨ f a = f b ∧ g a ≤ g b := by
  obtain ⟨hmem, hleast, hfirst⟩ := List.argmin_eq_some_iff.mp ha
  have hb : b ∈ l.insertionSort fun x y => g x ≤ g y := (List.mem_insertionSort _).mpr hb
  rcases (hleast b hb).lt_or_eq with hlt | heq
  · exact .inl hlt
  refine .inr ⟨heq, ?_⟩
  have hsorted : (l.insertionSort fun x y => g x ≤ g y).Pairwise fun x y => g x ≤ g y := by
    exact List.pairwise_insertionSort _ l
  rcases (hfirst b hb heq.ge).lt_or_eq with hlt | hsame
  · have hget := List.pairwise_iff_getElem.mp hsorted _ _ (List.idxOf_lt_length_of_mem hmem)
      (List.idxOf_lt_length_of_mem hb) hlt
    rwa [List.getElem_idxOf, List.getElem_idxOf] at hget
  · exact ((List.idxOf_inj hmem).mp hsame).symm ▸ le_rfl

namespace InstantSendManager

section

variable (m : InstantSendManager)

/-- Whether a transaction has a validated lock. -/
def isTransactionLocked (txid : Txid) : Bool :=
  ((m.instantlocks.get? txid).map InstantLockEntry.validated).getD false

/-- The cache keeps a new entry: it has room, or an older entry to give up. Of entries of one
time the first in iteration order goes. -/
def Keeps (now : Nat) (order : Txid → Nat) (txid : Txid) : Prop :=
  m.instantlocks.size < maxCacheSize ∨
    ∃ other entry, m.instantlocks.get? other = some entry ∧
      (entry.receivedAt < now ∨ entry.receivedAt = now ∧ order other < order txid)

/-- No lock holds the slot of the transaction and the cache keeps a new one, or a lock that was
verified holds it. -/
def SlotFree (now : Nat) (order : Txid → Nat) (txid : Txid) : Prop :=
  match m.instantlocks.get? txid with
  | some entry => entry.validated = true
  | none => m.Keeps now order txid

end

variable {m : InstantSendManager} {order : Txid → Nat}

/-- The entry that goes from a full cache is the new one only if no other comes before it. -/
theorem evicted_iff (horder : order.Injective)
    {txid : Txid} {entry : InstantLockEntry} {oldest : (_ : Txid) × InstantLockEntry}
    (hnone : m.instantlocks.get? txid = none)
    (holdest : ((m.instantlocks.insert txid entry).entries.insertionSort fun a b =>
      order a.1 ≤ order b.1).argmin (fun e => e.2.receivedAt) = some oldest) :
    oldest.1 = txid ↔ ¬ ∃ other e, m.instantlocks.get? other = some e ∧
      (e.receivedAt < entry.receivedAt ∨
        e.receivedAt = entry.receivedAt ∧ order other < order txid) := by
  have hleast {b : (_ : Txid) × InstantLockEntry}
      (hb : b ∈ (m.instantlocks.insert txid entry).entries) :
      oldest.2.receivedAt < b.2.receivedAt ∨
        oldest.2.receivedAt = b.2.receivedAt ∧ order oldest.1 ≤ order b.1 :=
    @lex_le_of_argmin_insertionSort _ _ (fun e => e.2.receivedAt) (fun e => order e.1) _ _ _
      holdest hb
  have hmem : (m.instantlocks.insert txid entry).get? oldest.1 = some oldest.2 :=
    mem_entries_iff.mp
      ((List.mem_insertionSort _).mp (List.argmin_eq_some_iff.mp holdest).1)
  rw [get?_insert] at hmem
  constructor
  · rintro hkey ⟨other, e, hother, hbefore⟩
    rw [if_pos hkey.symm] at hmem
    have hentry := Option.some.inj hmem
    have hne : other ≠ txid := by
      rintro rfl
      rw [hnone] at hother
      cases hother
    have hkept : (⟨other, e⟩ : (_ : Txid) × InstantLockEntry) ∈
        (m.instantlocks.insert txid entry).entries := by
      rw [mem_entries_iff, get?_insert, if_neg hne.symm]
      exact hother
    have hle := hleast hkept
    rw [← hentry, hkey] at hle
    dsimp only at hle
    omega
  · intro hnot
    by_contra hkey
    rw [if_neg (Ne.symm hkey)] at hmem
    have hnew : (⟨txid, entry⟩ : (_ : Txid) × InstantLockEntry) ∈
        (m.instantlocks.insert txid entry).entries := by
      rw [mem_entries_iff, get?_insert_self]
    have hle := hleast hnew
    have hdistinct : order oldest.1 ≠ order txid := fun h => hkey (horder h)
    refine hnot ⟨oldest.1, oldest.2, hmem, ?_⟩
    dsimp only at hle
    omega

/-- A new entry is in the cache afterwards exactly if the cache keeps it. -/
theorem get?_storeInstantlock (horder : order.Injective) {txid : Txid} {entry : InstantLockEntry}
    (hnone : m.instantlocks.get? txid = none) :
    (m.Keeps entry.receivedAt order txid →
      (m.storeInstantlock order txid entry).instantlocks.get? txid = some entry) ∧
    (¬ m.Keeps entry.receivedAt order txid →
      (m.storeInstantlock order txid entry).instantlocks.get? txid = none) := by
  have hsize : (m.instantlocks.insert txid entry).size = m.instantlocks.size + 1 :=
    (perm_insert hnone entry).length_eq
  have hget : (m.instantlocks.insert txid entry).get? txid = some entry := by
    rw [get?_insert_self]
  unfold storeInstantlock
  dsimp only
  rw [hsize]
  by_cases hfull : maxCacheSize < m.instantlocks.size + 1
  · rw [if_pos hfull]
    have hkeeps : m.Keeps entry.receivedAt order txid ↔
        ∃ other e, m.instantlocks.get? other = some e ∧ (e.receivedAt < entry.receivedAt ∨
          e.receivedAt = entry.receivedAt ∧ order other < order txid) :=
      or_iff_right (by omega)
    split
    · next oldest holdest =>
      have hevicted := evicted_iff horder hnone holdest
      rw [hkeeps, get?_erase, hget]
      constructor
      · intro hbefore
        exact if_neg fun h => hevicted.mp h hbefore
      · intro hnot
        exact if_pos (hevicted.mpr hnot)
    · next hnil =>
      -- the cache has the new entry, so the search finds one
      have hempty := List.argmin_eq_none.mp hnil
      have hmem := (List.mem_insertionSort fun a b => order a.1 ≤ order b.1).mpr
        (mem_entries_iff.mpr hget)
      rw [hempty] at hmem
      cases hmem
  · rw [if_neg hfull]
    exact ⟨fun _ => hget, fun hnot => absurd (.inl (by omega)) hnot⟩

section Validation

variable {Engine : Type} {verifyIsLock : Engine → InstantLock → Except MessageVerificationError Unit}

/-- One lock that verifies: its transaction is locked afterwards exactly if the slot is free. -/
theorem processInstantlock_locked_iff {engine : Engine} {now : Nat} (horder : order.Injective) {lock : InstantLock}
    (hstructure : lock.validateStructure = true) (hverify : verifyIsLock engine lock = .ok ()) :
    (processInstantlock verifyIsLock engine m now order lock).1.isTransactionLocked lock.txid =
        true ↔ m.SlotFree now order lock.txid := by
  have hvalid : validateSignature verifyIsLock engine lock = true := by
    rw [validateSignature, hverify]
    rfl
  unfold processInstantlock SlotFree isTransactionLocked contains
  cases hget : m.instantlocks.get? lock.txid with
  | some entry => simp [hget]
  | none =>
    have hstore := @get?_storeInstantlock m order horder lock.txid
      { instantLock := lock, receivedAt := now, validated := true } hget
    rw [if_neg (by simp), hstructure, if_neg (by simp), hvalid]
    by_cases hkeeps : m.Keeps now order lock.txid
    · simp [hstore.1 hkeeps, hkeeps]
    · simp [hstore.2 hkeeps, hkeeps]

end Validation

end InstantSendManager

/-! ### Runs -/

/-- The manager, and the engine it checks signatures with. -/
structure LockReceiver (Engine : Type) where
  engine : Engine
  manager : InstantSendManager

namespace LockReceiver

/-- What can happen next. -/
inductive Action (Engine : Type)
  | engineUpdated (engine : Engine)
  | input (input : InstantSendInput)

section Step

variable {Engine : Type} (verifyIsLock : Engine → InstantLock → Except MessageVerificationError Unit)

def start (engine : Engine) : LockReceiver Engine := ⟨engine, .new⟩

def step (s : LockReceiver Engine) : Action Engine → LockReceiver Engine
  | .engineUpdated engine => { s with engine }
  | .input input => { s with manager := (s.manager.handle verifyIsLock s.engine input).1 }

/-- For every run and every lock of valid structure that verifies when it is received: the
transaction of the lock is locked afterwards exactly if no lock that did not verify held its slot
and the cache has room for it or an older entry to give up. -/
theorem locked_iff_slotFree (engine : Engine) (actions : List (Action Engine)) (now : Nat)
    (order : Txid → Nat) (horder : order.Injective) (lock : InstantLock)
    (hstructure : lock.validateStructure = true)
    (hverify : verifyIsLock (Runs.run (step verifyIsLock) (start engine) actions).engine lock =
      .ok ()) :
    (Runs.run (step verifyIsLock) (start engine)
        (actions ++ [.input (.islock now order lock)])).manager.isTransactionLocked lock.txid =
        true ↔
      (Runs.run (step verifyIsLock) (start engine) actions).manager.SlotFree now order lock.txid := by
  rw [Runs.run_append]
  exact InstantSendManager.processInstantlock_locked_iff horder hstructure hverify

end Step

/-! ### A forged lock before the genuine one -/

namespace ForgedFirst

open InstantSendSystem.ForgedLock (lock verifyIsLock)

/-- An engine under which signatures of ones verify. -/
def initial : LockReceiver MasternodeListEngine := start InstantSendSystem.ForgedLock.engine

/-- The lock with this signature byte is received. -/
def receive (byte : UInt8) : Action MasternodeListEngine := .input (.islock 0 Fin.val (lock byte))

theorem genuine_locks :
    (step verifyIsLock initial (receive 1)).manager.isTransactionLocked 9 = true := by
  have hfree : initial.manager.SlotFree 0 Fin.val 9 := by
    exact .inl (by decide)
  exact (locked_iff_slotFree verifyIsLock InstantSendSystem.ForgedLock.engine [] 0 Fin.val
    Fin.val_injective (lock 1) (by decide +kernel) (by decide +kernel)).mpr hfree

/-- The genuine lock verifies, but the forged one came first, and the payment is not locked. -/
theorem forged_blocks_genuine :
    let before := Runs.run (step verifyIsLock) initial [receive 2]
    (lock 1).validateStructure = true ∧
      verifyIsLock before.engine (lock 1) = .ok () ∧
      (step verifyIsLock before (receive 1)).manager.isTransactionLocked (lock 1).txid = false := by
  decide +kernel

end ForgedFirst

end LockReceiver

end Dashcore
