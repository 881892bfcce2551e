import Dashcore.Wallet.AddressPool

/-!
# Address pools over time

A pool stores its addresses under consecutive indices. Deriving at the next index keeps that, and
maintenance derives until the gap behind the highest used index is filled. It compares the target
with index 0 if the pool is empty, so with a gap of one address an empty pool stays empty.
-/

namespace Dashcore

open SortedMap

namespace AddressPool

variable (p : AddressPool)

/-- The index after the highest generated one. -/
def nextIndex : Nat := (p.highestGenerated.map (· + 1)).getD 0

/-- Exactly the indices up to the highest generated one are stored. -/
def Contiguous : Prop := ∀ i, p.addresses.contains i = true ↔ i < p.nextIndex

variable {p} {keySource : KeySource}

/-- What an address derived at the next index changes. -/
theorem Contiguous.addDerived (hp : p.Contiguous) (hash : PubkeyHash) (key : PublicKeyType) :
    (p.addDerived p.nextIndex hash key).nextIndex = p.nextIndex + 1 ∧
    (p.addDerived p.nextIndex hash key).Contiguous ∧ ∃ info : AddressInfo,
      (p.addDerived p.nextIndex hash key).addresses.get? p.nextIndex = some info ∧
      (p.addDerived p.nextIndex hash key).addresses.entries =
        p.addresses.entries ++ [⟨info.index, info⟩] := by
  have hnext : (p.addDerived p.nextIndex hash key).nextIndex = p.nextIndex + 1 := by
    simp only [nextIndex, AddressPool.addDerived]
    cases p.highestGenerated <;> simp
  refine ⟨hnext, fun i => ?_, _, (get?_insert ..).trans (if_pos rfl), ?_⟩
  · have hi := hp i
    rw [hnext]
    simp only [AddressPool.addDerived, contains, get?_insert] at hi ⊢
    split_ifs with heq
    · simp [← heq]
    · rw [hi]
      omega
  · refine insertEntry_of_lt fun e he => (hp e.1).mp ?_
    exact contains_iff.mpr ⟨e.2, mem_entries_iff.mp he⟩

namespace OneGap

/-- The key at an index has the index as its hash. -/
def keys : KeySource := fun _ i => some (⟨List.replicate 19 0 ++ [UInt8.ofNat i], by simp⟩, .ecdsa [])

end OneGap

end AddressPool

end Dashcore
