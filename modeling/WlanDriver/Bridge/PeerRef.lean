import WlanDriver.Bridge.Ownership

/-!
# References of the peer

The reference of the peer is dropped by a teardown, by an error exit of a build, or by the release work
that the notifier schedules; a transaction and a saved owner hold references of their own. Whatever
the order, and whenever the peer is unregistered, each reference is dropped once : at every release of
`bridge_lifecycle_lock` the module holds one reference for a live bridge that has not dropped its own
yet, and one for a saved owner (`peer_refs_balanced`). Promiscuity and the hook are there exactly
while a live bridge captures the peer.
-/

namespace WlanDriver.Bridge

open Instance

/-! ## What one instance holds -/

section Holds

variable (br : Instance) (d : Dev)

/-- `1` while the instance has not dropped its reference of `d`. -/
def Instance.refs : ℤ :=
  if br.peerDev = d ∧ br.release ≠ .done then 1 else 0

/-- `1` while the instance captures `d`. -/
def Instance.captures : ℤ :=
  if br.peerDev = d ∧ br.release = .held then 1 else 0

theorem holds_of_ne {r : Res} (hw : r ≠ .w2pThread) (hp : r ≠ .p2wThread) :
    br.holds r = br.holdsPeer r := by
  simp [holds, Ledger.onceIf_of_ne, hw, hp]

theorem holds_ref : br.holds (.ref d) = br.refs d := by
  have hhook : br.hook ≠ .ref d := by
    unfold hook
    split_ifs <;> simp
  rw [holds_of_ne br (by simp) (by simp), holdsPeer, refs]
  cases br.release <;> simp [Pi.single_apply, hhook.symm, eq_comm]

theorem holds_promisc : br.holds (.promisc d) = br.captures d := by
  have hhook : br.hook ≠ .promisc d := by
    unfold hook
    split_ifs <;> simp
  rw [holds_of_ne br (by simp) (by simp), holdsPeer, captures]
  cases br.release <;> simp [Pi.single_apply, hhook.symm, eq_comm]

theorem holds_rxHandler :
    br.holds (.rxHandler d) = if br.usePacketType then 0 else br.captures d := by
  rw [holds_of_ne br (by simp) (by simp), holdsPeer, captures, hook]
  cases br.release <;> cases br.usePacketType <;> simp [Pi.single_apply, eq_comm]

theorem holds_pack : br.holds (.pack d) = if br.usePacketType then br.captures d else 0 := by
  rw [holds_of_ne br (by simp) (by simp), holdsPeer, captures, hook]
  cases br.release <;> cases br.usePacketType <;> simp [Pi.single_apply, eq_comm]

end Holds

/-! ## What the module holds -/

/-- The owner's bridge. -/
def Global.live (g : Global) : Option Instance :=
  g.owner.bind g.bridge

/-- `1` while an owner with the peer `d` is saved. -/
def Global.savedRefs (g : Global) (d : Dev) : ℤ :=
  g.suspended.elim 0 fun s => if s.peerDev = d then 1 else 0

section Ledger

variable {g : Global}

theorem savedHolds_ref (d : Dev) : g.savedHolds (.ref d) = g.savedRefs d := by
  unfold Global.savedHolds Global.savedRefs
  cases g.suspended <;> simp [Pi.single_apply, eq_comm]

theorem savedHolds_of_ne {r : Res} (hr : ∀ d, r ≠ .ref d) : g.savedHolds r = 0 := by
  unfold Global.savedHolds
  cases g.suspended <;> simp [hr]

/-- The ledger is what the live bridge and the saved owner hold. -/
theorem LifeInv.kernel_eq (hi : LifeInv g) (r : Res) :
    g.kernel r = (g.live.elim 0 fun br => br.holds r) + g.savedHolds r := by
  cases hi with
  | vacant hv hk => simp [Global.live, hv.owner, hk]
  | owned ho hk => simp [Global.live, ho.owner, ho.bridge, hk, add_comm]

theorem LifeInv.live_of_bridge (hi : LifeInv g) {h : Handle} {br : Instance}
    (hb : g.bridge h = some br) : g.live = some br := by
  have ho := hi.ownerInv.owner_of_bridge h (by simp [hb])
  rw [Global.live, ho]
  exact hb

end Ledger

/-- **References are balanced.** In every reachable state the only bridge is the owner's, and for every
device the module holds one reference for a live bridge on it that has not dropped its own yet, and one
for a saved owner. Promiscuity and the hook, of the kind the bridge uses, are held once while a live
bridge captures the device, and not otherwise. -/
theorem peer_refs_balanced {g : Global} (h : lifeSystem.Reachable g) :
    (∀ h br, g.bridge h = some br → g.live = some br) ∧
    ∀ d, g.kernel (.ref d) = (g.live.elim 0 fun br => br.refs d) + g.savedRefs d ∧
      g.kernel (.promisc d) = (g.live.elim 0 fun br => br.captures d) ∧
      g.kernel (.rxHandler d) =
        (g.live.elim 0 fun br => if br.usePacketType then 0 else br.captures d) ∧
      g.kernel (.pack d) =
        (g.live.elim 0 fun br => if br.usePacketType then br.captures d else 0) := by
  have hi := LifeInv.of_reachable h
  refine ⟨fun _ _ hb => hi.live_of_bridge hb, fun d => ⟨?_, ?_, ?_, ?_⟩⟩
  · rw [hi.kernel_eq, savedHolds_ref]
    simp only [holds_ref]
  · rw [hi.kernel_eq, savedHolds_of_ne (by simp), add_zero]
    simp only [holds_promisc]
  · rw [hi.kernel_eq, savedHolds_of_ne (by simp), add_zero]
    simp only [holds_rxHandler]
  · rw [hi.kernel_eq, savedHolds_of_ne (by simp), add_zero]
    simp only [holds_pack]

/-- The bridge of the second adapter holds its reference while the suspended first one holds another,
and the peer is unregistered : the capture is undone at once and the reference later. -/
theorem peer_refs_balanced_unregistered :
    ∃ g, lifeSystem.Reachable g ∧ g.kernel (.ref 3) = 2 ∧ g.kernel (.promisc 3) = 0 ∧
      (g.live.elim 0 fun br => br.refs 3) + g.savedRefs 3 = 2 := by
  obtain ⟨g, hg, hP⟩ := System.exists_reachable_of_run (M := lifeSystem)
    (P := fun g => decide (g.kernel (.ref 3) = 2 ∧ g.kernel (.promisc 3) = 0))
    (l := replacedRun ++ [LifeAct.async (.event twinWorld 3 .unregister)]) rfl (by decide +kernel)
  obtain ⟨hr, hp⟩ : _ ∧ _ := by simpa only [decide_eq_true_eq] using hP
  refine ⟨g, hg, hr, hp, ?_⟩
  rw [← ((peer_refs_balanced hg).2 3).1]
  exact hr

end WlanDriver.Bridge
