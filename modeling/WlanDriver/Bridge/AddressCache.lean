import WlanDriver.Lib.System
import WlanDriver.Bridge.Instance

/-!
# The IPv4 caches of the bridge

A bridge keeps one IPv4 address of each of its two devices (`wlan_ipv4`, `peer_ipv4`). `moal_bridge_inetaddr_event` and
`moal_bridge_netdev_event` keep them up to date : what comes up is stored, and else the head of the address list is read
again.

The kernel changes an address list and calls the notifier under RTNL, and so come the netdev events : nothing
happens between a change (`note`) and its notification. Where an address goes in its list, and where a secondary
address goes that is promoted, is left open.

`addr_cache_fresh` : when no notification is due, a cache holds an address of its device, or 0 if there is none.
-/

namespace WlanDriver.Bridge

open Function

/-- The two devices of a bridge. -/
inductive Port
  | wlan
  | peer
  deriving DecidableEq

/-- `struct in_ifaddr`. The kernel does not insert the address 0. -/
structure InIfaddr where
  ifaLocal : UInt32
  secondary : Bool
  ne_zero : ifaLocal ≠ 0
  deriving DecidableEq

/-- An address goes to place `k` of its list, or behind it. -/
def insertIfa (l : List InIfaddr) (k : ℕ) (ifa : InIfaddr) : List InIfaddr :=
  l.take k ++ ifa :: l.drop k

/-- The address lists, the caches, whether the peer was unregistered, and the notification that is due. -/
structure AddrCaches where
  ifaList : Port → List InIfaddr
  ipv4 : Port → UInt32
  peerReleased : Bool
  note : Option (Port × NetKind × InIfaddr)

namespace AddrCaches

variable (s : AddrCaches)

/-- `moal_bridge_get_ipv4`. -/
def getIpv4 (p : Port) : UInt32 :=
  match s.ifaList p with
  | [] => 0
  | ifa :: _ => ifa.ifaLocal

/-- `WRITE_ONCE` of a cache. -/
def setIpv4 (p : Port) (ip : UInt32) : AddrCaches :=
  { s with ipv4 := update s.ipv4 p ip }

/-- `moal_bridge_inetaddr_event`, for a device of the bridge or for another. -/
def inetaddrEvent (dev : Option Port) (event : NetKind) (ifa : InIfaddr) : AddrCaches :=
  match dev with
  | none => s
  | some p =>
    match event with
    | .up => s.setIpv4 p ifa.ifaLocal
    | .down => s.setIpv4 p (s.getIpv4 p)
    | _ => s

/-- What `moal_bridge_netdev_event` does with the caches. -/
def netdevEvent (dev : Option Port) (event : NetKind) : AddrCaches :=
  match dev with
  | none => s
  | some p =>
    match event with
    | .up | .change => if s.peerReleased then s else (s.setIpv4 .peer (s.getIpv4 .peer)).setIpv4 .wlan (s.getIpv4 .wlan)
    | .unregister => if p = .peer then { s with peerReleased := true } else s
    | .down | .changename => s

/-- An address list changes, and its notification is due. -/
def change (p : Port) (l : List InIfaddr) (event : NetKind) (ifa : InIfaddr) : AddrCaches :=
  { s with ifaList := update s.ifaList p l, note := some (p, event, ifa) }

/-- What happens under RTNL. -/
inductive Op
  | insert (p : Port) (k : ℕ) (ifa : InIfaddr)
  | remove (p : Port) (k : ℕ)
  /-- A secondary address becomes a primary one, and goes to another place. -/
  | promote (p : Port) (k j : ℕ)
  | deliver
  | inetaddrOther (event : NetKind) (ifa : InIfaddr)
  | netdev (dev : Option Port) (event : NetKind)

def step : Op → Option AddrCaches
  | .insert p k ifa =>
    if s.note = none then some (s.change p (insertIfa (s.ifaList p) k ifa) .up ifa) else none
  | .remove p k =>
    match s.note, (s.ifaList p)[k]? with
    | none, some ifa => some (s.change p ((s.ifaList p).eraseIdx k) .down ifa)
    | _, _ => none
  | .promote p k j =>
    match s.note, (s.ifaList p)[k]? with
    | none, some ifa =>
      let ifa := { ifa with secondary := false }
      some (s.change p (insertIfa ((s.ifaList p).eraseIdx k) j ifa) .up ifa)
    | _, _ => none
  | .deliver =>
    match s.note with
    | some (p, event, ifa) => some { s.inetaddrEvent (some p) event ifa with note := none }
    | none => none
  | .inetaddrOther event ifa => if s.note = none then some (s.inetaddrEvent none event ifa) else none
  | .netdev dev event => if s.note = none then some (s.netdevEvent dev event) else none

/-- After `moal_bridge_init` : it reads both lists under RTNL, when the notifiers are registered. -/
def Init : Prop :=
  s.note = none ∧ s.peerReleased = false ∧ ∀ p, s.ipv4 p = s.getIpv4 p

end AddrCaches

/-- The address lists and the caches of a live bridge. -/
def addrSystem : System AddrCaches AddrCaches.Op :=
  ⟨AddrCaches.Init, AddrCaches.step⟩

namespace AddrCaches

variable {s s' : AddrCaches} {p q : Port}

theorem mem_insertIfa (l : List InIfaddr) (k : ℕ) (ifa : InIfaddr) : ifa ∈ insertIfa l k ifa :=
  List.mem_append_right _ List.mem_cons_self

/-- A cache holds an address of its device, or 0 exactly if there is none. -/
structure Fresh (s : AddrCaches) (p : Port) : Prop where
  zero_iff : s.ipv4 p = 0 ↔ s.ifaList p = []
  configured : s.ipv4 p ≠ 0 → ∃ ifa ∈ s.ifaList p, ifa.ifaLocal = s.ipv4 p

/-- An address of the device is in the cache. -/
theorem Fresh.of_mem {ifa : InIfaddr} (hmem : ifa ∈ s.ifaList p) (hip : s.ipv4 p = ifa.ifaLocal) : Fresh s p := by
  refine ⟨?_, fun _ => ⟨ifa, hmem, hip.symm⟩⟩
  rw [hip]
  exact iff_of_false ifa.ne_zero (List.ne_nil_of_mem hmem)

/-- The list was read. -/
theorem Fresh.of_getIpv4 (hip : s.ipv4 p = s.getIpv4 p) : Fresh s p := by
  cases hl : s.ifaList p with
  | nil =>
    have hzero : s.ipv4 p = 0 := by rw [hip, getIpv4, hl]
    exact ⟨iff_of_true hzero hl, fun hne => absurd hzero hne⟩
  | cons ifa l =>
    have hmem : ifa ∈ s.ifaList p := by
      rw [hl]
      exact List.mem_cons_self
    exact .of_mem hmem (by rw [hip, getIpv4, hl])

/-- Only the list and the cache matter. -/
theorem Fresh.congr (h : Fresh s p) (hlist : s'.ifaList p = s.ifaList p) (hip : s'.ipv4 p = s.ipv4 p) : Fresh s' p := by
  refine ⟨?_, ?_⟩
  · rw [hlist, hip]
    exact h.zero_iff
  · rw [hlist, hip]
    exact h.configured

/-- What holds between the changes : a cache is fresh, or its notification is due and tells what happened. -/
structure CacheInv (s : AddrCaches) : Prop where
  fresh : ∀ p, (∀ event ifa, s.note ≠ some (p, event, ifa)) → Fresh s p
  due : ∀ p event ifa, s.note = some (p, event, ifa) → event = .up ∧ ifa ∈ s.ifaList p ∨ event = .down

theorem CacheInv.of_init (h : s.Init) : CacheInv s := by
  obtain ⟨hnote, -, hread⟩ := h
  refine ⟨fun p _ => .of_getIpv4 (hread p), fun p event ifa hdue => ?_⟩
  rw [hnote] at hdue
  exact absurd hdue nofun

theorem CacheInv.change (h : CacheInv s) (hnote : s.note = none) (p : Port) (l : List InIfaddr) {event : NetKind}
    {ifa : InIfaddr} (hdue : event = .up ∧ ifa ∈ l ∨ event = .down) : CacheInv (s.change p l event ifa) := by
  refine ⟨fun q hq => ?_, fun q event' ifa' hq => ?_⟩
  · have hne : q ≠ p := by
      rintro rfl
      exact hq event ifa rfl
    have hfresh : Fresh s q := h.fresh q fun _ _ hdue => absurd (hnote.symm.trans hdue) nofun
    exact hfresh.congr (update_of_ne hne _ _) rfl
  · cases hq
    simpa [AddrCaches.change] using hdue

/-- A notification makes its cache fresh. -/
theorem CacheInv.deliver (h : CacheInv s) {p : Port} {event : NetKind} {ifa : InIfaddr}
    (hnote : s.note = some (p, event, ifa)) : CacheInv { s.inetaddrEvent (some p) event ifa with note := none } := by
  refine ⟨fun q _ => ?_, nofun⟩
  by_cases hq : q = p
  · subst hq
    obtain ⟨rfl, hmem⟩ | rfl := h.due q event ifa hnote
    · exact .of_mem hmem (update_self _ _ _)
    · exact .of_getIpv4 (update_self _ _ _)
  · have hfresh : Fresh s q := h.fresh q fun event' ifa' hdue => by
      rw [hnote] at hdue
      cases hdue
      exact hq rfl
    have hip : (s.inetaddrEvent (some p) event ifa).ipv4 q = s.ipv4 q := by
      obtain ⟨rfl, -⟩ | rfl := h.due p event ifa hnote
      · exact update_of_ne hq _ _
      · exact update_of_ne hq _ _
    refine hfresh.congr ?_ hip
    unfold inetaddrEvent
    dsimp only
    split <;> rfl

/-- A netdev event reads both lists, or neither. -/
theorem CacheInv.netdevEvent (h : CacheInv s) (hnote : s.note = none) (dev : Option Port) (event : NetKind) :
    CacheInv (s.netdevEvent dev event) := by
  have hread : CacheInv ((s.setIpv4 .peer (s.getIpv4 .peer)).setIpv4 .wlan (s.getIpv4 .wlan)) := by
    refine ⟨fun p _ => .of_getIpv4 ?_, fun p event ifa hdue => absurd (hnote.symm.trans hdue) nofun⟩
    cases p <;> rfl
  have hrelease : CacheInv { s with peerReleased := true } :=
    ⟨fun p hp => (h.fresh p hp).congr rfl rfl, h.due⟩
  unfold AddrCaches.netdevEvent
  cases dev with
  | none => exact h
  | some p =>
    cases event with
    | up | change =>
      dsimp only
      split_ifs
      · exact h
      · exact hread
    | unregister =>
      dsimp only
      split_ifs
      · exact hrelease
      · exact h
    | down | changename => exact h

theorem CacheInv.step (h : CacheInv s) {op : Op} (hs : s.step op = some s') : CacheInv s' := by
  unfold AddrCaches.step at hs
  cases op with
  | insert p k ifa =>
    dsimp only at hs
    split_ifs at hs with hnote
    cases hs
    exact h.change hnote p _ (.inl ⟨rfl, mem_insertIfa _ _ _⟩)
  | remove p k =>
    dsimp only at hs
    split at hs
    next ifa hnote hget =>
      cases hs
      exact h.change hnote p _ (.inr rfl)
    next => cases hs
  | promote p k j =>
    dsimp only at hs
    split at hs
    next ifa hnote hget =>
      cases hs
      exact h.change hnote p _ (.inl ⟨rfl, mem_insertIfa _ _ _⟩)
    next => cases hs
  | deliver =>
    dsimp only at hs
    split at hs
    next p event ifa hnote =>
      cases hs
      exact h.deliver hnote
    next => cases hs
  | inetaddrOther event ifa =>
    dsimp only at hs
    split_ifs at hs
    cases hs
    exact h
  | netdev dev event =>
    dsimp only at hs
    split_ifs at hs with hnote
    cases hs
    exact h.netdevEvent hnote dev event

/-- **The caches are fresh** whenever no notification is due. -/
theorem addr_cache_fresh (h : addrSystem.Reachable s) (hnote : s.note = none) (p : Port) : Fresh s p := by
  have hi : CacheInv s := h.invariant (fun _ => CacheInv.of_init) fun _ _ _ hi hs => hi.step hs
  exact hi.fresh p fun _ _ hdue => absurd (hnote.symm.trans hdue) nofun

/-- No addresses yet. -/
def unnumbered : AddrCaches :=
  ⟨fun _ => [], fun _ => 0, false, none⟩

/-- A primary address is removed, its secondary one is promoted, and then removed too. -/
theorem addr_cache_fresh_secondary : ∃ s, addrSystem.Reachable s ∧
    (s.note = none ∧ s.ipv4 .wlan = 0 ∧ s.ipv4 .peer = 0x0a000003) ∧ Fresh s .wlan ∧ Fresh s .peer := by
  obtain ⟨s, hs, hp⟩ := System.exists_reachable_of_run (M := addrSystem)
    (P := fun s => s.note = none ∧ s.ipv4 .wlan = 0 ∧ s.ipv4 .peer = 0x0a000003)
    (l := [.insert .wlan 0 ⟨0x0a000001, false, by decide⟩, .deliver, .insert .wlan 1 ⟨0x0a000002, true, by decide⟩, .deliver,
      .insert .peer 0 ⟨0x0a000003, false, by decide⟩, .deliver, .remove .wlan 0, .deliver, .promote .wlan 0 0, .deliver,
      .netdev (some .wlan) .change, .remove .wlan 0, .deliver])
    (s := unnumbered) ⟨rfl, rfl, fun _ => rfl⟩ (by decide +kernel)
  have hend := of_decide_eq_true hp
  exact ⟨s, hs, hend, addr_cache_fresh hs hend.1 .wlan, addr_cache_fresh hs hend.1 .peer⟩

end AddrCaches

end WlanDriver.Bridge
