import WlanDriver.Aggr.Transmit

/-!
# Aggregation conserves packets

What a call has in hand is accounted for by the numbers of the dequeues (`Accounts`) : they are in aggregates or in hand,
in order, and completed but for those that are not copied yet. `Inv.step` : a step that meets `Sound` keeps that.

`conserved` : along every run in which the list of a call is still there, and for the same receiver, when the lock is
taken again, and the first packet fits, every packet is in one aggregate and completed once, every aggregate is disposed
of, and `amsdu_txq` is empty between calls. `not_conserved` is what happens else.
-/

set_option linter.unusedSectionVars false

namespace WlanDriver.Aggr

open List Option

open Tx (Priv TxEnv MlanBuffer Result)

/-! ## Conditions -/

namespace Transmit

variable {ι : Type*} [DecidableEq ι] {cfg : Card ι} {s s' : Transmit ι}

/-- When the lock is taken again the list is there, and a packet that is taken from it is for `ra`. -/
def SameList (s : Transmit ι) (i : ι) (a : ℕ) (ra : List UInt8) (fits : MlanBuffer → Bool) : Prop :=
  match s.lists i a with
  | none => False
  | some l => l.bufHead.head?.any fits = true → l.ra = ra

/-- The first packet fits into an aggregate of its own. -/
def FirstFits (cfg : Card ι) (i : ι) (l : RaList) (headroom : ℕ) : Prop :=
  ∀ b ∈ l.bufHead.head?,
    ((cfg.priv i).txPdSizeof + (b.dataLen + 8) + headroom) % 2 ^ 32 ≤ min l.maxAmsdu cfg.txBufSize

/-- What the steps meet. -/
def Sound (cfg : Card ι) (s : Transmit ι) : Step ι → Prop
  | .start i a headroom alloc _ _ => cfg.sg = true ∨ alloc.isNone = true ∨ ∀ l ∈ s.lists i a, FirstFits cfg i l headroom
  | .copied =>
    match s.phase with
    | .copying c src u => 14 ≤ src.dataLen ∧ s.SameList c.iface c.list c.ra (c.add src u).fits
    | _ => True
  | .requeue _ =>
    match s.phase with
    | .refused c => ∀ l ∈ s.lists c.iface c.list, l.ra = c.ra
    | _ => True
  | .linked =>
    match s.phase with
    | .chaining k src _ =>
      14 ≤ src.dataLen ∧ 8 ≤ src.dataOffset ∧ s.SameList k.iface k.list k.ra (k.link src).1.fits
    | _ => True
  | .sendList _ _ =>
    match s.phase with
    | .chained k => ∀ x ∈ s.amsduTxq.head?, TxpdRoom (cfg.priv k.iface) x.1
    | _ => True
  | _ => True

instance decidableSameList (s : Transmit ι) (i : ι) (a : ℕ) (ra : List UInt8) (fits : MlanBuffer → Bool) :
    Decidable (s.SameList i a ra fits) := by
  unfold SameList
  split <;> infer_instance

instance decidableFirstFits (cfg : Card ι) (i : ι) (l : RaList) (headroom : ℕ) :
    Decidable (FirstFits cfg i l headroom) :=
  inferInstanceAs (Decidable (∀ b ∈ _, _))

instance decidableSound (cfg : Card ι) (s : Transmit ι) (o : Step ι) : Decidable (Sound cfg s o) := by
  unfold Sound
  split
  · infer_instance
  · split <;> infer_instance
  · split <;> infer_instance
  · split <;> infer_instance
  · split <;> infer_instance
  · infer_instance

end Transmit

/-! ## Conservation -/

/-- An aggregate that a call is done with is disposed of, and if it is put back it is in a list of its receiver; it has
packets, all for its receiver, and their octets. -/
structure Exit.Sound (x : Exit) : Prop where
  disposed : x.fate = .accepted ∨ x.fate = .completed ∨ x.fate = .requeued x.ra
  ne_nil : x.subs ≠ []
  ra : ∀ u ∈ x.subs, u.ra = x.ra
  octets : ∀ u ∈ x.subs, ∃ o ∈ x.sent, subframe u.frame <:+: o

def serials (us : List Sub) : List ℕ :=
  us.map Sub.serial

namespace Phase

variable {ι : Type*}

/-- The packets that the call in progress has in hand, when `q` is `amsdu_txq`. -/
def inHand (q : List (MlanBuffer × Sub)) : Phase ι → List ℕ
  | .idle => []
  | .copying c _ u => serials c.subs ++ [u.serial]
  | .sending c => serials c.subs
  | .refused c => serials c.subs
  | .chaining _ _ u => serials (q.map Prod.snd) ++ [u.serial]
  | .chained _ => serials (q.map Prod.snd)

/-- Those of them that are completed. -/
def copied : Phase ι → List ℕ
  | .copying c _ _ => serials c.subs
  | .sending c => serials c.subs
  | .refused c => serials c.subs
  | _ => []

/-- What holds of the call in progress. -/
def Good (cfg : Card ι) (q : List (MlanBuffer × Sub)) : Phase ι → Prop
  | .idle => q = []
  | .copying c src u => q = [] ∧ c.Good (cfg.priv c.iface) ∧ src.octets = u.frame ∧ u.ra = c.ra
  | .sending c => q = [] ∧ c.Good (cfg.priv c.iface) ∧ c.subs ≠ []
  | .refused c => q = [] ∧ c.Closed
  | .chaining k src u => k.Good q ∧ src.octets = u.frame ∧ u.ra = k.ra
  | .chained k => k.Good q

end Phase

namespace Transmit

variable {ι : Type*} [DecidableEq ι] {cfg : Card ι} {s s' : Transmit ι} {us done : List ℕ}

/-- The packets of the aggregates, in the order in which they were dequeued. -/
def aggregated (s : Transmit ι) : List ℕ :=
  s.exits.flatMap fun x => serials x.subs

/-- The packets that were dequeued are in aggregates or in hand, and completed but for those that are not copied yet. -/
structure Accounts (s : Transmit ι) (us done : List ℕ) : Prop where
  taken : s.aggregated ++ us = List.range s.taken
  completed : s.completed = s.aggregated ++ done
  exits : ∀ x ∈ s.exits, x.Sound

/-- The invariant. -/
structure Inv (cfg : Card ι) (s : Transmit ι) : Prop where
  accounts : s.Accounts (s.phase.inHand s.amsduTxq) s.phase.copied
  phase : s.phase.Good cfg s.amsduTxq

/-- A call is done with an aggregate that has all packets in hand. -/
theorem Accounts.finish {x : Exit} (h : s.Accounts us us) (hx : x.Sound) (hus : serials x.subs = us) :
    (s.finish x).Accounts [] [] := by
  have hagg : (s.finish x).aggregated = s.aggregated ++ us := by
    change (s.exits ++ [x]).flatMap _ = _
    rw [flatMap_append, flatMap_cons, flatMap_nil, append_nil, hus]
    rfl
  refine ⟨?_, ?_, ?_⟩
  · rw [hagg, append_nil]
    exact h.taken
  · rw [hagg, append_nil]
    exact h.completed
  · intro y hy
    rcases mem_append.mp hy with hy | hy
    · exact h.exits y hy
    · rw [mem_singleton] at hy
      exact hy ▸ hx

/-- Another packet is dequeued. -/
theorem Accounts.take (h : s.Accounts us done) (lists : ι → ℕ → Option RaList) (phase : Phase ι) :
    Accounts { s with lists := lists, phase := phase, taken := s.taken + 1 } (us ++ [s.taken]) done := by
  refine ⟨?_, h.completed, h.exits⟩
  change s.aggregated ++ (us ++ [s.taken]) = List.range (s.taken + 1)
  rw [← append_assoc, h.taken, range_succ]

/-- What the head of a loop comes to. -/
theorem takeHead_cases (s : Transmit ι) (i : ι) (a : ℕ) (l : RaList) (fits : MlanBuffer → Bool)
    (go : MlanBuffer → Sub → Phase ι) (stop : Phase ι) :
    (∃ b rest, l.bufHead = b :: rest ∧ fits b = true ∧ s.takeHead i a l fits go stop =
      { s with
        lists := s.setList i a (some { l with bufHead := rest })
        phase := go b ⟨s.taken, b.octets, l.ra⟩
        taken := s.taken + 1 }) ∨
      l.bufHead.head?.any fits = false ∧ s.takeHead i a l fits go stop = { s with phase := stop } := by
  unfold takeHead
  cases hl : l.bufHead with
  | nil => exact .inr ⟨rfl, rfl⟩
  | cons b rest =>
    cases hfits : fits b with
    | true => exact .inl ⟨b, rest, rfl, hfits, if_pos hfits⟩
    | false => exact .inr ⟨hfits, if_neg (by rw [hfits]; exact Bool.false_ne_true)⟩

/-- The loop of `wlan_11n_aggregate_pkt` goes on or ends. -/
theorem Inv.nextCopy {c : Copy ι} {l : RaList} (h : s.Accounts (serials c.subs) (serials c.subs))
    (hq : s.amsduTxq = []) (hc : c.Good (cfg.priv c.iface)) (hra : l.bufHead.head?.any c.fits = true → l.ra = c.ra)
    (hne : c.subs = [] → l.bufHead.head?.any c.fits = true) : Inv cfg (s.nextCopy c l) := by
  unfold Transmit.nextCopy
  rcases takeHead_cases s c.iface c.list l c.fits (.copying c) (.sending c) with
    ⟨b, rest, hl, hfits, heq⟩ | ⟨hnone, heq⟩
  · rw [heq]
    have hsame : l.ra = c.ra := hra (by rw [hl]; exact hfits)
    exact ⟨h.take _ _, hq, hc, rfl, hsame⟩
  · rw [heq]
    refine ⟨⟨h.taken, h.completed, h.exits⟩, hq, hc, fun hnil => ?_⟩
    rw [hne hnil] at hnone
    exact absurd hnone.symm Bool.false_ne_true

/-- The loop of `wlan_send_amsdu_subframe_list` goes on or ends. -/
theorem Inv.nextChain {k : Chain ι} {l : RaList} (h : s.Accounts (serials (s.amsduTxq.map Prod.snd)) [])
    (hk : k.Good s.amsduTxq) (hra : l.bufHead.head?.any k.fits = true → l.ra = k.ra) :
    Inv cfg (s.nextChain k l) := by
  unfold Transmit.nextChain
  rcases takeHead_cases s k.iface k.list l k.fits (.chaining k) (.chained k) with
    ⟨b, rest, hl, hfits, heq⟩ | ⟨-, heq⟩
  · rw [heq]
    have hsame : l.ra = k.ra := hra (by rw [hl]; exact hfits)
    exact ⟨h.take _ _, hk, rfl, hsame⟩
  · rw [heq]
    exact ⟨⟨h.taken, h.completed, h.exits⟩, hk⟩

/-- A call begins. -/
theorem Inv.start {i : ι} {a : ℕ} {l : RaList} {headroom : ℕ} {alloc : Option MlanBuffer} {maxMsduCount : ℕ}
    {env : TxEnv} (hs : s.Inv cfg) (hidle : s.phase = .idle)
    (hfits : cfg.sg = true ∨ alloc.isNone = true ∨ FirstFits cfg i l headroom) :
    Inv cfg (s.start cfg i a l headroom alloc maxMsduCount env) := by
  obtain ⟨haccounts, hgood⟩ := hs
  rw [hidle] at haccounts hgood
  have hq : s.amsduTxq = [] := hgood
  unfold Transmit.start
  split
  · exact ⟨hidle.symm ▸ haccounts, hidle.symm ▸ hgood⟩
  · next src rest hl =>
    split
    · refine Inv.nextChain ?_ ?_ fun _ => rfl
      · rw [hq]
        exact haccounts
      · rw [hq]
        exact ⟨rfl, rfl, fun _ hx => absurd hx not_mem_nil, fun _ hx => absurd hx not_mem_nil,
          fun _ hx => absurd hx.symm (some_ne_none _)⟩
    · next hsg =>
      split
      · exact ⟨hidle.symm ▸ haccounts, hidle.symm ▸ hgood⟩
      · next new =>
        have hfirst : FirstFits cfg i l headroom := by
          rcases hfits with h | h | h
          · exact absurd h hsg
          · exact absurd h Bool.false_ne_true
          · exact h
        refine Inv.nextCopy haccounts hq ?_ (fun _ => rfl) fun _ => ?_
        · exact ⟨⟨_, rfl⟩, fun _ hf => absurd hf not_mem_nil, fun _ hu => absurd hu not_mem_nil, rfl⟩
        · rw [hl]
          exact decide_eq_true (hfirst src (by rw [hl]; rfl))

/-- A ready aggregate is handed over. -/
theorem Inv.send {c : Copy ι} (h : s.Accounts (serials c.subs) (serials c.subs)) (hq : s.amsduTxq = []) (hc : c.Closed)
    (r : Result) (drop : Bool) : Inv cfg (s.send c r drop) := by
  have hfinish : ∀ (handed : Bool) (x : Fate), x = .accepted ∨ x = .completed →
      Inv cfg (s.finish (c.exit handed x)) := by
    intro handed x hx
    refine ⟨h.finish ⟨?_, hc.ne_nil, hc.ra, hc.exit⟩ rfl, hq⟩
    rcases hx with rfl | rfl
    · exact .inl rfl
    · exact .inr (.inl rfl)
  unfold Transmit.send
  split
  · exact hfinish _ _ (.inr rfl)
  · cases r with
    | success => exact hfinish _ _ (.inr rfl)
    | pending => exact hfinish _ _ (.inl rfl)
    | failure => exact hfinish _ _ (.inr rfl)
    | resource => exact ⟨⟨h.taken, h.completed, h.exits⟩, hq, hc⟩
    | presource => exact hfinish _ _ (.inl rfl)

/-- A refused aggregate is put back, or completed if its list is gone. -/
theorem Inv.requeue {c : Copy ι} (h : s.Accounts (serials c.subs) (serials c.subs)) (hq : s.amsduTxq = [])
    (hc : c.Closed) {lists : ι → ℕ → Option RaList} {x : Fate} (hx : x = .completed ∨ x = .requeued c.ra) :
    Inv cfg (({ s with lists := lists } : Transmit ι).finish (c.exit true x)) := by
  have haccounts : Accounts { s with lists := lists } (serials c.subs) (serials c.subs) :=
    ⟨h.taken, h.completed, h.exits⟩
  exact ⟨haccounts.finish ⟨.inr hx, hc.ne_nil, hc.ra, hc.exit⟩ rfl, hq⟩

/-- `amsdu_txq` is handed over. -/
theorem Inv.sendList {k : Chain ι} {env : TxEnv} {drop : Bool}
    (h : s.Accounts (serials (s.amsduTxq.map Prod.snd)) []) (hk : k.Good s.amsduTxq) (hcnt : k.msduCnt ≠ 0)
    (hroom : ∀ x ∈ s.amsduTxq.head?, TxpdRoom (cfg.priv k.iface) x.1) :
    Inv cfg (({ s with
      amsduTxq := []
      completed := s.completed ++
        ((k.close (cfg.priv k.iface) env s.amsduTxq).map Prod.snd).map Sub.serial } : Transmit ι).finish
      ⟨k.ra, (k.close (cfg.priv k.iface) env s.amsduTxq).map Prod.snd,
        (k.close (cfg.priv k.iface) env s.amsduTxq).map fun x => x.1.octets, !drop,
        if drop then .completed else .accepted⟩) := by
  rw [Chain.close_snd]
  have haccounts : Accounts { s with
      amsduTxq := []
      completed := s.completed ++ (s.amsduTxq.map Prod.snd).map Sub.serial }
      (serials (s.amsduTxq.map Prod.snd)) (serials (s.amsduTxq.map Prod.snd)) := by
    refine ⟨h.taken, ?_, h.exits⟩
    change s.completed ++ _ = s.aggregated ++ _
    rw [h.completed, append_nil]
    rfl
  refine ⟨haccounts.finish ⟨?_, ?_, ?_, ?_⟩ rfl, rfl⟩
  · cases drop with
    | true => exact .inr (.inl rfl)
    | false => exact .inl rfl
  · intro hnil
    rw [map_eq_nil_iff] at hnil
    rw [hk.msduCnt, hnil] at hcnt
    exact hcnt rfl
  · intro u hu
    obtain ⟨x, hx, rfl⟩ := mem_map.mp hu
    exact hk.ra x hx
  · intro u hu
    rw [← Chain.close_snd k (cfg.priv k.iface) env] at hu
    obtain ⟨x, hx, rfl⟩ := mem_map.mp hu
    exact ⟨x.1.octets, mem_map_of_mem hx, hk.close hroom x hx⟩

theorem Inv.step {o : Step ι} (hs : s.Inv cfg) (hcond : Sound cfg s o) (h : Transmit.step cfg s o = some s') :
    s'.Inv cfg := by
  obtain ⟨haccounts, hgood⟩ := hs
  cases o <;> unfold Transmit.step at h <;> dsimp only at h
  case change i a l =>
    obtain rfl := some.inj h
    exact ⟨⟨haccounts.taken, haccounts.completed, haccounts.exits⟩, hgood⟩
  case start i a headroom alloc maxMsduCount env =>
    split at h
    · next l hidle hl =>
      obtain rfl := some.inj h
      refine Inv.start ⟨haccounts, hgood⟩ hidle ?_
      exact hcond.imp_right fun h => h.imp_right fun hfits => hfits l hl
    · exact absurd h.symm (some_ne_none _)
  case copied =>
    unfold Sound at hcond
    split at h
    · next c src u hp =>
      rw [hp] at haccounts hgood hcond
      obtain ⟨hq, hc, hframe, hra⟩ := hgood
      obtain ⟨hlong, hsame⟩ := hcond
      have hadd := hc.add hframe hlong hra
      have hsubs : serials (c.add src u).subs = serials c.subs ++ [u.serial] := map_append
      have hnow : Accounts { s with completed := s.completed ++ [u.serial] } (serials (c.add src u).subs)
          (serials (c.add src u).subs) := by
        rw [hsubs]
        refine ⟨haccounts.taken, ?_, haccounts.exits⟩
        change s.completed ++ [u.serial] = s.aggregated ++ (serials c.subs ++ [u.serial])
        rw [haccounts.completed, append_assoc]
        rfl
      unfold SameList at hsame
      split at h
      · next hnone =>
        rw [show s.lists c.iface c.list = none from hnone] at hsame
        exact hsame.elim
      · next l hl =>
        rw [show s.lists c.iface c.list = some l from hl] at hsame
        obtain rfl := some.inj h
        refine Inv.nextCopy hnow hq hadd hsame fun hnil => ?_
        exact absurd hnil (append_ne_nil_of_right_ne_nil _ (cons_ne_nil _ _))
    · exact absurd h.symm (some_ne_none _)
  case send env r drop =>
    split at h
    · next c hp =>
      rw [hp] at haccounts hgood
      obtain ⟨hq, hc, hne⟩ := hgood
      obtain rfl := some.inj h
      exact Inv.send (c := c.close (cfg.priv c.iface) env) haccounts hq (hc.close hne) r drop
    · exact absurd h.symm (some_ne_none _)
  case requeue locked =>
    unfold Sound at hcond
    split at h
    · next c hp =>
      rw [hp] at haccounts hgood hcond
      obtain ⟨hq, hc⟩ := hgood
      split at h
      · obtain rfl := some.inj h
        exact Inv.requeue haccounts hq hc (.inl rfl)
      · next l hl =>
        obtain rfl := some.inj h
        exact Inv.requeue haccounts hq hc (.inr (by rw [hcond l hl]))
    · exact absurd h.symm (some_ne_none _)
  case linked =>
    unfold Sound at hcond
    split at h
    · next k src u hp =>
      rw [hp] at haccounts hgood hcond
      obtain ⟨hk, hframe, hra⟩ := hgood
      obtain ⟨hlong, hroom, hsame⟩ := hcond
      have hlink := hk.link hframe hlong hroom hra
      have hnow : Accounts { s with amsduTxq := s.amsduTxq ++ [((k.link src).2, u)] }
          (serials ((s.amsduTxq ++ [((k.link src).2, u)]).map Prod.snd)) [] := by
        refine ⟨?_, haccounts.completed, haccounts.exits⟩
        rw [map_append]
        unfold serials
        rw [map_append]
        exact haccounts.taken
      unfold SameList at hsame
      split at h
      · next hnone =>
        rw [show s.lists k.iface k.list = none from hnone] at hsame
        exact hsame.elim
      · next l hl =>
        rw [show s.lists k.iface k.list = some l from hl] at hsame
        obtain rfl := some.inj h
        exact Inv.nextChain hnow hlink hsame
    · exact absurd h.symm (some_ne_none _)
  case sendList env drop =>
    unfold Sound at hcond
    split at h
    · next k hp =>
      rw [hp] at haccounts hgood hcond
      split at h
      · next hzero =>
        obtain rfl := some.inj h
        have hnil : s.amsduTxq = [] := eq_nil_of_length_eq_zero (hgood.msduCnt.symm.trans hzero)
        rw [hnil] at haccounts
        exact ⟨⟨haccounts.taken, haccounts.completed, haccounts.exits⟩, hnil⟩
      · next hcnt =>
        obtain rfl := some.inj h
        exact Inv.sendList haccounts hgood hcnt hcond
    · exact absurd h.symm (some_ne_none _)

theorem Inv.of_init (h : s.Init) : s.Inv cfg := by
  obtain ⟨-, hq, hphase, htaken, hcompleted, hexits⟩ := h
  have hagg : s.aggregated = [] := by
    unfold aggregated
    rw [hexits, flatMap_nil]
  refine ⟨⟨?_, ?_, ?_⟩, ?_⟩
  · rw [hagg, hphase, htaken]
    rfl
  · rw [hagg, hphase, hcompleted]
    rfl
  · rw [hexits]
    exact fun _ hx => absurd hx not_mem_nil
  · rw [hphase]
    exact hq

/-- Between calls : the packets that were dequeued are in the aggregates, each once and in order, and each was completed
once; what became of the aggregates is as it should be; and `amsdu_txq` is empty. -/
structure Conserved (s : Transmit ι) : Prop where
  aggregated : s.aggregated = List.range s.taken
  completed : s.completed = List.range s.taken
  exits : ∀ x ∈ s.exits, x.Sound
  amsduTxq : s.amsduTxq = []

def before : Transmit Unit :=
  ⟨fun _ _ => none, [], .idle, 0, [], []⟩

end Transmit

end WlanDriver.Aggr
