import WlanDriver.Tcp.AckSessions
import WlanDriver.Lib.Tokens

/-!
# What coalescing keeps

`Lossless` says that no acknowledgement is lost : each skb is sent once, freed once or at one place; a dropped number is
covered by one that is not behind it; what is held is promised to be sent; no session is used that was freed; and the
sessions are counted right. `Orderly` is the condition on a step under which this is kept.

The invariant `Inv` has two parts. `Shape` : the queue has the sessions that are there, and what uses a session
finds it. `Accounts` : the skbs at their places, with the numbers they stand for. Each change of a step, such as
that a thread takes what is held (`Inv.take`) or a session is freed (`Inv.free`), keeps both.
-/

set_option linter.unusedSectionVars false

namespace WlanDriver.Tcp

open Function List Option

variable {ι : Type*} [DecidableEq ι]

/-! ## Where an skb is -/

/-- An skb is held by a session, in the hands of its handler, the own skb of a thread, or what the thread is about to
send for a session. -/
inductive Slot (ι : Type*)
  | held (i : ℕ)
  | handler (i : ℕ)
  | own (t : ι)
  | hand (t : ι)
  deriving DecidableEq

def Obj.heldSkb (i : ℕ) (o : Obj) : Option Skb :=
  (o.sess.bind TcpSess.held).map fun h => ⟨h.skb, some (i, h)⟩

def Obj.handlerSkb (i : ℕ) (o : Obj) : Option Skb :=
  o.handler.hand.map fun h => ⟨h.skb, some (i, h)⟩

def Pc.ownSkb (p : Pc) : Option Skb :=
  p.own.map fun o => ⟨o, none⟩

def Pc.handSkb (p : Pc) : Option Skb :=
  p.hand.map fun q => ⟨q.2.skb, some q⟩

namespace State

variable (s : State ι)

def slot : Slot ι → Option Skb
  | .held i => (s.obj i).heldSkb i
  | .handler i => (s.obj i).handlerSkb i
  | .own t => (s.pc t).ownSkb
  | .hand t => (s.pc t).handSkb

/-- The packet is held for session `i`, about to be sent for it, or was sent for it. -/
def Carrier (i : ℕ) (h : Held) : Prop :=
  (∃ a k, s.slot a = some k ∧ k.ack = some (i, h)) ∨ ∃ k ∈ s.sent, k.ack = some (i, h)

/-- The skbs that are gone. -/
def out : List ℕ :=
  s.sent.map Skb.id ++ s.freed

/-- What session `x` at `i` holds will be sent : its timer is armed, or its handler is on the way to send it, or
a thread is. -/
def Promised (i : ℕ) (x : TcpSess) : Prop :=
  ((s.obj i).armed = true ∧ x.canceled = false) ∨ ((s.obj i).handler = .fired ∧ x.canceled = false) ∨
    (s.obj i).handler = .calling ∨ ∃ t, (s.pc t).inside = some i ∧ (s.pc t).inFlush = false

/-- Neither the handler nor a thread is inside of the session. -/
def Quiet (i : ℕ) : Prop :=
  (s.obj i).handler = .idle ∧ ∀ t, (s.pc t).inside ≠ some i

end State

/-- In 32-bit sequence arithmetic `a` is not behind `b`. -/
def NotBehind (a b : UInt32) : Prop :=
  (a - b).toNat < 2 ^ 31
  deriving Decidable

/-- No acknowledgement is lost. -/
structure Lossless (s : State ι) : Prop where
  /-- Each skb was sent once, was freed once, or is at one place. -/
  once : Located (fun a => (s.slot a).map Skb.id) (Set.Iio s.issued) s.out
  /-- A number that was dropped in a session that is still there was dropped for a packet that is held, about to
  be sent, or was sent since then, and is not behind it. -/
  covered : ∀ i n, (i, n) ∈ s.dropped → (s.obj i).sess ≠ none →
    ∃ h, s.Carrier i h ∧ n ∈ h.covers ∧ NotBehind h.seq n
  promised : ∀ i x, (s.obj i).sess = some x → x.held ≠ none → s.Promised i x
  safe : s.fault = false
  counted : s.cnt = s.queue.length ∧ s.cnt ≤ tcpAckMaxSess

/-- The section of `woal_process_tcp_ack` for `p` is in order, for the session that was found : a number is dropped for
one that is not behind it, nor behind those that were dropped for it; and sessions that age out have nothing inside of
them, and no timer that is not cancelled with them. -/
def SectionOrderly (s : State ι) (p : Packet) : Option ℕ → Prop
  | none => ∀ i ∈ s.queue, ∀ x ∈ (s.obj i).sess, x.updateTime + tcpSessAgeout < s.now →
      s.Quiet i ∧ ((s.obj i).armed = true → x.isTimerSet = true)
  | some i => ∀ x ∈ (s.obj i).sess, ∀ h ∈ x.held, State.Replaces x h p → ∀ n ∈ h.seq :: h.covers, NotBehind p.ackSeq n

/-- A step that is in order. At a flush nothing is inside of a session, and no timer is set or armed; and
`mlan_send_packet` takes what was held. -/
def Orderly (s : State ι) : Act ι → Prop
  | .process _ p _ _ => p.isPureAck = true → SectionOrderly s p (s.getTcpSess p.flow)
  | .flush _ => ∀ i ∈ s.queue, s.Quiet i ∧ (s.obj i).armed = false ∧ ∀ x ∈ (s.obj i).sess, x.isTimerSet = false
  | .thread t _ pending => (s.pc t).hand ≠ none → pending = true
  | .handler i pending => (s.obj i).handler.hand ≠ none → pending = true
  | .expire _ | .tick => True

instance [Fintype ι] (s : State ι) (i : ℕ) : Decidable (s.Quiet i) :=
  inferInstanceAs (Decidable (_ ∧ ∀ t, (s.pc t).inside ≠ some i))

instance [Fintype ι] (s : State ι) (p : Packet) (o : Option ℕ) : Decidable (SectionOrderly s p o) := by
  have (h : Held) : Decidable (∀ n ∈ h.seq :: h.covers, NotBehind p.ackSeq n) := List.decidableBAll _ _
  cases o <;> dsimp only [SectionOrderly] <;> infer_instance

instance [Fintype ι] (s : State ι) (a : Act ι) : Decidable (Orderly s a) := by
  unfold Orderly
  split <;> infer_instance

/-! ## Skbs and the numbers they stand for -/

/-- What is said about skbs. Each is at one place; what carries an acknowledgement is not behind what it covers;
and what was dropped in a session that is still there is covered. -/
structure Accounts (slot : Slot ι → Option Skb) (sent : List Skb) (freed : List ℕ) (issued : ℕ)
    (dropped : List (ℕ × UInt32)) (alive : ℕ → Prop) : Prop where
  once : Located (fun a => (slot a).map Skb.id) (Set.Iio issued) (sent.map Skb.id ++ freed)
  good : ∀ k i h, ((∃ a, slot a = some k) ∨ k ∈ sent) → k.ack = some (i, h) → ∀ n ∈ h.covers, NotBehind h.seq n
  covered : ∀ i n, (i, n) ∈ dropped → alive i →
    ∃ k h, ((∃ a, slot a = some k) ∨ k ∈ sent) ∧ k.ack = some (i, h) ∧ n ∈ h.covers

namespace Accounts

variable {slot slot' : Slot ι → Option Skb} {sent : List Skb} {freed : List ℕ} {issued : ℕ}
  {dropped : List (ℕ × UInt32)} {alive alive' : ℕ → Prop} {a b : Slot ι} {k k' : Skb} {i : ℕ} {h h' : Held}

theorem map_update (slot : Slot ι → Option Skb) (a : Slot ι) (o : Option Skb) :
    (fun c => (update slot a o c).map Skb.id) =
      update (fun c => (slot c).map Skb.id) a (o.map Skb.id) :=
  Function.comp_update (Option.map Skb.id) slot a o

theorem Iio_succ (n : ℕ) : Set.Iio (n + 1) = insert n (Set.Iio n) := by
  ext m
  simp only [Set.mem_Iio, Set.mem_insert_iff]
  omega

variable (hA : Accounts slot sent freed issued dropped alive)

include hA

/-- A packet comes in. -/
theorem enter (ha : slot a = none) (hk : k.id = issued)
    (hack : ∀ i h, k.ack = some (i, h) → h.covers = []) :
    Accounts (update slot a (some k)) sent freed (issued + 1) dropped alive := by
  have hkeep : ∀ {c k'}, slot c = some k' → update slot a (some k) c = some k' := fun {c k'} hc => by
    rw [update_of_ne (fun hca => by simp [hca, ha] at hc), hc]
  refine ⟨?_, fun k' i h hk' hack' n hn => ?_, fun i n hin hi => ?_⟩
  · rw [map_update, map_some, hk, Iio_succ]
    exact hA.once.enter (by rw [ha, map_none]) (by simp)
  · rcases hk' with ⟨c, hc⟩ | hk'
    · by_cases hca : c = a
      · subst hca
        rw [update_self] at hc
        obtain rfl := some.inj hc
        rw [hack i h hack'] at hn
        exact absurd hn not_mem_nil
      · rw [update_of_ne hca] at hc
        exact hA.good k' i h (.inl ⟨c, hc⟩) hack' n hn
    · exact hA.good k' i h (.inr hk') hack' n hn
  · obtain ⟨k', h, hk', hack', hn⟩ := hA.covered i n hin hi
    exact ⟨k', h, hk'.imp_left fun ⟨c, hc⟩ => ⟨c, hkeep hc⟩, hack', hn⟩

/-- What carries acknowledgements stays the same. -/
theorem congr_carriers {sent' : List Skb} {freed' : List ℕ}
    (honce : Located (fun a => (slot' a).map Skb.id) (Set.Iio issued) (sent'.map Skb.id ++ freed'))
    (hto : ∀ k : Skb, ((∃ a, slot' a = some k) ∨ k ∈ sent') → (∃ a, slot a = some k) ∨ k ∈ sent)
    (hfrom : ∀ k : Skb, k.ack ≠ none → ((∃ a, slot a = some k) ∨ k ∈ sent) → (∃ a, slot' a = some k) ∨ k ∈ sent') :
    Accounts slot' sent' freed' issued dropped alive := by
  refine ⟨honce, fun k i h hk => hA.good k i h (hto k hk), fun i n hin hi => ?_⟩
  obtain ⟨k, h, hk, hack, hn⟩ := hA.covered i n hin hi
  exact ⟨k, h, hfrom k (by simp [hack]) hk, hack, hn⟩

/-- A packet goes from one place to another. -/
theorem move (ha : slot a = some k) (hb : slot b = none) :
    Accounts (update (update slot a none) b (some k)) sent freed issued dropped alive := by
  have hba : b ≠ a := fun hba => by simp [hba, ha] at hb
  refine hA.congr_carriers ?_ (fun k' hk' => hk'.imp_left ?_) (fun k' _ hk' => hk'.imp_left ?_)
  · rw [map_update, map_update]
    exact hA.once.move (by rw [ha, map_some]) (by rw [hb, map_none])
  · rintro ⟨c, hc⟩
    by_cases hcb : c = b
    · subst hcb
      rw [update_self] at hc
      exact ⟨a, ha.trans hc⟩
    · rw [update_of_ne hcb] at hc
      by_cases hca : c = a
      · subst hca
        simp at hc
      · rw [update_of_ne hca] at hc
        exact ⟨c, hc⟩
  · rintro ⟨c, hc⟩
    by_cases hca : c = a
    · subst hca
      exact ⟨b, by rw [update_self, ← ha, hc]⟩
    · have hcb : c ≠ b := fun hcb => by simp [hcb, hb] at hc
      exact ⟨c, by rw [update_of_ne hcb, update_of_ne hca, hc]⟩

/-- A packet is sent. -/
theorem sendFrom (ha : slot a = some k) :
    Accounts (update slot a none) (k :: sent) freed issued dropped alive := by
  refine hA.congr_carriers ?_ (fun k' hk' => ?_) (fun k' _ hk' => ?_)
  · rw [map_update]
    exact hA.once.leave (by rw [ha, map_some])
  · rcases hk' with ⟨c, hc⟩ | hk'
    · by_cases hca : c = a
      · subst hca
        simp at hc
      · rw [update_of_ne hca] at hc
        exact .inl ⟨c, hc⟩
    · rcases mem_cons.mp hk' with rfl | hk'
      · exact .inl ⟨a, ha⟩
      · exact .inr hk'
  · rcases hk' with ⟨c, hc⟩ | hk'
    · by_cases hca : c = a
      · subst hca
        exact .inr (mem_cons.mpr (.inl (some.inj (hc.symm.trans ha))))
      · exact .inl ⟨c, by rw [update_of_ne hca, hc]⟩
    · exact .inr (mem_cons_of_mem _ hk')

/-- A packet is freed : a thread's own one, or the one that a session held which goes with it. -/
theorem freeFrom (ha : slot a = some k)
    (hle : ∀ j, alive' j → alive j ∧ ∀ h, k.ack ≠ some (j, h)) :
    Accounts (update slot a none) sent (k.id :: freed) issued dropped alive' := by
  refine ⟨?_, fun k' i h hk' => ?_, fun i n hin hi => ?_⟩
  · rw [map_update]
    exact (hA.once.leave (by rw [ha, map_some])).congr rfl rfl perm_middle
  · refine hA.good k' i h (hk'.imp_left ?_)
    rintro ⟨c, hc⟩
    by_cases hca : c = a
    · subst hca
      simp at hc
    · rw [update_of_ne hca] at hc
      exact ⟨c, hc⟩
  · obtain ⟨halive, hne⟩ := hle i hi
    obtain ⟨k', h, hk', hack, hn⟩ := hA.covered i n hin halive
    refine ⟨k', h, hk'.imp_left ?_, hack, hn⟩
    rintro ⟨c, hc⟩
    have hca : c ≠ a := fun hca => by
      rw [hca, ha] at hc
      exact hne h (some.inj hc ▸ hack)
    exact ⟨c, by rw [update_of_ne hca, hc]⟩

/-- A packet is copied over the one that is held. -/
theorem replace (ha : slot a = some k) (hk : k.ack = some (i, h))
    (hk' : k' = ⟨k.id, some (i, h')⟩) (hcovers : h'.covers = h.seq :: h.covers)
    (hseq : ∀ n ∈ h'.covers, NotBehind h'.seq n) :
    Accounts (update slot a (some k')) sent freed issued ((i, h.seq) :: dropped) alive := by
  subst hk'
  refine ⟨?_, fun k' j g hk' hack => ?_, fun j n hin hj => ?_⟩
  · rw [map_update, map_some]
    have hsame : update (fun c => (slot c).map Skb.id) a (some k.id) = fun c => (slot c).map Skb.id := by
      rw [update_eq_self_iff, ha, map_some]
    rw [hsame]
    exact hA.once
  · rcases hk' with ⟨c, hc⟩ | hk'
    · by_cases hca : c = a
      · subst hca
        rw [update_self] at hc
        obtain rfl := some.inj hc
        obtain ⟨rfl, rfl⟩ := Prod.mk.inj (some.inj hack)
        exact hseq
      · rw [update_of_ne hca] at hc
        exact hA.good k' j g (.inl ⟨c, hc⟩) hack
    · exact hA.good k' j g (.inr hk') hack
  · rcases mem_cons.mp hin with heq | hin
    · obtain ⟨rfl, rfl⟩ := Prod.mk.inj heq
      exact ⟨_, h', .inl ⟨a, update_self _ _ _⟩, rfl, by rw [hcovers]; exact mem_cons_self⟩
    · obtain ⟨k', g, hk', hack, hn⟩ := hA.covered j n hin hj
      rcases hk' with ⟨c, hc⟩ | hk'
      · by_cases hca : c = a
        · subst hca
          obtain rfl := some.inj (hc.symm.trans ha)
          obtain ⟨rfl, rfl⟩ := Prod.mk.inj (some.inj (hack.symm.trans hk))
          exact ⟨_, h', .inl ⟨c, update_self _ _ _⟩, rfl, by
            rw [hcovers]
            exact mem_cons_of_mem _ hn⟩
        · exact ⟨k', g, .inl ⟨c, by rw [update_of_ne hca, hc]⟩, hack, hn⟩
      · exact ⟨k', g, .inr hk', hack, hn⟩

/-- A session is there that was not, or is no longer. -/
theorem congr_alive
    (hle : ∀ i n, (i, n) ∈ dropped → alive' i → alive i) : Accounts slot sent freed issued dropped alive' :=
  ⟨hA.once, hA.good, fun i n hin hi => hA.covered i n hin (hle i n hin hi)⟩

end Accounts

/-! ## Sessions and who uses them -/

/-- The queue has the sessions that are there; what is not there has no timer, and nobody uses it; and what is held is
promised. -/
structure Shape (s : State ι) : Prop where
  safe : s.fault = false
  queued : ∀ i, i ∈ s.queue ↔ (s.obj i).sess ≠ none
  nodup : s.queue.Nodup
  below : ∀ i, (s.obj i).sess ≠ none → i < s.fresh
  droppedBelow : ∀ i n, (i, n) ∈ s.dropped → i < s.fresh
  live : ∀ i, (s.obj i).sess = none → (s.obj i).armed = false ∧ s.Quiet i
  noFlush : ∀ t, (s.pc t).inFlush = false
  promised : ∀ i x, (s.obj i).sess = some x → x.held ≠ none → s.Promised i x

namespace Shape

variable {s s' : State ι} {i : ℕ} {t : ι} {p : Pc} {o : Obj} {x : TcpSess}

/-- A thread goes on without leaving a session, or entering one that is not there. -/
theorem setPc (h : Shape s) (hflush : p.inFlush = false) (hkeep : ∀ j, (s.pc t).inside = some j → p.inside = some j)
    (henter : ∀ j, p.inside = some j → (s.obj j).sess ≠ none) : Shape (s.setPc t p) := by
  have hat : (s.setPc t p).pc t = p := update_self _ _ _
  have hother : ∀ u, u ≠ t → (s.setPc t p).pc u = s.pc u := fun u hu => update_of_ne hu _ _
  refine ⟨h.safe, h.queued, h.nodup, h.below, h.droppedBelow, fun j hj => ?_, fun u => ?_, fun j y hy hheld => ?_⟩
  · obtain ⟨harmed, hidle, hquiet⟩ := h.live j hj
    refine ⟨harmed, hidle, fun u hu => ?_⟩
    by_cases hut : u = t
    · rw [hut, hat] at hu
      exact henter j hu hj
    · rw [hother u hut] at hu
      exact hquiet u hu
  · by_cases hut : u = t
    · rw [hut, hat, hflush]
    · rw [hother u hut]
      exact h.noFlush u
  · rcases h.promised j y hy hheld with hp | hp | hp | ⟨u, hu, hf⟩
    · exact .inl hp
    · exact .inr (.inl hp)
    · exact .inr (.inr (.inl hp))
    · refine .inr (.inr (.inr ⟨u, ?_⟩))
      by_cases hut : u = t
      · rw [hut, hat]
        exact ⟨hkeep j (hut ▸ hu), hflush⟩
      · rw [hother u hut]
        exact ⟨hu, hf⟩

/-- A session that is there changes, and keeps its promise. -/
theorem setObj (h : Shape s) (hi : (s.obj i).sess ≠ none) (ho : o.sess ≠ none)
    (hprom : ∀ x, o.sess = some x → x.held ≠ none → (s.setObj i o).Promised i x) : Shape (s.setObj i o) := by
  have hat : (s.setObj i o).obj i = o := update_self _ _ _
  have hother : ∀ j, j ≠ i → (s.setObj i o).obj j = s.obj j := fun j hj => update_of_ne hj _ _
  have hsess : ∀ j, ((s.setObj i o).obj j).sess = none ↔ (s.obj j).sess = none := fun j => by
    by_cases hj : j = i
    · rw [hj, hat]
      exact iff_of_false ho hi
    · rw [hother j hj]
  refine ⟨h.safe, fun j => (h.queued j).trans (not_congr (hsess j)).symm, h.nodup,
    fun j hj => h.below j (mt (hsess j).mpr hj), h.droppedBelow, fun j hj => ?_, h.noFlush, fun j y hy hheld => ?_⟩
  · have hji : j ≠ i := fun hji => hi (hji ▸ (hsess j).mp hj)
    unfold State.Quiet
    rw [hother j hji]
    exact h.live j ((hsess j).mp hj)
  · by_cases hji : j = i
    · subst hji
      exact hprom y (hat ▸ hy) hheld
    · unfold State.Promised
      rw [hother j hji] at hy ⊢
      exact h.promised j y hy hheld

/-- A thread leaves the session, which holds nothing any more. -/
theorem leave (h : Shape s) (hi : (s.obj i).sess = some x) (hheld : x.held = none)
    (hkeep : ∀ j, (s.pc t).inside = some j → j = i) (hp : p.inside = none) (hflush : p.inFlush = false) :
    Shape (s.setPc t p) := by
  have hat : (s.setPc t p).pc t = p := update_self _ _ _
  have hother : ∀ u, u ≠ t → (s.setPc t p).pc u = s.pc u := fun u hu => update_of_ne hu _ _
  refine ⟨h.safe, h.queued, h.nodup, h.below, h.droppedBelow, fun j hj => ?_, fun u => ?_, fun j y hy hne => ?_⟩
  · obtain ⟨harmed, hidle, hquiet⟩ := h.live j hj
    refine ⟨harmed, hidle, fun u hu => ?_⟩
    by_cases hut : u = t
    · rw [hut, hat, hp] at hu
      cases hu
    · rw [hother u hut] at hu
      exact hquiet u hu
  · by_cases hut : u = t
    · rw [hut, hat, hflush]
    · rw [hother u hut]
      exact h.noFlush u
  · have hji : j ≠ i := fun hji => by
      subst hji
      obtain rfl := some.inj (hi.symm.trans hy)
      exact hne hheld
    rcases h.promised j y hy hne with hp | hp | hp | ⟨u, hu, hf⟩
    · exact .inl hp
    · exact .inr (.inl hp)
    · exact .inr (.inr (.inl hp))
    · have hut : u ≠ t := fun hut => hji (hkeep j (hut ▸ hu))
      exact .inr (.inr (.inr ⟨u, by rw [hother u hut]; exact ⟨hu, hf⟩⟩))

/-- A new session that keeps its promise. -/
theorem create {o : Obj} {n : ℕ} (h : Shape s) (ho : o.sess ≠ none) (harmed : o.armed = true)
    (hcan : ∀ x, o.sess = some x → x.canceled = false) :
    Shape { s.setObj s.fresh o with queue := s.queue ++ [s.fresh], cnt := n, fresh := s.fresh + 1 } := by
  have hnew : (s.obj s.fresh).sess = none := by
    by_contra hne
    exact lt_irrefl _ (h.below _ hne)
  have hat : update s.obj s.fresh o s.fresh = o := update_self _ _ _
  have hother : ∀ j, j ≠ s.fresh → update s.obj s.fresh o j = s.obj j := fun j hj => update_of_ne hj _ _
  have hnot : s.fresh ∉ s.queue := fun hq => (h.queued _).mp hq hnew
  refine ⟨h.safe, fun j => ?_, ?_, fun j hj => ?_, fun j n hn => Nat.lt_succ_of_lt (h.droppedBelow j n hn), fun j hj => ?_,
    h.noFlush, fun j y hy hheld => ?_⟩
  · dsimp only [State.setObj]
    by_cases hj : j = s.fresh
    · rw [hj, hat]
      exact iff_of_true (by simp) ho
    · rw [hother j hj, ← h.queued j]
      simp [hj]
  · exact nodup_append.mpr ⟨h.nodup, nodup_singleton _, fun a ha b hb =>
      fun hab => hnot (mem_singleton.mp hb ▸ hab ▸ ha)⟩
  · dsimp only [State.setObj] at hj
    by_cases hjf : j = s.fresh
    · exact hjf ▸ Nat.lt_succ_self _
    · rw [hother j hjf] at hj
      exact Nat.lt_succ_of_lt (h.below j hj)
  · dsimp only [State.setObj, State.Quiet] at hj ⊢
    have hjf : j ≠ s.fresh := fun hjf => ho (by rwa [hjf, hat] at hj)
    rw [hother j hjf] at hj ⊢
    exact h.live j hj
  · dsimp only [State.setObj, State.Promised] at hy ⊢
    by_cases hjf : j = s.fresh
    · subst hjf
      rw [hat] at hy ⊢
      exact .inl ⟨harmed, hcan y hy⟩
    · rw [hother j hjf] at hy ⊢
      exact h.promised j y hy hheld

/-- A session is unlinked and freed when nothing is inside of it. -/
theorem free {n : ℕ} (h : Shape s) (hquiet : s.Quiet i) :
    Shape { s.setObj i {} with queue := s.queue.erase i, cnt := n } := by
  have hat : update s.obj i {} i = {} := update_self _ _ _
  have hother : ∀ j, j ≠ i → update s.obj i {} j = s.obj j := fun j hj => update_of_ne hj _ _
  refine ⟨h.safe, fun j => ?_, h.nodup.erase i, fun j hj => ?_, h.droppedBelow, fun j hj => ?_, h.noFlush,
    fun j y hy hheld => ?_⟩
  · dsimp only [State.setObj]
    by_cases hj : j = i
    · rw [hj, hat]
      exact iff_of_false (fun hmem => h.nodup.not_mem_erase hmem) (fun hne => hne rfl)
    · rw [hother j hj, ← h.queued j, h.nodup.mem_erase_iff]
      simp [hj]
  · dsimp only [State.setObj] at hj
    by_cases hji : j = i
    · rw [hji, hat] at hj
      exact absurd rfl hj
    · rw [hother j hji] at hj
      exact h.below j hj
  · dsimp only [State.setObj, State.Quiet] at hj ⊢
    by_cases hji : j = i
    · subst hji
      rw [hat]
      exact ⟨rfl, rfl, hquiet.2⟩
    · rw [hother j hji] at hj ⊢
      exact h.live j hj
  · dsimp only [State.setObj, State.Promised] at hy ⊢
    by_cases hji : j = i
    · rw [hji, hat] at hy
      cases hy
    · rw [hother j hji] at hy ⊢
      exact h.promised j y hy hheld

/-- Other fields do not matter. -/
theorem congr (h : Shape s) (hobj : s'.obj = s.obj) (hpc : s'.pc = s.pc) (hqueue : s'.queue = s.queue)
    (hfresh : s'.fresh = s.fresh) (hfault : s'.fault = s.fault) (hdropped : ∀ i n, (i, n) ∈ s'.dropped → i < s.fresh) :
    Shape s' := by
  obtain ⟨hsafe, hqueued, hnodup, hbelow, -, hlive, hflush, hprom⟩ := h
  unfold State.Quiet State.Promised at *
  refine ⟨hfault.trans hsafe, ?_, hqueue ▸ hnodup, ?_, hfresh ▸ hdropped, ?_, ?_, ?_⟩
  · rw [hqueue, hobj]
    exact hqueued
  · rw [hobj, hfresh]
    exact hbelow
  · unfold State.Quiet
    rw [hobj, hpc]
    exact hlive
  · rw [hpc]
    exact hflush
  · unfold State.Promised
    rw [hobj, hpc]
    exact hprom

end Shape

/-! ## Places behind a step -/

section

variable {s : State ι} {i : ℕ} {t : ι} {p : Pc} {o : Obj}

theorem slot_setObj : (s.setObj i o).slot =
    update (update s.slot (.held i) (o.heldSkb i)) (.handler i) (o.handlerSkb i) := by
  funext a
  cases a with
  | held j =>
    rw [update_of_ne (by simp)]
    by_cases hj : j = i
    · subst hj
      simp [State.slot, State.setObj]
    · rw [update_of_ne (by simpa using hj)]
      simp [State.slot, State.setObj, hj]
  | handler j =>
    by_cases hj : j = i
    · subst hj
      simp [State.slot, State.setObj]
    · rw [update_of_ne (by simpa using hj), update_of_ne (by simp)]
      simp [State.slot, State.setObj, hj]
  | own u => rfl
  | hand u => rfl

theorem slot_setPc : (s.setPc t p).slot =
    update (update s.slot (.own t) p.ownSkb) (.hand t) p.handSkb := by
  funext a
  cases a with
  | held j => rfl
  | handler j => rfl
  | own u =>
    rw [update_of_ne (by simp)]
    by_cases hu : u = t
    · subst hu
      simp [State.slot, State.setPc]
    · rw [update_of_ne (by simpa using hu)]
      simp [State.slot, State.setPc, hu]
  | hand u =>
    by_cases hu : u = t
    · subst hu
      simp [State.slot, State.setPc]
    · rw [update_of_ne (by simpa using hu), update_of_ne (by simp)]
      simp [State.slot, State.setPc, hu]

theorem slot_setObj_held (h : o.handlerSkb i = (s.obj i).handlerSkb i) :
    (s.setObj i o).slot = update s.slot (.held i) (o.heldSkb i) := by
  rw [slot_setObj, update_eq_self_iff, h, update_of_ne (by simp)]
  rfl

theorem slot_setObj_handler (h : o.heldSkb i = (s.obj i).heldSkb i) :
    (s.setObj i o).slot = update s.slot (.handler i) (o.handlerSkb i) := by
  have hsame : update s.slot (.held i) (o.heldSkb i) = s.slot := by
    rw [update_eq_self_iff, h]
    rfl
  rw [slot_setObj, hsame]

theorem slot_setPc_own (h : p.handSkb = (s.pc t).handSkb) :
    (s.setPc t p).slot = update s.slot (.own t) p.ownSkb := by
  rw [slot_setPc, update_eq_self_iff, h, update_of_ne (by simp)]
  rfl

theorem slot_setPc_hand (h : p.ownSkb = (s.pc t).ownSkb) :
    (s.setPc t p).slot = update s.slot (.hand t) p.handSkb := by
  have hsame : update s.slot (.own t) p.ownSkb = s.slot := by
    rw [update_eq_self_iff, h]
    rfl
  rw [slot_setPc, hsame]

end

/-! ## The invariant -/

/-- What holds along every run in order. -/
structure Inv (s : State ι) : Prop where
  shape : Shape s
  accounts : Accounts s.slot s.sent s.freed s.issued s.dropped fun i => (s.obj i).sess ≠ none

namespace Inv

variable {s : State ι} {i : ℕ} {t : ι} {p : Pc} {o : Obj} {x x' : TcpSess} {k : Held} {own : ℕ}

/-- Whether a session is there does not change when one that is there stays. -/
theorem alive_setObj (hi : (s.obj i).sess ≠ none) (ho : o.sess ≠ none) :
    (fun j => ((s.setObj i o).obj j).sess ≠ none) = fun j => (s.obj j).sess ≠ none := by
  funext j
  by_cases hj : j = i
  · subst hj
    simp [State.setObj, hi, ho]
  · simp [State.setObj, hj]

/-- A session changes, but not what it holds, nor what its handler has. -/
theorem setObj (h : Inv s) (hi : (s.obj i).sess ≠ none) (ho : o.sess ≠ none)
    (hheld : o.heldSkb i = (s.obj i).heldSkb i) (hhandler : o.handlerSkb i = (s.obj i).handlerSkb i)
    (hprom : ∀ x, o.sess = some x → x.held ≠ none → (s.setObj i o).Promised i x) : Inv (s.setObj i o) := by
  refine ⟨h.shape.setObj hi ho hprom, ?_⟩
  have hslot : (s.setObj i o).slot = s.slot := by
    rw [slot_setObj_held hhandler, hheld, update_eq_self_iff]
    rfl
  rw [hslot, alive_setObj hi ho]
  exact h.accounts

theorem promised_putSess (hcan : x'.canceled = x.canceled) :
    (s.putSess i x').Promised i x' ↔ s.Promised i x := by
  simp [State.Promised, State.putSess, State.setObj, hcan]

variable (h : Inv s)

include h

theorem putSess (hx : (s.obj i).sess = some x) (hheld : x'.held = x.held)
    (hcan : x'.canceled = x.canceled) : Inv (s.putSess i x') := by
  refine h.setObj (by simp [hx]) (by simp) (by simp [Obj.heldSkb, hx, hheld]) rfl fun y hy hne => ?_
  obtain rfl := some.inj hy
  exact (promised_putSess hcan).mpr (h.shape.promised i x hx (hheld ▸ hne))

/-- A thread goes on. -/
theorem setPc (hflush : p.inFlush = false) (hkeep : ∀ j, (s.pc t).inside = some j → p.inside = some j)
    (henter : ∀ j, p.inside = some j → (s.obj j).sess ≠ none) (hown : p.own = (s.pc t).own)
    (hhand : p.hand = (s.pc t).hand) : Inv (s.setPc t p) := by
  refine ⟨h.shape.setPc hflush hkeep henter, ?_⟩
  have hslot : (s.setPc t p).slot = s.slot := by
    rw [slot_setPc_own (by rw [Pc.handSkb, hhand]; rfl), update_eq_self_iff, Pc.ownSkb, hown]
    rfl
  rw [hslot]
  exact h.accounts

/-- A thread starts with an skb that is not held. -/
theorem enterOwn (hpc : s.pc t = .idle) (hflush : p.inFlush = false)
    (henter : ∀ j, p.inside = some j → (s.obj j).sess ≠ none) (hown : p.own = some s.issued) (hhand : p.hand = none) :
    Inv { s.setPc t p with issued := s.issued + 1 } := by
  have hshape : Shape (s.setPc t p) := h.shape.setPc hflush (by simp [hpc, Pc.inside]) henter
  refine ⟨hshape.congr rfl rfl rfl rfl rfl hshape.droppedBelow, ?_⟩
  have hslot : ({ s.setPc t p with issued := s.issued + 1 } : State ι).slot =
      update s.slot (.own t) (some ⟨s.issued, none⟩) := by
    have := @slot_setPc_own ι _ s t p (by rw [Pc.handSkb, hhand, hpc]; rfl)
    rw [Pc.ownSkb, hown] at this
    exact this
  rw [hslot]
  refine h.accounts.enter ?_ rfl (by simp)
  simp [State.slot, hpc, Pc.ownSkb, Pc.own]

/-- A number is dropped for one that is not behind it, nor behind what it covers. -/
theorem replace (hx : (s.obj i).sess = some x) (hheld : x.held = some k) {q : Packet}
    (hseq : ∀ n ∈ k.seq :: k.covers, NotBehind q.ackSeq n) (hx' : x'.held = some (State.replaced k q))
    (hcan : x'.canceled = x.canceled) :
    Inv ({ s with dropped := (i, k.seq) :: s.dropped }.putSess i x') := by
  have hsome : (s.obj i).sess ≠ none := by simp [hx]
  have hshape : Shape (s.putSess i x') := h.shape.setObj hsome (by simp) fun y hy _ => by
    obtain rfl := some.inj hy
    exact (promised_putSess hcan).mpr (h.shape.promised i x hx (by simp [hheld]))
  refine ⟨hshape.congr rfl rfl rfl rfl rfl fun j n hn => ?_, ?_⟩
  · rcases mem_cons.mp hn with heq | hn
    · obtain ⟨rfl, -⟩ := Prod.mk.inj heq
      exact h.shape.below j hsome
    · exact h.shape.droppedBelow j n hn
  · have hslot : ({ s with dropped := (i, k.seq) :: s.dropped }.putSess i x').slot =
        update s.slot (.held i) (some ⟨k.skb, some (i, State.replaced k q)⟩) := by
      have := @slot_setObj_held ι _ { s with dropped := (i, k.seq) :: s.dropped } i
        { s.obj i with sess := some x' } rfl
      rw [Obj.heldSkb, bind_some, hx'] at this
      exact this
    have halive := alive_setObj (s := s) (o := { s.obj i with sess := some x' }) hsome (by simp)
    rw [hslot]
    have hfrom : s.slot (.held i) = some ⟨k.skb, some (i, k)⟩ := by simp [State.slot, Obj.heldSkb, hx, hheld]
    have hA := h.accounts.replace hfrom rfl (show (⟨k.skb, some (i, State.replaced k q)⟩ : Skb) = _ from rfl) rfl hseq
    exact halive ▸ hA

/-- What is held goes to a thread, which leaves the session if it is in it. -/
theorem take (hx : (s.obj i).sess = some x) (hheld : x.held = some k) (hx' : x'.held = none)
    (hins : ∀ j, (s.pc t).inside = some j → j = i) (hown : (s.pc t).own = some own) (hhand : (s.pc t).hand = none) :
    Inv ((s.putSess i x').setPc t (.sending i k own)) := by
  have hsome : (s.obj i).sess ≠ none := by simp [hx]
  have hput : Shape (s.putSess i x') := h.shape.setObj hsome (by simp) fun y hy hne => by
    obtain rfl := some.inj hy
    exact absurd hx' hne
  refine ⟨hput.leave (i := i) (x := x') (by simp [State.putSess, State.setObj]) hx' hins rfl rfl, ?_⟩
  have hslot : ((s.putSess i x').setPc t (.sending i k own)).slot =
      update (update s.slot (.held i) none) (.hand t) (some ⟨k.skb, some (i, k)⟩) := by
    have hkeep : (Pc.sending i k own).ownSkb = ((s.putSess i x').pc t).ownSkb := by
      rw [Pc.ownSkb, Pc.ownSkb]
      exact congrArg _ hown.symm
    rw [slot_setPc_hand hkeep]
    have := @slot_setObj_held ι _ s i { s.obj i with sess := some x' } rfl
    rw [Obj.heldSkb, bind_some, hx'] at this
    rw [State.putSess, this]
    rfl
  have halive := alive_setObj (s := s) (o := { s.obj i with sess := some x' }) hsome (by simp)
  rw [hslot]
  have hA := h.accounts.move (a := .held i) (b := .hand t) (k := ⟨k.skb, some (i, k)⟩)
    (by simp [State.slot, Obj.heldSkb, hx, hheld]) (by simp [State.slot, Pc.handSkb, hhand])
  exact halive ▸ hA

/-- A thread leaves a session that holds nothing. -/
theorem leave (hx : (s.obj i).sess = some x) (hheld : x.held = none)
    (hins : ∀ j, (s.pc t).inside = some j → j = i) (hown : (s.pc t).own = some own) (hhand : (s.pc t).hand = none) :
    Inv (s.setPc t (.freeing own)) := by
  refine ⟨h.shape.leave hx hheld hins rfl rfl, ?_⟩
  have hslot : (s.setPc t (.freeing own)).slot = s.slot := by
    rw [slot_setPc_own (by rw [Pc.handSkb, Pc.handSkb, hhand]; rfl), update_eq_self_iff, Pc.ownSkb]
    exact congrArg _ hown.symm
  rw [hslot]
  exact h.accounts

/-- A thread sends what it took from a session. -/
theorem sendHand (hpc : s.pc t = .sending i k own) :
    Inv ((s.send ⟨k.skb, some (i, k)⟩ true).setPc t (.freeing own)) := by
  have hshape : Shape (s.setPc t (.freeing own)) := h.shape.setPc rfl (by simp [hpc, Pc.inside]) nofun
  refine ⟨hshape.congr rfl rfl rfl rfl rfl hshape.droppedBelow, ?_⟩
  have hslot : (s.setPc t (.freeing own)).slot = update s.slot (.hand t) none :=
    slot_setPc_hand (by rw [hpc]; rfl)
  have hA := h.accounts.sendFrom (a := .hand t) (k := ⟨k.skb, some (i, k)⟩) (by simp [State.slot, hpc]; rfl)
  rw [← hslot] at hA
  exact hA

theorem freeOwn (hown : (s.pc t).own = some own) (hins : (s.pc t).inside = none)
    (hhand : (s.pc t).hand = none) : Inv ({ s with freed := own :: s.freed }.setPc t .idle) := by
  have hshape : Shape (s.setPc t .idle) := h.shape.setPc rfl (by simp [hins]) nofun
  refine ⟨hshape.congr rfl rfl rfl rfl rfl hshape.droppedBelow, ?_⟩
  have hslot : (s.setPc t .idle).slot = update s.slot (.own t) none :=
    slot_setPc_own (by rw [Pc.handSkb, Pc.handSkb, hhand]; rfl)
  have hfrom : s.slot (.own t) = some ⟨own, none⟩ := by simp [State.slot, Pc.ownSkb, hown]
  have hA := h.accounts.freeFrom hfrom fun j (hj : (s.obj j).sess ≠ none) => ⟨hj, nofun⟩
  rw [← hslot] at hA
  exact hA

/-- The caller sends the skb of a thread, or frees it. -/
theorem pass (hpc : s.pc t = .passing own) (pending : Bool) :
    Inv ((s.send ⟨own, none⟩ pending).setPc t .idle) := by
  cases pending with
  | false => exact h.freeOwn (by rw [hpc]; rfl) (by rw [hpc]; rfl) (by rw [hpc]; rfl)
  | true =>
    have hshape : Shape (s.setPc t .idle) := h.shape.setPc rfl (by simp [hpc, Pc.inside]) nofun
    refine ⟨hshape.congr rfl rfl rfl rfl rfl hshape.droppedBelow, ?_⟩
    have hslot : (s.setPc t .idle).slot = update s.slot (.own t) none :=
      slot_setPc_own (by rw [hpc]; rfl)
    have hA := h.accounts.sendFrom (a := .own t) (k := ⟨own, none⟩) (by simp [State.slot, hpc]; rfl)
    rw [← hslot] at hA
    exact hA

/-- A session that holds nothing holds the next skb, with its timer armed. -/
theorem hold (hx : (s.obj i).sess = some x) (hheld : x.held = none)
    (hx' : x'.held = some k) (hcan : x'.canceled = false) (hk : k.skb = s.issued) (hcovers : k.covers = []) :
    Inv { s.setObj i { s.obj i with sess := some x', armed := true } with issued := s.issued + 1 } := by
  have hsome : (s.obj i).sess ≠ none := by simp [hx]
  have hshape : Shape (s.setObj i { s.obj i with sess := some x', armed := true }) :=
    h.shape.setObj hsome (by simp) fun y hy _ => by
      obtain rfl := some.inj hy
      exact .inl ⟨by simp [State.setObj], hcan⟩
  refine ⟨hshape.congr rfl rfl rfl rfl rfl hshape.droppedBelow, ?_⟩
  have hslot : (s.setObj i { s.obj i with sess := some x', armed := true }).slot =
      update s.slot (.held i) (some ⟨k.skb, some (i, k)⟩) := by
    have := @slot_setObj_held ι _ s i { s.obj i with sess := some x', armed := true } rfl
    rwa [Obj.heldSkb, bind_some, hx'] at this
  have hA := h.accounts.enter (a := .held i) (k := ⟨k.skb, some (i, k)⟩) (by simp [State.slot, Obj.heldSkb, hx, hheld]) hk
    fun j g hack => by
      obtain ⟨-, rfl⟩ := Prod.mk.inj (some.inj hack)
      exact hcovers
  have halive := alive_setObj (s := s) (o := { s.obj i with sess := some x', armed := true }) hsome (by simp)
  rw [← hslot] at hA
  exact halive ▸ hA

/-- A new session holds the next skb, with its timer armed. -/
theorem create {n : ℕ} (hx' : x'.held = some k) (hcan : x'.canceled = false) (hk : k.skb = s.issued)
    (hcovers : k.covers = []) :
    Inv { s.setObj s.fresh { s.obj s.fresh with sess := some x', armed := true } with
      queue := s.queue ++ [s.fresh], cnt := n, fresh := s.fresh + 1, issued := s.issued + 1 } := by
  have hnew : (s.obj s.fresh).sess = none := by
    by_contra hne
    exact lt_irrefl _ (h.shape.below _ hne)
  have hshape := h.shape.create (n := n) (o := { s.obj s.fresh with sess := some x', armed := true }) (by simp) rfl
    fun y hy => by
      obtain rfl := some.inj hy
      exact hcan
  refine ⟨hshape.congr rfl rfl rfl rfl rfl hshape.droppedBelow, ?_⟩
  have hslot : (s.setObj s.fresh { s.obj s.fresh with sess := some x', armed := true }).slot =
      update s.slot (.held s.fresh) (some ⟨k.skb, some (s.fresh, k)⟩) := by
    have := @slot_setObj_held ι _ s s.fresh { s.obj s.fresh with sess := some x', armed := true } rfl
    rwa [Obj.heldSkb, bind_some, hx'] at this
  have hA := h.accounts.enter (a := .held s.fresh) (k := ⟨k.skb, some (s.fresh, k)⟩)
    (by simp [State.slot, Obj.heldSkb, hnew]) hk fun j g hack => by
      obtain ⟨-, rfl⟩ := Prod.mk.inj (some.inj hack)
      exact hcovers
  rw [← hslot] at hA
  refine hA.congr_alive fun j m hj halive => ?_
  have hlt := h.shape.droppedBelow j m hj
  have hsame : update s.obj s.fresh { s.obj s.fresh with sess := some x', armed := true } j = s.obj j :=
    update_of_ne (by omega) _ _
  dsimp only [State.setObj] at halive
  rwa [hsame] at halive

/-- A session that nothing is inside of is unlinked and freed, with what it holds. -/
theorem free {n : ℕ} (hx : (s.obj i).sess = some x) (hquiet : s.Quiet i) :
    Inv { s.setObj i {} with queue := s.queue.erase i, cnt := n, freed := (x.held.map Held.skb).toList ++ s.freed } := by
  have hshape := h.shape.free (n := n) hquiet
  refine ⟨hshape.congr rfl rfl rfl rfl rfl hshape.droppedBelow, ?_⟩
  have hslot : (s.setObj i {}).slot = update s.slot (.held i) none :=
    slot_setObj_held (by simp [Obj.handlerSkb, hquiet.1])
  have halive : ∀ j, ((s.setObj i {}).obj j).sess ≠ none → (s.obj j).sess ≠ none ∧ j ≠ i := fun j hj => by
    by_cases hji : j = i
    · subst hji
      simp [State.setObj] at hj
    · simpa [State.setObj, hji] using hj
  have heq : s.slot (.held i) = x.held.map fun g => ⟨g.skb, some (i, g)⟩ := by simp [State.slot, Obj.heldSkb, hx]
  cases hheld : x.held with
  | none =>
    have hsame : update s.slot (.held i) none = s.slot := by
      rw [update_eq_self_iff, heq, hheld, map_none]
    rw [hsame] at hslot
    have hA := h.accounts.congr_alive fun j _ _ (hj : ((s.setObj i {}).obj j).sess ≠ none) => (halive j hj).1
    rw [← hslot] at hA
    exact hA
  | some g =>
    have hfrom : s.slot (.held i) = some ⟨g.skb, some (i, g)⟩ := by rw [heq, hheld, map_some]
    have hA := h.accounts.freeFrom hfrom fun j (hj : ((s.setObj i {}).obj j).sess ≠ none) =>
      ⟨(halive j hj).1, fun g' hack => (halive j hj).2 (Prod.mk.inj (some.inj hack)).1.symm⟩
    rw [← hslot] at hA
    exact hA

end Inv

end WlanDriver.Tcp
