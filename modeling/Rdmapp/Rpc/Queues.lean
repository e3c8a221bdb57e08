/-
  File:      Rdmapp/Rpc/Queues.lean
  Subject:   HOW FULL THE RPC MAKES ITS QUEUES, on the QPs and CQs of the connection helpers.

  `RpcClient` and `RpcServer` bound their work requests by their coroutines: a call posts one send
  while it holds a slot, a worker one receive, a `server_worker` one request at a time. A request
  counts from its post until a poller has taken its completion.

  The numbers are sharp. Receives are posted at once; `n` calls in flight whose completions nobody
  polls fill a client's CQ with two entries each; calls one after the other, on one slot, leave one
  entry each in the server's send CQ.
-/
import Mathlib.Data.Set.Card
import Rdmapp.CqCapacity
import Rdmapp.Rpc.Exchange

namespace Rdmapp
namespace Rpc

open Lib

/-! ## 1. Requests and entries -/

/-- The completion is in the CQ. -/
def SendWr.completed : SendWr → Bool
  | .done _ => true
  | _ => false

/-- From the post until the completion is polled. -/
def SendWr.outstanding : SendWr → Bool
  | .posted | .done _ => true
  | _ => false

def RecvWr.completed (wr : RecvWr) : Bool := wr.completion.isSome

def RecvWr.outstanding : RecvWr → Bool
  | .posted | .packet .. | .flushed => true
  | _ => false

theorem SendWr.outstanding_of_completed {wr : SendWr} (h : wr.completed = true) :
    wr.outstanding = true := by
  cases wr <;> first | rfl | cases h

theorem RecvWr.outstanding_iff {wr : RecvWr} :
    wr.outstanding = true ↔ wr = .posted ∨ wr.completion.isSome = true := by
  cases wr <;> simp [RecvWr.outstanding, RecvWr.completion]

/-- What one side has outstanding on its QP, and the entries in its CQs. -/
structure Usage where
  sends : ℕ∞
  recvs : ℕ∞
  sendEntries : ℕ∞
  recvEntries : ℕ∞

noncomputable def usage (sends : Nat → SendWr) (recvs : Nat → RecvWr) : Usage where
  sends := Set.encard {j | (sends j).outstanding = true}
  recvs := Set.encard {j | (recvs j).outstanding = true}
  sendEntries := Set.encard {j | (sends j).completed = true}
  recvEntries := Set.encard {j | (recvs j).completed = true}

noncomputable def System.clientUsage (s : System) : Usage := usage s.link.sends s.link.recvs

noncomputable def System.serverUsage (s : System) : Usage := usage s.replies s.requests

section Fits

variable {ρ : Type}

/-- The work queues of the QP take them all. -/
def Usage.FitsQp (u : Usage) (attr : IbvQpInitAttr Nat ρ) : Prop :=
  u.sends ≤ attr.maxSendWr.toNat ∧ u.recvs ≤ attr.maxRecvWr.toNat

/-- The entries in the `q`-th CQ. -/
noncomputable def Usage.entries (u : Usage) (attr : IbvQpInitAttr Nat ρ) (q : Nat) : ℕ∞ :=
  (if attr.sendCq = q then u.sendEntries else 0) + if attr.recvCq = q then u.recvEntries else 0

/-- The CQs hold them all. -/
def Usage.FitsCqs (u : Usage) (qp : IbvQpInitAttr Nat ρ × List Nat) : Prop :=
  ∀ q, u.entries qp.1 q ≤ qp.2.getD q 0

end Fits

theorem encard_le_of_injOn {p : Nat → Bool} {n : Nat} (f : Nat → Nat)
    (hlt : ∀ j, p j = true → f j < n)
    (hinj : ∀ j j', p j = true → p j' = true → f j = f j' → j = j') :
    Set.encard {j | p j = true} ≤ n := by
  have hle := Set.encard_le_encard_of_injOn (s := {j | p j = true}) (t := ↑(Finset.range n))
    (f := f) (fun j hj => Finset.mem_coe.mpr (Finset.mem_range.mpr (hlt j hj)))
    fun j hj j' hj' he => hinj j j' hj hj' he
  rwa [Set.encard_coe_eq_coe_finsetCard, Finset.card_range] at hle

theorem le_encard {p : Nat → Bool} {n : Nat} (h : ∀ j, j < n → p j = true) :
    n ≤ Set.encard {j | p j = true} := by
  have hle := Set.encard_le_encard (s := ↑(Finset.range n)) (t := {j | p j = true})
    fun j hj => h j (Finset.mem_range.mp (Finset.mem_coe.mp hj))
  rwa [Set.encard_coe_eq_coe_finsetCard, Finset.card_range] at hle

/-! ## 2. The bounds -/

/-- The workers there are. -/
structure Staffed (m k : Nat) (s : System) : Prop where
  client : ∀ w, m ≤ w → (s.link.client.workers w).pc = .exited
  server : ∀ v, k ≤ v → (s.server.workers v).pc = .absent
  replies : ∀ v, s.replies v ≠ .done false

section Bounds

variable {o : ByteOrder} {m k : Nat} {s t : System} {c d v w : Nat}

theorem staffed_start (m k : Nat) : Staffed m k (System.start m k) where
  client _ h := if_neg (Nat.not_lt.mpr h)
  server _ h := if_neg (Nat.not_lt.mpr h)
  replies _ := nofun

theorem System.tell_replies {a : ServerAction} (h : s.replies v ≠ .done false) :
    (s.tell a).replies v ≠ .done false := by
  have put : ∀ {u : Nat} {wr : SendWr}, wr ≠ .done false →
      Function.update s.replies u wr v ≠ .done false := by
    intro u wr hwr
    rcases eq_or_ne v u with rfl | hne
    · rwa [Function.update_self]
    · rwa [Function.update_of_ne hne]
  cases a with
  | send u => exact put nofun
  | sendDone u => exact put nofun
  | handle u payload resp n =>
    rw [(System.tell_handle s u payload resp n).2]
    exact h
  | _ => exact h

/-- Who makes a statement is there. -/
theorem ServerEnabled.present {s : Server} {a : ServerAction} (h : ServerEnabled s a) :
    (s.workers a.worker).pc ≠ .absent := by
  have other : ∀ {p q : ServerPc}, p = q → q ≠ .absent → p ≠ .absent := fun hp hq => hp ▸ hq
  cases a with
  | handle v payload resp n => exact other h.1 nofun
  | postRecv | recvDone | schedule | stamp | send | sendDone => exact other h nofun

theorem staffed_step {a : SystemAction} (h : Staffed m k s)
    (ht : (systemMachine o m).step s a = some t) : Staffed m k t := by
  obtain ⟨he, rfl⟩ := Machine.guarded_step_eq_some.mp ht
  cases a with
  | client a =>
    refine ⟨fun w hw => ?_, h.server, h.replies⟩
    have hexited := h.client w hw
    have hne : a.worker ≠ some w := by
      obtain ⟨-, ⟨-, he⟩, -⟩ := he
      intro ha
      cases a with
      | postRecv | check | copy => cases ha; cases hexited.symm.trans he
      | recvDone | wake => cases ha; cases hexited.symm.trans he.1
      | _ => cases ha
    exact (congrArg Worker.pc (next_worker hne)).trans hexited
  | server a =>
    refine ⟨?_, fun v hv => ?_, fun v => System.tell_replies (h.replies v)⟩
    · show ∀ w, m ≤ w → ((s.tell a).link.client.workers w).pc = .exited
      rw [System.tell_link]
      exact h.client
    · have habsent := h.server v hv
      have hne : v ≠ a.worker := fun he' => he.1.present (he' ▸ habsent)
      exact (congrArg ServerWorker.pc (serverNext_of_ne hne)).trans habsent
  | answer c v w =>
    refine ⟨h.client, h.server, fun u => ?_⟩
    show Function.update s.replies v (.done true) u ≠ .done false
    rcases eq_or_ne u v with rfl | hne
    · rw [Function.update_self]
      exact nofun
    · rw [Function.update_of_ne hne]
      exact h.replies u
  | deliver | completeSend => exact ⟨h.client, h.server, h.replies⟩

theorem staffed_reach (h : (systemMachine o m).Reach (System.start m k) s) : Staffed m k s :=
  h.invariant (staffed_start m k) fun _ _ _ hi _ ht => staffed_step hi ht

/-- A call with a send outstanding is suspended on it. -/
theorem SystemInv.sending (h : SystemInv o m s) (hc : (s.link.sends c).outstanding = true) :
    (s.link.client.calls c).pc = .sending := by
  refine (h.link.call c).sending.mpr ?_
  cases hs : s.link.sends c with
  | posted => exact Or.inl rfl
  | done ok => exact Or.inr ⟨ok, rfl⟩
  | idle | dispatched => rw [hs] at hc; cases hc

/-- **One send a slot.** -/
theorem SystemInv.sends_le (h : SystemInv o m s) : s.clientUsage.sends ≤ m := by
  have hholds : ∀ c, (s.link.sends c).outstanding = true →
      (s.link.client.calls c).pc.holds = true := fun c hc => by rw [h.sending hc]; rfl
  exact encard_le_of_injOn (fun c => (s.link.client.calls c).slotIdx)
    (fun c hc => h.link.client.slot_lt (hholds c hc))
    fun c d hc hd he => h.link.client.eq_of_slot (hholds d hd) (hholds c hc) he

/-- **One receive a worker.** -/
theorem SystemInv.recvs_le (h : SystemInv o m s) (hz : Staffed m k s) :
    s.clientUsage.recvs ≤ m := by
  refine encard_le_of_injOn id (fun w hw => Nat.lt_of_not_le fun hle => ?_) fun _ _ _ _ he => he
  have hp := (h.link.worker w).receiving.mpr (RecvWr.outstanding_iff.mp hw)
  cases (hz.client w hle).symm.trans hp

theorem SystemInv.requests_le (h : SystemInv o m s) (hz : Staffed m k s) :
    s.serverUsage.recvs ≤ k := by
  refine encard_le_of_injOn id (fun v hv => Nat.lt_of_not_le fun hle => ?_) fun _ _ _ _ he => he
  have hp := (h.server v).receiving.mpr (RecvWr.outstanding_iff.mp hv)
  cases (hz.server v hle).symm.trans hp

theorem SystemInv.replies_le (h : SystemInv o m s) (hz : Staffed m k s) :
    s.serverUsage.sends ≤ k := by
  refine encard_le_of_injOn id (fun v hv => Nat.lt_of_not_le fun hle => ?_) fun _ _ _ _ he => he
  have hp : (s.server.workers v).pc = .sending := by
    refine (h.server v).sending.mpr ?_
    have hne := hz.replies v
    cases hs : s.replies v with
    | posted => exact Or.inl rfl
    | done ok =>
      cases ok with
      | true => exact Or.inr rfl
      | false => exact absurd hs hne
    | idle | dispatched => rw [hs] at hv; cases hv
  cases (hz.server v hle).symm.trans hp

theorem usage_sendEntries_le (sends : Nat → SendWr) (recvs : Nat → RecvWr) :
    (usage sends recvs).sendEntries ≤ (usage sends recvs).sends :=
  Set.encard_le_encard fun _ hj => SendWr.outstanding_of_completed hj

theorem usage_recvEntries_le (sends : Nat → SendWr) (recvs : Nat → RecvWr) :
    (usage sends recvs).recvEntries ≤ (usage sends recvs).recvs :=
  Set.encard_le_encard fun _ hj => RecvWr.outstanding_iff.mpr (Or.inr hj)

end Bounds

/-! ## 3. Full queues -/

section Runs

variable (o : ByteOrder) {m k : Nat}

theorem exists_recvs (n : Nat) (hn : n ≤ m) :
    ∃ s, (systemMachine o m).Reach (System.start m k) s ∧ s.link.client.fault = none ∧
      (∀ w, w < n → s.link.recvs w = .posted) ∧
      ∀ w, n ≤ w → w < m → (s.link.client.workers w).pc = .post := by
  induction n with
  | zero => exact ⟨_, .start, rfl, nofun, fun w _ hw => if_pos hw⟩
  | succ n ih =>
    obtain ⟨s, hs, hf, hposted, hpost⟩ := ih (Nat.le_of_succ_le hn)
    obtain ⟨t, ht⟩ := (Scene.start (o := o) (m := m) (c := 0) (v := 0) (w := n) (i := 0) hf).waits
      (hpost n (Nat.le_refl n) hn)
    refine ⟨t, hs.trans ht.reach, ht.fault, fun w hw => ?_, fun w hw hlt => ?_⟩
    · rcases eq_or_ne w n with rfl | hne
      · exact RecvWr.eq_of_bare ht.recv nofun
      · exact (ht.apart.recv w hne).trans (hposted w (by omega))
    · rw [ht.apart.worker w (Nat.ne_of_gt hw)]
      exact hpost w (Nat.le_of_succ_le hw) hlt

theorem exists_requests (n : Nat) (hn : n ≤ k) :
    ∃ s, (systemMachine o m).Reach (System.start m k) s ∧ s.link.client.fault = none ∧
      (∀ v, v < n → s.requests v = .posted) ∧
      ∀ v, n ≤ v → v < k → (s.server.workers v).pc = .post := by
  induction n with
  | zero => exact ⟨_, .start, rfl, nofun, fun v _ hv => if_pos hv⟩
  | succ n ih =>
    obtain ⟨s, hs, hf, hposted, hpost⟩ := ih (Nat.le_of_succ_le hn)
    obtain ⟨t, ht⟩ := (Scene.start (o := o) (m := m) (c := 0) (v := n) (w := 0) (i := 0)
      hf).postsRecv (hpost n (Nat.le_refl n) hn)
    refine ⟨t, hs.trans ht.reach, ht.fault, fun v hv => ?_, fun v hv hlt => ?_⟩
    · rcases eq_or_ne v n with rfl | hne
      · exact RecvWr.eq_of_bare ht.request nofun
      · exact (ht.apart.request v hne).trans (hposted v (by omega))
    · rw [ht.apart.server v (Nat.ne_of_gt hv)]
      exact hpost v (Nat.le_of_succ_le hv) hlt

/-- Calls in flight: `n` of them, nothing polled on the client's side. -/
structure InFlight (m n : Nat) (s : System) : Prop where
  fault : s.link.client.fault = none
  calls : ∀ c, n ≤ c → (s.link.client.calls c).pc = .idle ∧ s.link.delivered c = false
  slots : ∀ i, n ≤ i → i < m → i ∈ s.link.client.freeSlots
  workers : ∀ w, n ≤ w → w < m → (s.link.client.workers w).pc = .post
  server : (s.server.workers 0).pc = .post
  sends : ∀ c, c < n → s.link.sends c = .done true
  recvs : ∀ w, w < n → (s.link.recvs w).completed = true

theorem exists_inFlight (hk : 0 < k) (n : Nat) (hn : n ≤ m) :
    ∃ s, (systemMachine o m).Reach (System.start m k) s ∧ InFlight m n s := by
  induction n with
  | zero =>
    exact ⟨_, .start, rfl, fun _ _ => ⟨rfl, rfl⟩, fun i _ hi => List.mem_range.mpr hi,
      fun w _ hw => if_pos hw, if_pos hk, nofun, nofun⟩
  | succ n ih =>
    obtain ⟨s, hs, h⟩ := ih (Nat.le_of_succ_le hn)
    have hcall := h.calls n (Nat.le_refl n)
    obtain ⟨s₁, f, h₁⟩ := (Scene.start (o := o) (m := m) (c := n) (v := 0) (w := n) (i := n)
      h.fault).exchanges hcall.1 (decide_eq_true (h.slots n (Nat.le_refl n) hn)) hcall.2
      (h.workers n (Nat.le_refl n) hn) h.server
    obtain ⟨t, ht⟩ := h₁.sent rfl rfl
    have ha := ht.apart
    have split : ∀ {j : Nat}, j < n + 1 → j = n ∨ j ≠ n ∧ j < n := fun hj => by omega
    refine ⟨t, hs.trans ht.reach, ht.fault, fun c hc => ?_, fun i hi hlt => ?_, fun w hw hlt => ?_,
      ht.serverPc, fun c hc => ?_, fun w hw => ?_⟩
    · have hne : c ≠ n := Nat.ne_of_gt hc
      have hc := h.calls c (Nat.le_of_succ_le hc)
      exact ⟨(ha.call c hne).trans hc.1, (ha.delivered c hne).trans hc.2⟩
    · exact ha.free i (Nat.ne_of_gt hi) (h.slots i (Nat.le_of_succ_le hi) hlt)
    · rw [ha.worker w (Nat.ne_of_gt hw)]
      exact h.workers w (Nat.le_of_succ_le hw) hlt
    · rcases split hc with rfl | ⟨hne, hlt⟩
      · exact ht.send
      · exact (ha.send c hne).trans (h.sends c hlt)
    · rcases split hw with rfl | ⟨hne, hlt⟩
      · obtain ⟨bytes, hbytes⟩ := RecvWr.packet_of_bare ht.recv
        rw [hbytes]
        rfl
      · rw [ha.recv w hne]
        exact h.recvs w hlt

/-- Calls one after the other: `n` of them, all returned, nothing polled by the first `n` workers of
    the server since they have sent. -/
structure OneByOne (k n : Nat) (s : System) : Prop where
  fault : s.link.client.fault = none
  calls : ∀ c, n ≤ c → (s.link.client.calls c).pc = .idle ∧ s.link.delivered c = false
  slot : 0 ∈ s.link.client.freeSlots
  worker : (s.link.client.workers 0).pc = .post
  server : ∀ v, n ≤ v → v < k → (s.server.workers v).pc = .post
  replies : ∀ v, v < n → s.replies v = .done true

theorem exists_oneByOne (hm : m < 2 ^ 32) (hpos : 0 < m) (n : Nat) (hn : n ≤ k) :
    ∃ s, (systemMachine o m).Reach (System.start m k) s ∧ OneByOne k n s := by
  induction n with
  | zero =>
    exact ⟨_, .start, rfl, fun _ _ => ⟨rfl, rfl⟩, List.mem_range.mpr hpos, if_pos hpos,
      fun v _ hv => if_pos hv, nofun⟩
  | succ n ih =>
    obtain ⟨s, hs, h⟩ := ih (Nat.le_of_succ_le hn)
    have hcall := h.calls n (Nat.le_refl n)
    obtain ⟨s₁, f, h₁⟩ := (Scene.start (o := o) (m := m) (c := n) (v := n) (w := 0) (i := 0)
      h.fault).exchanges hcall.1 (decide_eq_true h.slot) hcall.2 h.worker
      (h.server n (Nat.le_refl n) hn)
    obtain ⟨t, ht⟩ := h₁.returns hm (systemInv_reach hm hs) rfl rfl rfl rfl rfl
    have ha := ht.apart
    refine ⟨t, hs.trans ht.reach, ht.fault, fun c hc => ?_, of_decide_eq_true ht.free, ht.workerPc,
      fun v hv hlt => ?_, fun v hv => ?_⟩
    · have hne : c ≠ n := Nat.ne_of_gt hc
      have hc := h.calls c (Nat.le_of_succ_le hc)
      exact ⟨(ha.call c hne).trans hc.1, (ha.delivered c hne).trans hc.2⟩
    · rw [ha.server v (Nat.ne_of_gt hv)]
      exact h.server v (Nat.le_of_succ_le hv) hlt
    · rcases eq_or_ne v n with rfl | hne
      · exact ht.reply
      · exact (ha.reply v hne).trans (h.replies v (by omega))

end Runs

/-! ## 4. What is enough -/

section Enough

variable {m k : Nat}

/-- The client's QP and CQ. -/
abbrev clientQp : IbvQpInitAttr Nat Empty × List Nat := CqCapacity.Helper.connector.call none

/-- The server's QP and CQs. -/
abbrev serverQp : IbvQpInitAttr Nat Empty × List Nat := CqCapacity.Helper.acceptor.call none

/-- One CQ takes both sides' entries. -/
theorem fitsCqs_client (u : Usage) :
    u.FitsCqs clientQp ↔ u.sendEntries + u.recvEntries ≤ (512 : Nat) := by
  constructor
  · exact fun h => h 0
  · intro h q
    cases q with
    | zero => exact h
    | succ q => exact (add_zero (0 : ℕ∞)).le.trans zero_le

/-- Each side has a CQ of its own. -/
theorem fitsCqs_server (u : Usage) :
    u.FitsCqs serverQp ↔ u.sendEntries ≤ (256 : Nat) ∧ u.recvEntries ≤ (256 : Nat) := by
  have hsend : u.entries serverQp.1 0 = u.sendEntries := add_zero _
  have hrecv : u.entries serverQp.1 1 = u.recvEntries := zero_add _
  constructor
  · intro h
    exact ⟨hsend ▸ h 0, hrecv ▸ h 1⟩
  · rintro ⟨hs, hr⟩ q
    match q with
    | 0 => exact hsend.le.trans hs
    | 1 => exact hrecv.le.trans hr
    | q + 2 => exact (add_zero (0 : ℕ∞)).le.trans zero_le

/-- **Which depths the QPs of the connection helpers can take.** In every state of a client of `m`
    slots and a server of `k` workers their work queues take what is outstanding, if and only if
    `m ≤ 512` and `k ≤ 2048`. -/
theorem rpc_fits_qp_iff (o : ByteOrder) (m k : Nat) :
    (∀ s, (systemMachine o m).Reach (System.start m k) s →
      s.clientUsage.FitsQp clientQp.1 ∧ s.serverUsage.FitsQp serverQp.1) ↔ m ≤ 512 ∧ k ≤ 2048 := by
  constructor
  · intro h
    obtain ⟨s, hs, -, hposted, -⟩ := exists_recvs o (k := k) m (Nat.le_refl m)
    obtain ⟨t, ht, -, hrequests, -⟩ := exists_requests o (m := m) k (Nat.le_refl k)
    have hclient : (m : ℕ∞) ≤ s.clientUsage.recvs :=
      le_encard fun w hw => by rw [hposted w hw]; rfl
    have hserver : (k : ℕ∞) ≤ t.serverUsage.recvs :=
      le_encard fun v hv => by rw [hrequests v hv]; rfl
    exact ⟨ENat.natCast_le_natCast.mp (hclient.trans (h s hs).1.2),
      ENat.natCast_le_natCast.mp (hserver.trans (h t ht).2.2)⟩
  · rintro ⟨hm, hk⟩ s hs
    have hi := systemInv_reach (hm.trans_lt (by decide)) hs
    have hz := staffed_reach hs
    have hm' : (m : ℕ∞) ≤ (512 : Nat) := ENat.natCast_le_natCast.mpr hm
    have hk' : (k : ℕ∞) ≤ (2048 : Nat) := ENat.natCast_le_natCast.mpr hk
    exact ⟨⟨hi.sends_le.trans hm', (hi.recvs_le hz).trans hm'⟩,
      (hi.replies_le hz).trans hk', (hi.requests_le hz).trans hk'⟩

/-- **Which depths their CQs can take.** In every state of a client and a server the CQs hold the
    entries nobody has polled, if and only if `m ≤ 256` and `k ≤ 256`. -/
theorem rpc_fits_cqs_iff (o : ByteOrder) (m k : Nat) (hm : 0 < m) (hk : 0 < k) :
    (∀ s, (systemMachine o m).Reach (System.start m k) s →
      s.clientUsage.FitsCqs clientQp ∧ s.serverUsage.FitsCqs serverQp) ↔ m ≤ 256 ∧ k ≤ 256 := by
  constructor
  · intro h
    have hm256 : m ≤ 256 := by
      obtain ⟨s, hs, hfull⟩ := exists_inFlight o hk m (Nat.le_refl m)
      have hsends : (m : ℕ∞) ≤ s.clientUsage.sendEntries :=
        le_encard fun c hc => by rw [hfull.sends c hc]; rfl
      have hrecvs : (m : ℕ∞) ≤ s.clientUsage.recvEntries := le_encard hfull.recvs
      have hle : ((m + m : Nat) : ℕ∞) ≤ (512 : Nat) := by
        rw [Nat.cast_add]
        exact (add_le_add hsends hrecvs).trans ((fitsCqs_client _).mp (h s hs).1)
      have := ENat.natCast_le_natCast.mp hle
      omega
    refine ⟨hm256, ?_⟩
    obtain ⟨s, hs, hfull⟩ := exists_oneByOne o (hm256.trans_lt (by decide)) hm k (Nat.le_refl k)
    have hreplies : (k : ℕ∞) ≤ s.serverUsage.sendEntries :=
      le_encard fun v hv => by rw [hfull.replies v hv]; rfl
    exact ENat.natCast_le_natCast.mp (hreplies.trans ((fitsCqs_server _).mp (h s hs).2).1)
  · rintro ⟨hm256, hk256⟩ s hs
    have hi := systemInv_reach (hm256.trans_lt (by decide)) hs
    have hz := staffed_reach hs
    have hm' : (m : ℕ∞) ≤ (256 : Nat) := ENat.natCast_le_natCast.mpr hm256
    have hk' : (k : ℕ∞) ≤ (256 : Nat) := ENat.natCast_le_natCast.mpr hk256
    have hsends := (usage_sendEntries_le s.link.sends s.link.recvs).trans (hi.sends_le.trans hm')
    have hrecvs :=
      (usage_recvEntries_le s.link.sends s.link.recvs).trans ((hi.recvs_le hz).trans hm')
    refine ⟨(fitsCqs_client _).mpr ?_, (fitsCqs_server _).mpr ⟨?_, ?_⟩⟩
    · exact (add_le_add hsends hrecvs).trans (by norm_num)
    · exact (usage_sendEntries_le _ _).trans ((hi.replies_le hz).trans hk')
    · exact (usage_recvEntries_le _ _).trans ((hi.requests_le hz).trans hk')

end Enough

/-- The depths `async_rpc.cc` passes, 512 and 2048: callers that use every slot fill the CQs up. -/
theorem rpc_fits_cqs_async_rpc : ∃ s, (systemMachine .little 512).Reach (System.start 512 2048) s ∧
    ¬ (s.clientUsage.FitsCqs clientQp ∧ s.serverUsage.FitsCqs serverQp) := by
  by_contra h
  have hle := (rpc_fits_cqs_iff .little 512 2048 (by decide) (by decide)).mp fun s hs =>
    by_contra fun hn => h ⟨s, hs, hn⟩
  exact absurd hle.1 (by decide)

end Rpc
end Rdmapp
