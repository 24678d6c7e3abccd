import SolanaBench.FanOut.Dispatcher
import SolanaBench.Lib.BoundOnce
import SolanaBench.Lib.EventMachine

/-! Which nonce a registration names. The nonce id of a trigger reaches the dispatcher
through a channel that it reads destructively, its signed variants through the pool. -/
namespace SolanaBench.FanOut.NonceAttribution

open Nonce Preparer Dispatcher
open Matcher (RegisterEvent)

/-- A trigger the dispatcher has looked up in the channel and not yet in the pool.
`channel` is what the channel held when it began. -/
structure Hand where
  trigger : TriggerEvent
  channel : List PreparedTrigger
  prepared : Option PreparedTrigger

/-- The preparer, the dispatcher, and the pool and the channel between them. -/
structure System where
  pending : List ScheduleEntry
  rotators : Rotators
  work : Option Work := none
  pool : TxPool := {}
  channel : List PreparedTrigger := []
  hand : Option Hand := none

structure Config where
  preparer : PreparerConfig
  dispatcher : DispatcherConfig

inductive Input
  /-- `take_ready` succeeds for the entry at the front. -/
  | claim (nonce : TakenNonce) (now : Instant)
  /-- The next sender of the entry under way. -/
  | sign (now : Instant)
  | announce
  /-- A trigger is received and looked up in the channel. -/
  | trigger (t : TriggerEvent)
  | takeAll

def step (cfg : Config) (sys : System) : Input → System × List Output
  | .claim nonce now =>
    match sys.work, sys.pending with
    | none, entry :: pending =>
      ({ sys with pending := pending, work := some ⟨entry, nonce, now, cfg.preparer.senders⟩ }, [])
    | _, _ => (sys, [])
  | .sign now =>
    match sys.work with
    | some ⟨entry, nonce, preparedAt, sc :: senders⟩ =>
      let r := prepareSender cfg.preparer sys.rotators sys.pool
        ⟨entry, nonce, preparedAt, sc :: senders⟩ sc now
      ({ sys with
          rotators := r.1
          pool := r.2.1
          work := some ⟨entry, nonce, preparedAt, senders⟩ }, r.2.2.map fun c => .fetchAdd c 1)
    | _ => (sys, [])
  | .announce =>
    match sys.work with
    | some ⟨entry, nonce, _, []⟩ =>
      ({ sys with
          work := none
          channel := sys.channel ++ [⟨entry.slot, entry.tick, nonce.id⟩] }, [])
    | _ => (sys, [])
  | .trigger t =>
    match sys.hand with
    | none =>
      let r := recvPrepared t sys.channel
      ({ sys with channel := r.2, hand := some ⟨t, sys.channel, r.1⟩ }, [])
    | some _ => (sys, [])
  | .takeAll =>
    match sys.hand with
    | none => (sys, [])
    | some h =>
      let r := sys.pool.takeAllFor h.trigger.slot h.trigger.tick
      ({ sys with pool := r.1, hand := none },
        dispatch cfg.dispatcher h.trigger h.prepared r.2)

def machine (cfg : Config) : EventMachine System Input Output where
  step := step cfg

/-- The whole schedule is there from the start; the preparer comes to an entry when it does. -/
def start (s : Schedule) (n : ℕ) (rotators : Rotators) : System where
  pending := s.chunks n
  rotators := rotators

/-- A registration names the nonce its variant was signed with. -/
def Attributed : Output → Prop
  | .send (.register reg presigned) => reg.nonceAccountId = presigned.nonce.id
  | _ => True

/-- When a trigger takes variants of known senders out of the pool, its message was one
of the first ten in the channel as the dispatcher began, or the nonce has id 0. -/
def Announced (cfg : Config) (sys : System) : Input → Prop
  | .takeAll => ∀ h ∈ sys.hand, (∃ p ∈ h.channel.take 10, isFor h.trigger p) ∨
      ∀ v ∈ (sys.pool.takeAllFor h.trigger.slot h.trigger.tick).2,
        known cfg.dispatcher v.1 → v.2.nonce.id = 0
  | _ => True

/-! ## The nonce of an entry -/

/-- Everything in the system that says which nonce an entry has. -/
def System.bindings (sys : System) : List (ScheduleEntry × NonceId) :=
  sys.work.toList.map (fun w => (w.entry, w.nonce.id)) ++
  sys.pool.map.entries.map (fun e => (e.1.1, e.2.nonce.id)) ++
  (sys.channel ++ (sys.hand.bind Hand.prepared).toList).map
    fun p => (⟨p.slot, p.tick⟩, p.nonceAccountId)

structure Inv (sys : System) : Prop where
  bound : BoundOnce sys.pending sys.bindings
  scanned : ∀ h ∈ sys.hand, h.prepared = (recvPrepared h.trigger h.channel).1

/-- The three carriers of a binding. -/
theorem mem_bindings {sys : System} {b : ScheduleEntry × NonceId} :
    b ∈ sys.bindings ↔ (∃ w ∈ sys.work, (w.entry, w.nonce.id) = b) ∨
      (∃ e ∈ sys.pool.map.entries, (e.1.1, e.2.nonce.id) = b) ∨
      ∃ p, (p ∈ sys.channel ∨ ∃ h ∈ sys.hand, p ∈ h.prepared) ∧
        (⟨p.slot, p.tick⟩, p.nonceAccountId) = b := by
  simp [System.bindings, or_and_right, exists_or, Option.bind_eq_some_iff]

namespace Inv

variable {cfg : Config} {sys : System}

theorem start (s : Schedule) (n : ℕ) (rotators : Rotators) : Inv (start s n rotators) where
  bound := (BoundOnce.start (s.nodup_chunks n)).mono fun b hb => by
    rcases mem_bindings.mp hb with ⟨w, hw, -⟩ | ⟨e, he, -⟩ | ⟨p, hp | ⟨h, hh, -⟩, -⟩
    · cases hw
    · cases he
    · cases hp
    · cases hh
  scanned h hh := by cases hh

theorem claim (h : Inv sys) (nonce : TakenNonce) (now : Instant) :
    Inv (step cfg sys (.claim nonce now)).1 := by
  unfold NonceAttribution.step
  dsimp only
  split
  · rename_i entry pending hwork hpending
    have hbound := h.bound
    rw [hpending] at hbound
    refine ⟨(hbound.draw nonce.id).mono fun b hb => ?_, h.scanned⟩
    rcases mem_bindings.mp hb with ⟨w, hw, rfl⟩ | hrest
    · obtain rfl := Option.some.inj hw
      exact List.mem_cons_self
    · exact List.mem_cons_of_mem _ (mem_bindings.mpr (Or.inr hrest))
  · exact h

theorem sign (h : Inv sys) (now : Instant) : Inv (step cfg sys (.sign now)).1 := by
  unfold NonceAttribution.step
  dsimp only
  split
  · rename_i entry nonce preparedAt sc senders hwork
    refine ⟨h.bound.mono fun b hb => mem_bindings.mpr ?_, h.scanned⟩
    rcases mem_bindings.mp hb with ⟨w, hw, rfl⟩ | ⟨e, he, rfl⟩ | hrest
    · obtain rfl := Option.some.inj hw
      exact Or.inl ⟨_, hwork, rfl⟩
    · rcases mem_prepareSender he with hold | ⟨hentry, hnonce⟩
      · exact Or.inr (Or.inl ⟨e, hold, rfl⟩)
      · exact Or.inl ⟨_, hwork, by rw [hentry, hnonce]⟩
    · exact Or.inr (Or.inr hrest)
  · exact h

theorem announce (h : Inv sys) : Inv (step cfg sys .announce).1 := by
  unfold NonceAttribution.step
  dsimp only
  split
  · rename_i entry nonce preparedAt hwork
    refine ⟨h.bound.mono fun b hb => mem_bindings.mpr ?_, h.scanned⟩
    rcases mem_bindings.mp hb with ⟨w, hw, -⟩ | hpool | ⟨p, hp | hhand, rfl⟩
    · cases hw
    · exact Or.inr (Or.inl hpool)
    · rcases List.mem_append.mp hp with hold | hnew
      · exact Or.inr (Or.inr ⟨p, Or.inl hold, rfl⟩)
      · obtain rfl := List.mem_singleton.mp hnew
        exact Or.inl ⟨_, hwork, rfl⟩
    · exact Or.inr (Or.inr ⟨p, Or.inr hhand, rfl⟩)
  · exact h

theorem trigger (h : Inv sys) (t : TriggerEvent) : Inv (step cfg sys (.trigger t)).1 := by
  unfold NonceAttribution.step
  dsimp only
  split
  · rename_i hhand
    refine ⟨h.bound.mono fun b hb => mem_bindings.mpr ?_, ?_⟩
    · rcases mem_bindings.mp hb with hwork | hpool | ⟨p, hp | ⟨g, hg, hp⟩, rfl⟩
      · exact Or.inl hwork
      · exact Or.inr (Or.inl hpool)
      · have hold := (ChannelScan.scan_snd_suffix (isFor t) 10 sys.channel).subset hp
        exact Or.inr (Or.inr ⟨p, Or.inl hold, rfl⟩)
      · obtain rfl := Option.some.inj hg
        exact Or.inr (Or.inr ⟨p, Or.inl (ChannelScan.scan_some hp).1, rfl⟩)
    · intro g hg
      obtain rfl := Option.some.inj hg
      rfl
  · exact h

theorem takeAll (h : Inv sys) : Inv (step cfg sys .takeAll).1 := by
  unfold NonceAttribution.step
  dsimp only
  split
  · exact h
  · refine ⟨h.bound.mono fun b hb => mem_bindings.mpr ?_, fun g hg => by cases hg⟩
    rcases mem_bindings.mp hb with hwork | ⟨e, he, rfl⟩ | ⟨p, hp | ⟨g, hg, -⟩, rfl⟩
    · exact Or.inl hwork
    · exact Or.inr (Or.inl ⟨e, List.mem_of_mem_filter he, rfl⟩)
    · exact Or.inr (Or.inr ⟨p, Or.inl hp, rfl⟩)
    · cases hg

theorem step (h : Inv sys) (i : Input) : Inv (step cfg sys i).1 := by
  cases i with
  | claim nonce now => exact h.claim nonce now
  | sign now => exact h.sign now
  | announce => exact h.announce
  | trigger t => exact h.trigger t
  | takeAll => exact h.takeAll

end Inv

/-! ## What is dispatched -/

theorem forall_attributed {os : List Output} :
    (∀ o ∈ os, Attributed o) ↔
      ∀ reg pre, .send (.register reg pre) ∈ os → reg.nonceAccountId = pre.nonce.id := by
  constructor
  · intro h reg pre hmem
    exact h _ hmem
  · intro h o ho
    cases o with
    | send e =>
      cases e with
      | register reg pre => exact h reg pre ho
      | _ => trivial
    | _ => trivial

/-- A message that was found names the nonce of every pooled variant of its entry. -/
theorem nonce_of_prepared {sys : System} (h : Inv sys) {g : Hand} (hg : sys.hand = some g)
    {p : PreparedTrigger} (hp : g.prepared = some p) {v : ℕ × PreSignedTx}
    (hv : v ∈ (sys.pool.takeAllFor g.trigger.slot g.trigger.tick).2) :
    p.nonceAccountId = v.2.nonce.id := by
  have hfor : isFor g.trigger p := (ChannelScan.scan_some (h.scanned g hg ▸ hp)).2
  obtain ⟨hslot, htick⟩ : p.slot = g.trigger.slot ∧ p.tick = g.trigger.tick := by
    simpa [isFor] using hfor
  have hmessage : (⟨p.slot, p.tick⟩, p.nonceAccountId) ∈ sys.bindings :=
    mem_bindings.mpr (Or.inr (Or.inr ⟨p, Or.inr ⟨g, hg, hp⟩, rfl⟩))
  have hvariant : (⟨g.trigger.slot, g.trigger.tick⟩, v.2.nonce.id) ∈ sys.bindings :=
    mem_bindings.mpr (Or.inr (Or.inl ⟨_, TxPool.mem_takeAllFor hv, rfl⟩))
  exact h.bound.agree _ hmessage _ hvariant (by rw [hslot, htick])

theorem takeAll_attributed {cfg : Config} {sys : System} (h : Inv sys) :
    (∀ o ∈ (step cfg sys .takeAll).2, Attributed o) ↔ Announced cfg sys .takeAll := by
  unfold step Announced
  cases hg : sys.hand with
  | none => simp
  | some g =>
    dsimp only
    rw [forall_attributed,
      forall_register_dispatch _ _ (P := fun id presigned => id = presigned.nonce.id)]
    have hfound : g.prepared.isSome ↔ ∃ p ∈ g.channel.take 10, isFor g.trigger p := by
      rw [h.scanned g hg]
      exact ChannelScan.scan_isSome
    simp only [Option.mem_some_iff, forall_eq', ← hfound]
    cases hp : g.prepared with
    | none =>
      constructor
      · intro hall
        exact Or.inr fun v hv hknown => (hall v hv hknown).symm
      · rintro (hsome | hzero)
        · cases hsome
        · exact fun v hv hknown => (hzero v hv hknown).symm
    | some p => exact ⟨fun _ => Or.inl rfl, fun _ v hv _ => nonce_of_prepared h hg hp hv⟩

/-- Attempts are registered only when variants are taken out of the pool. -/
theorem eq_takeAll_of_register {cfg : Config} {sys : System} {i : Input} {reg : RegisterEvent}
    {presigned : PreSignedTx} (h : .send (.register reg presigned) ∈ (step cfg sys i).2) :
    i = .takeAll := by
  unfold step at h
  cases i with
  | takeAll => rfl
  | sign now =>
    dsimp only at h
    split at h
    · obtain ⟨c, -, hc⟩ := List.mem_map.mp h
      cases hc
    · cases h
  | claim nonce now =>
    dsimp only at h
    split at h <;> cases h
  | announce =>
    dsimp only at h
    split at h <;> cases h
  | trigger t =>
    dsimp only at h
    split at h <;> cases h

/-- The step lemma: the registrations of a trigger name the right nonce exactly if its
message was found, or its variants carry the default id. -/
theorem step_attributed (cfg : Config) {sys : System} (i : Input) (h : Inv sys) :
    (∀ o ∈ (step cfg sys i).2, Attributed o) ↔ Announced cfg sys i := by
  cases i with
  | takeAll => exact takeAll_attributed h
  | _ =>
    refine iff_of_true (forall_attributed.mpr fun reg presigned hmem => ?_) trivial
    cases eq_takeAll_of_register hmem

/-- In a run every registration names the nonce its variant was signed with, if and only
if every trigger that takes variants with a nonce other than 0 finds its message. -/
theorem attributed_iff_announced (cfg : Config) (s : Schedule) (n : ℕ) (rotators : Rotators)
    (is : List Input) :
    (∀ o ∈ ((machine cfg).run (start s n rotators) is).2, Attributed o) ↔
      (machine cfg).Along (Announced cfg) (start s n rotators) is :=
  ((machine cfg).along_iff_outputs (Inv.start s n rotators) (fun _ i h => h.step i)
    (fun _ i h => step_attributed cfg i h) is).symm

/-! Two entries with nonces 1 and 2, one sender; signatures are not computed. -/

def sampleSchedule : Schedule where
  seed := 42
  startSlot := 7
  chunkSizeSlots := 2
  genRange _ _ := 1

def sampleConfig : Config where
  preparer :=
    { senders := [⟨1, .helius, 5000, true⟩]
      authority := 50
      priorityFeeMicrolamports := 5000
      computeUnitLimit := 200_000
      signing := ⟨fun m => m.recentBlockhash, fun m => m.recentBlockhash⟩ }
  dispatcher :=
    { senders := {1}
      senderMeta := fun _ => some ⟨"helius", "endpoint", "HTTP_JSONRPC", none, 5000, 5000, 200_000⟩
      scheduleSeed := 42
      newTriggerId := fun slot tick nonceId => slot * 2 ^ 24 + tick * 2 ^ 16 + nonceId
      shuffle := fun _ indices => indices
      shuffle_perm := fun _ _ => List.Perm.refl _ }

def sampleRotators : Rotators := AList.singleton 1 ⟨[900], 0⟩

def prepare (nonce : TakenNonce) (now : Instant) : List Input :=
  [.claim nonce now, .sign now, .announce]

/-- Looking for the message of slot 8, the dispatcher throws away that of slot 7. -/
def outOfOrder : List Input :=
  prepare ⟨1, 11, 101⟩ 0 ++ prepare ⟨2, 12, 102⟩ 1 ++
    [.trigger ⟨8, 1, 62_500, 5⟩, .takeAll, .trigger ⟨7, 1, 62_500, 6⟩, .takeAll]

instance : DecidablePred Attributed
  | .send (.register reg presigned) =>
    inferInstanceAs (Decidable (reg.nonceAccountId = presigned.nonce.id))
  | .send (.pendingSig _) | .send (.command _) | .fetchAdd _ _ | .fetchMin _ _ | .fetchMax _ _ =>
    inferInstanceAs (Decidable True)

/-- The registration for slot 7 names nonce 0, and the variant is signed with nonce 1. -/
theorem attribution_lost_out_of_order :
    ¬∀ o ∈ ((machine sampleConfig).run (start sampleSchedule 1 sampleRotators) outOfOrder).2,
      Attributed o := by
  decide +kernel

end SolanaBench.FanOut.NonceAttribution
