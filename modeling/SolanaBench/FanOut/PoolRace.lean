import SolanaBench.FanOut.Dispatcher
import SolanaBench.Lib.EventMachine
import SolanaBench.Lib.ShardScan

/-! One `(slot, tick)` between the preparer, which inserts its variants one by one, and
the dispatcher, which takes them in two passes over the sharded pool. Whatever the
preparer inserts for other entries may come in between. -/
namespace SolanaBench.FanOut.PoolRace

open Nonce Preparer Dispatcher ShardScan

/-- The pool's `DashMap` has `shardCount` shards; its iterator locks one at a time. -/
structure Config where
  preparer : PreparerConfig
  dispatcher : DispatcherConfig
  nonce : TakenNonce
  preparedAt : Instant
  trigger : TriggerEvent
  /-- What the dispatcher found in the preparer's channel. -/
  prepared : Option PreparedTrigger
  shardCount : ℕ
  shard : PoolKey → Fin shardCount

namespace Config

def entry (cfg : Config) : ScheduleEntry := ⟨cfg.trigger.slot, cfg.trigger.tick⟩

def key (cfg : Config) (senderId : ℕ) : PoolKey := (cfg.entry, senderId)

def work (cfg : Config) (senders : List SenderConfig) : Work :=
  ⟨cfg.entry, cfg.nonce, cfg.preparedAt, senders⟩

/-- The filter of `take_all_for`. -/
def wanted (cfg : Config) (k : PoolKey) : Bool := decide (k.1 = cfg.entry)

end Config

structure System where
  rotators : Rotators
  pool : TxPool
  /-- The senders the preparer has still to sign for. -/
  senders : List SenderConfig
  reader : Reader PoolKey PreSignedTx := {}
  dispatched : Bool := false

/-- Whose next atomic step it is. -/
inductive Turn
  | preparer (now : Instant)
  | dispatcher
  /-- The preparer inserts a variant for another entry. -/
  | elsewhere (entry : ScheduleEntry) (senderId : ℕ) (pre : PreSignedTx)
  deriving DecidableEq, Repr

def variants (r : Reader PoolKey PreSignedTx) : List (ℕ × PreSignedTx) :=
  r.taken.map fun e => (e.1.2, e.2)

def step (cfg : Config) (sys : System) : Turn → System × List Output
  | .preparer now =>
    match sys.senders with
    | [] => (sys, [])
    | sc :: senders =>
      let r := prepareSender cfg.preparer sys.rotators sys.pool (cfg.work (sc :: senders)) sc now
      ({ sys with rotators := r.1, pool := r.2.1, senders := senders },
        r.2.2.map fun c => .fetchAdd c 1)
  | .dispatcher =>
    if sys.dispatched then (sys, [])
    else if sys.reader.next = cfg.shardCount ∧ sys.reader.found = [] then
      ({ sys with dispatched := true },
        dispatch cfg.dispatcher cfg.trigger cfg.prepared (variants sys.reader))
    else
      let r := advance cfg.shard cfg.wanted sys.reader sys.pool.map
      ({ sys with reader := r.1, pool := ⟨r.2⟩ }, [])
  | .elsewhere entry senderId pre =>
    if entry = cfg.entry then (sys, [])
    else ({ sys with pool := (sys.pool.insert entry.slot entry.tick senderId pre).1 }, [])

def machine (cfg : Config) : EventMachine System Turn Output where
  step := step cfg

/-- The entry is claimed and the trigger received; nothing is inserted or read yet. -/
def start (cfg : Config) (rotators : Rotators) (pool : TxPool) : System where
  rotators := rotators
  pool := pool
  senders := cfg.preparer.senders

/-- Both parties are through with the `(slot, tick)`. -/
def Finished (sys : System) : Prop := sys.senders = [] ∧ sys.dispatched = true

/-- The variant a step inserts. -/
def published (cfg : Config) (sys : System) : Turn → List (ℕ × PreSignedTx)
  | .preparer now =>
    match sys.senders with
    | [] => []
    | sc :: senders =>
      if sc.enabled then
        match signVariant cfg.preparer (cfg.work (sc :: senders)) sc
          (nextTip sys.rotators sc.id).2 now with
        | some (.ok pre) => [(sc.id, pre)]
        | _ => []
      else []
  | .dispatcher | .elsewhere .. => []

/-- A variant is inserted before the dispatcher reads the shard of its key. -/
def Prompt (cfg : Config) (sys : System) (i : Turn) : Prop :=
  ∀ v ∈ published cfg sys i, sys.reader.next ≤ cfg.shard (cfg.key v.1)

/-- What `Config::validate` ensures of the senders. -/
structure Validated (senders : List SenderConfig) : Prop where
  ids : (senders.map SenderConfig.id).Nodup
  encodable : ∀ sc ∈ senders, sc.id ≤ Memo.MAX_SENDER_ID

def HasTip (rotators : Rotators) (senderId : ℕ) : Prop :=
  ∃ r, rotators.lookup senderId = some r ∧ r.accounts ≠ []

/-- The preparer signs for the enabled senders, but not where a tip account is missing. -/
def Signs (rotators : Rotators) (sc : SenderConfig) : Prop :=
  sc.enabled ∧ (sc.kind.needsTip → HasTip rotators sc.id)

/-- Where nothing is inserted meanwhile, the two passes take what `takeAllFor` takes. -/
theorem takeAllFor_alone (cfg : Config) (pool : TxPool) {steps : ℕ}
    (hdone : Done cfg.shardCount (alone cfg.shard cfg.wanted pool.map steps).1)
    (v : ℕ × PreSignedTx) :
    v ∈ variants (alone cfg.shard cfg.wanted pool.map steps).1 ↔
      v ∈ (pool.takeAllFor cfg.trigger.slot cfg.trigger.tick).2 := by
  obtain ⟨senderId, pre⟩ := v
  have htaken := (alone_done hdone).1
  constructor
  · intro hv
    obtain ⟨⟨⟨entry, id⟩, tx⟩, he, heq⟩ := List.mem_map.mp hv
    obtain ⟨rfl, rfl⟩ := Prod.mk.inj heq
    obtain ⟨hw, hlook⟩ := (htaken (entry, id) tx).mp he
    refine List.mem_map.mpr ⟨⟨(entry, id), tx⟩, List.mem_filter.mpr ⟨?_, ?_⟩, rfl⟩
    · exact AList.mem_lookup_iff.mp hlook
    · exact hw
  · intro hv
    have hmem := TxPool.mem_takeAllFor hv
    have hlook : pool.map.lookup (cfg.entry, senderId) = some pre := AList.mem_lookup_iff.mpr hmem
    exact List.mem_map.mpr ⟨((cfg.entry, senderId), pre),
      (htaken _ _).mpr ⟨by simp [Config.wanted], hlook⟩, rfl⟩

/-! ## What one step does -/

variable {cfg : Config} {sys : System}

theorem key_ne {id id' : ℕ} (h : id ≠ id') : cfg.key id ≠ cfg.key id' :=
  fun heq => h (congrArg Prod.snd heq)

theorem wanted_key (id : ℕ) : cfg.wanted (cfg.key id) := by simp [Config.wanted, Config.key]

/-- The preparer inserts the variant it publishes and goes on to the next sender. -/
theorem step_preparer (cfg : Config) (sys : System) (now : Instant) :
    (step cfg sys (.preparer now)).1.reader = sys.reader ∧
      (step cfg sys (.preparer now)).1.dispatched = sys.dispatched ∧
      (step cfg sys (.preparer now)).1.senders = sys.senders.tail ∧
      (step cfg sys (.preparer now)).1.pool.map =
        (published cfg sys (.preparer now)).foldl (fun m v => m.insert (cfg.key v.1) v.2)
          sys.pool.map := by
  simp only [step, published]
  cases hsenders : sys.senders with
  | nil => simp [hsenders]
  | cons sc senders =>
    dsimp only
    refine ⟨rfl, rfl, rfl, ?_⟩
    unfold prepareSender
    by_cases hen : sc.enabled
    · simp only [hen, if_true]
      cases signVariant cfg.preparer (cfg.work (sc :: senders)) sc (nextTip sys.rotators sc.id).2
        now with
      | none => rfl
      | some r => cases r <;> rfl
    · simp [hen]

/-- What is published carries the id of the sender whose turn it is. -/
theorem head_of_published {i : Turn} {v : ℕ × PreSignedTx} (hv : v ∈ published cfg sys i) :
    published cfg sys i = [v] ∧ ∃ now sc, i = .preparer now ∧ sys.senders.head? = some sc ∧
      v.1 = sc.id := by
  cases i with
  | dispatcher => cases hv
  | elsewhere _ _ _ => cases hv
  | preparer now =>
    simp only [published] at hv ⊢
    cases hsenders : sys.senders with
    | nil => simp [hsenders] at hv
    | cons sc senders =>
      simp only [hsenders] at hv ⊢
      by_cases hen : sc.enabled
      · simp only [hen, if_true] at hv ⊢
        cases hsign : signVariant cfg.preparer (cfg.work (sc :: senders)) sc
          (nextTip sys.rotators sc.id).2 now with
        | none => simp [hsign] at hv
        | some r =>
          cases r with
          | error e => simp [hsign] at hv
          | ok pre =>
            obtain rfl : v = (sc.id, pre) := by simpa [hsign] using hv
            exact ⟨rfl, now, sc, rfl, rfl, rfl⟩
      · simp [hen] at hv

/-- The dispatcher's turn advances its reader or, once that is done, leaves it alone. -/
theorem step_dispatcher (cfg : Config) (sys : System) :
    (step cfg sys .dispatcher).1.senders = sys.senders ∧
      (step cfg sys .dispatcher).1.rotators = sys.rotators ∧
      (((step cfg sys .dispatcher).1.reader = sys.reader ∧
        (step cfg sys .dispatcher).1.pool = sys.pool) ∨
      ((step cfg sys .dispatcher).1.reader =
          (advance cfg.shard cfg.wanted sys.reader sys.pool.map).1 ∧
        (step cfg sys .dispatcher).1.pool.map =
          (advance cfg.shard cfg.wanted sys.reader sys.pool.map).2)) := by
  simp only [step]
  split
  · exact ⟨rfl, rfl, Or.inl ⟨rfl, rfl⟩⟩
  · split
    · exact ⟨rfl, rfl, Or.inl ⟨rfl, rfl⟩⟩
    · exact ⟨rfl, rfl, Or.inr ⟨rfl, rfl⟩⟩

theorem step_elsewhere (cfg : Config) (sys : System) (entry : ScheduleEntry) (senderId : ℕ)
    (pre : PreSignedTx) :
    (step cfg sys (.elsewhere entry senderId pre)).1 = sys ∨
      entry ≠ cfg.entry ∧ (step cfg sys (.elsewhere entry senderId pre)).1 =
        { sys with pool := ⟨sys.pool.map.insert (entry, senderId) pre⟩ } := by
  simp only [step]
  split
  · exact Or.inl rfl
  · rename_i hne
    exact Or.inr ⟨hne, rfl⟩

/-! ## The fate of a variant -/

/-- A variant in the system: to be taken, or missed by the dispatcher. -/
def CaughtIn (cfg : Config) (sys : System) (v : ℕ × PreSignedTx) : Prop :=
  Caught cfg.shard sys.reader sys.pool.map (cfg.key v.1) v.2

def MissedIn (cfg : Config) (sys : System) (senderId : ℕ) : Prop :=
  Missed cfg.shard sys.reader sys.pool.map (cfg.key senderId)

def AbsentIn (cfg : Config) (sys : System) (senderId : ℕ) : Prop :=
  Absent sys.reader sys.pool.map (cfg.key senderId)

/-- A step that publishes nothing of a sender does not change what becomes of its variant. -/
theorem step_keeps {i : Turn} {senderId : ℕ} (hother : ∀ v ∈ published cfg sys i, v.1 ≠ senderId) :
    (∀ pre, CaughtIn cfg sys (senderId, pre) → CaughtIn cfg (step cfg sys i).1 (senderId, pre)) ∧
      (MissedIn cfg sys senderId → MissedIn cfg (step cfg sys i).1 senderId) ∧
      (AbsentIn cfg sys senderId → AbsentIn cfg (step cfg sys i).1 senderId) := by
  unfold CaughtIn MissedIn AbsentIn
  cases i with
  | dispatcher =>
    rcases (step_dispatcher cfg sys).2.2 with ⟨hreader, hpool⟩ | ⟨hreader, hpool⟩
    · rw [hreader, hpool]
      exact ⟨fun _ h => h, fun h => h, fun h => h⟩
    · rw [hreader, hpool]
      exact ⟨fun _ h => h.advance (wanted_key _), fun h => h.advance, fun h => h.advance⟩
  | elsewhere entry id pre =>
    rcases step_elsewhere cfg sys entry id pre with hsame | ⟨hne, hins⟩
    · rw [hsame]
      exact ⟨fun _ h => h, fun h => h, fun h => h⟩
    · have hkey : cfg.key senderId ≠ (entry, id) := fun heq => hne (congrArg Prod.fst heq).symm
      rw [hins]
      exact ⟨fun _ h => h.insert hkey, fun h => h.insert, fun h => h.insert hkey⟩
  | preparer now =>
    obtain ⟨hreader, -, -, hpool⟩ := step_preparer cfg sys now
    rw [hreader, hpool]
    cases hpub : published cfg sys (.preparer now) with
    | nil => exact ⟨fun _ h => h, fun h => h, fun h => h⟩
    | cons v vs =>
      have hv : v ∈ published cfg sys (.preparer now) := by simp [hpub]
      have hsingle := hpub.symm.trans (head_of_published hv).1
      have hne : cfg.key senderId ≠ cfg.key v.1 := key_ne (hother v hv).symm
      rw [hsingle]
      exact ⟨fun _ h => h.insert hne, fun h => h.insert, fun h => h.insert hne⟩

/-- A variant is caught exactly when it is published promptly. -/
theorem step_published {i : Turn} {v : ℕ × PreSignedTx} (hv : v ∈ published cfg sys i)
    (habs : AbsentIn cfg sys v.1) :
    (Prompt cfg sys i → CaughtIn cfg (step cfg sys i).1 v) ∧
      (¬Prompt cfg sys i → MissedIn cfg (step cfg sys i).1 v.1) := by
  obtain ⟨hsingle, now, sc, rfl, -, -⟩ := head_of_published hv
  obtain ⟨hreader, -, -, hpool⟩ := step_preparer cfg sys now
  have hprompt : Prompt cfg sys (.preparer now) ↔
      sys.reader.next ≤ cfg.shard (cfg.key v.1) := by simp [Prompt, hsingle]
  rw [hprompt, not_le]
  unfold CaughtIn MissedIn
  rw [hreader, hpool, hsingle]
  exact ⟨fun hnext => caught_insert hnext, fun hread => missed_insert habs hread⟩

/-- What holds of the variants published so far and of the senders still to come. -/
structure Inv (cfg : Config) (ps : List (ℕ × PreSignedTx)) (sys : System) : Prop where
  ids : (sys.senders.map SenderConfig.id).Nodup
  apart : ∀ v ∈ ps, v.1 ∉ sys.senders.map SenderConfig.id
  absent : ∀ senderId, (∀ v ∈ ps, v.1 ≠ senderId) → AbsentIn cfg sys senderId
  fate : ∀ v ∈ ps, CaughtIn cfg sys v ∨ MissedIn cfg sys v.1

theorem senders_suffix (cfg : Config) (sys : System) (i : Turn) :
    (step cfg sys i).1.senders <:+ sys.senders := by
  cases i with
  | preparer now =>
    rw [(step_preparer cfg sys now).2.2.1]
    exact List.tail_suffix _
  | dispatcher => rw [(step_dispatcher cfg sys).1]
  | elsewhere entry id pre =>
    rcases step_elsewhere cfg sys entry id pre with hsame | ⟨-, hins⟩
    · rw [hsame]
    · rw [hins]

namespace Inv

variable {ps : List (ℕ × PreSignedTx)} {i : Turn}

/-- The sender whose turn it is has published nothing. -/
theorem fresh (h : Inv cfg ps sys) {v : ℕ × PreSignedTx} (hv : v ∈ published cfg sys i) :
    ∀ u ∈ ps, u.1 ≠ v.1 := by
  obtain ⟨-, now, sc, -, hhead, hid⟩ := head_of_published hv
  intro u hu heq
  refine h.apart u hu ?_
  rw [heq, hid]
  exact List.mem_map_of_mem (List.mem_of_head? hhead)

theorem kept (h : Inv cfg ps sys) {v : ℕ × PreSignedTx} (hv : v ∈ ps) :
    ∀ u ∈ published cfg sys i, u.1 ≠ v.1 := fun _ hu heq => h.fresh hu v hv heq.symm

theorem step (h : Inv cfg ps sys) (i : Turn) :
    Inv cfg (ps ++ published cfg sys i) (PoolRace.step cfg sys i).1 where
  ids := h.ids.sublist ((senders_suffix cfg sys i).sublist.map _)
  apart v hv hmem := by
    rcases List.mem_append.mp hv with hold | hnew
    · exact h.apart v hold (((senders_suffix cfg sys i).sublist.map _).subset hmem)
    · obtain ⟨-, now, sc, rfl, hhead, hid⟩ := head_of_published hnew
      rw [(step_preparer cfg sys now).2.2.1] at hmem
      have hids := h.ids
      rw [List.eq_cons_of_mem_head? hhead, List.map_cons, ← hid] at hids
      exact (List.nodup_cons.mp hids).1 hmem
  absent senderId hnone :=
    (step_keeps fun v hv => hnone v (List.mem_append_right _ hv)).2.2
      (h.absent senderId fun v hv => hnone v (List.mem_append_left _ hv))
  fate v hv := by
    rcases List.mem_append.mp hv with hold | hnew
    · obtain ⟨hcaught, hmissed, -⟩ := step_keeps (h.kept hold)
      exact (h.fate v hold).imp (hcaught v.2) hmissed
    · obtain ⟨hcaught, hmissed⟩ := step_published hnew (h.absent v.1 (h.fresh hnew))
      by_cases hp : Prompt cfg sys i
      · exact Or.inl (hcaught hp)
      · exact Or.inr (hmissed hp)

/-- All variants stay caught exactly as long as they are published promptly. -/
theorem caught_step (h : Inv cfg ps sys) (i : Turn) :
    (∀ v ∈ ps ++ published cfg sys i, CaughtIn cfg (PoolRace.step cfg sys i).1 v) ↔
      (∀ v ∈ ps, CaughtIn cfg sys v) ∧ Prompt cfg sys i := by
  constructor
  · intro hall
    refine ⟨fun v hv => (h.fate v hv).resolve_right fun hmissed => ?_, fun v hv => ?_⟩
    · obtain ⟨-, hstays, -⟩ := step_keeps (h.kept (i := i) hv)
      exact (hstays hmissed).not_caught (hall v (List.mem_append_left _ hv))
    · by_contra hlate
      obtain ⟨-, hmissed⟩ := step_published hv (h.absent v.1 (h.fresh hv))
      exact (hmissed fun hp => hlate (hp v hv)).not_caught (hall v (List.mem_append_right _ hv))
  · rintro ⟨hold, hp⟩ v hv
    rcases List.mem_append.mp hv with hmem | hnew
    · exact (step_keeps (h.kept hmem)).1 v.2 (hold v hmem)
    · exact (step_published hnew (h.absent v.1 (h.fresh hnew))).1 hp

end Inv

/-! ## Whole runs -/

/-- The variants published in a run. -/
def allPublished (cfg : Config) (sys : System) (is : List Turn) : List (ℕ × PreSignedTx) :=
  (machine cfg).readings (published cfg) sys is

theorem allPublished_snoc (cfg : Config) (sys : System) (is : List Turn) (i : Turn) :
    allPublished cfg sys (is ++ [i]) =
      allPublished cfg sys is ++ published cfg ((machine cfg).run sys is).1 i :=
  (machine cfg).readings_snoc ..

theorem inv_run (h : Inv cfg [] sys) (is : List Turn) :
    Inv cfg (allPublished cfg sys is) ((machine cfg).run sys is).1 ∧
      ((∀ v ∈ allPublished cfg sys is, CaughtIn cfg ((machine cfg).run sys is).1 v) ↔
        (machine cfg).Along (Prompt cfg) sys is) := by
  induction is using List.reverseRecOn with
  | nil => exact ⟨h, fun _ => EverySplit.nil, fun _ v hv => by cases hv⟩
  | append_singleton is i ih =>
    obtain ⟨hinv, hcaught⟩ := ih
    rw [allPublished_snoc, EventMachine.run_snoc_fst, EventMachine.along_snoc_iff, ← hcaught]
    exact ⟨hinv.step i, hinv.caught_step i⟩

/-- Once the trigger is dispatched, the reader is done and all it took was handed on. -/
theorem dispatched_run (h : sys.dispatched = false) (is : List Turn)
    (hd : ((machine cfg).run sys is).1.dispatched = true) :
    Done cfg.shardCount ((machine cfg).run sys is).1.reader ∧
      ∀ o ∈ dispatch cfg.dispatcher cfg.trigger cfg.prepared
        (variants ((machine cfg).run sys is).1.reader), o ∈ ((machine cfg).run sys is).2 := by
  refine (machine cfg).run_rule (fun _ t os => t.dispatched = true → Done cfg.shardCount t.reader ∧
    ∀ o ∈ dispatch cfg.dispatcher cfg.trigger cfg.prepared (variants t.reader), o ∈ os) sys
    (fun hd => by simp [h] at hd) (fun _ t os i ih hd => ?_) is hd
  cases i with
  | preparer now =>
    obtain ⟨hreader, hsame, -, -⟩ := step_preparer cfg t now
    obtain ⟨hdone, hout⟩ := ih (hsame.symm.trans hd)
    show Done cfg.shardCount (step cfg t (.preparer now)).1.reader ∧
      ∀ o ∈ dispatch _ _ _ (variants (step cfg t (.preparer now)).1.reader), _
    rw [hreader]
    exact ⟨hdone, fun o ho => List.mem_append_left _ (hout o ho)⟩
  | elsewhere entry id pre =>
    change (step cfg t (.elsewhere entry id pre)).1.dispatched = true at hd
    show Done cfg.shardCount (step cfg t (.elsewhere entry id pre)).1.reader ∧
      ∀ o ∈ dispatch _ _ _ (variants (step cfg t (.elsewhere entry id pre)).1.reader), _
    rcases step_elsewhere cfg t entry id pre with hsame | ⟨-, hins⟩
    · rw [hsame] at hd ⊢
      exact ⟨(ih hd).1, fun o ho => List.mem_append_left _ ((ih hd).2 o ho)⟩
    · rw [hins] at hd ⊢
      exact ⟨(ih hd).1, fun o ho => List.mem_append_left _ ((ih hd).2 o ho)⟩
  | dispatcher =>
    change (step cfg t .dispatcher).1.dispatched = true at hd
    show Done cfg.shardCount (step cfg t .dispatcher).1.reader ∧
      ∀ o ∈ dispatch _ _ _ (variants (step cfg t .dispatcher).1.reader),
        o ∈ os ++ (step cfg t .dispatcher).2
    by_cases hdisp : t.dispatched
    · obtain ⟨hdone, hout⟩ := ih hdisp
      simp only [step, hdisp, if_true]
      exact ⟨hdone, fun o ho => List.mem_append_left _ (hout o ho)⟩
    · by_cases hready : t.reader.next = cfg.shardCount ∧ t.reader.found = []
      · simp only [step, hdisp, hready, and_self, if_true, Bool.false_eq_true, if_false]
        exact ⟨⟨hready.1, hready.2⟩, fun o ho => List.mem_append_right _ ho⟩
      · simp [step, hdisp, hready] at hd

/-! ## Who is signed for -/

theorem tip_isSome_iff (rotators : Rotators) (senderId : ℕ) :
    (nextTip rotators senderId).2 ≠ none ↔ HasTip rotators senderId := by
  unfold nextTip HasTip
  cases rotators.lookup senderId with
  | none => simp
  | some r =>
    by_cases hnil : r.accounts = []
    · simp [TipAccountRotator.next, hnil]
    · have hlt : r.cursor % r.accounts.length < r.accounts.length :=
        Nat.mod_lt _ (List.length_pos_iff.mpr hnil)
      simp [TipAccountRotator.next, hnil, hlt]

/-- Taking a tip account moves a cursor and leaves the accounts. -/
theorem hasTip_nextTip (rotators : Rotators) (senderId id : ℕ) :
    HasTip (nextTip rotators senderId).1 id ↔ HasTip rotators id := by
  unfold nextTip
  cases hlook : rotators.lookup senderId with
  | none => rfl
  | some r =>
    have haccounts : r.next.1.accounts = r.accounts := by
      unfold TipAccountRotator.next
      split <;> rfl
    unfold HasTip
    by_cases hid : id = senderId
    · subst hid
      simp [hlook, haccounts]
    · simp [AList.lookup_insert_ne hid]

theorem hasTip_step (cfg : Config) (sys : System) (i : Turn) (id : ℕ) :
    HasTip (step cfg sys i).1.rotators id ↔ HasTip sys.rotators id := by
  cases i with
  | dispatcher => rw [(step_dispatcher cfg sys).2.1]
  | elsewhere entry senderId pre =>
    rcases step_elsewhere cfg sys entry senderId pre with hsame | ⟨-, hins⟩
    · rw [hsame]
    · rw [hins]
  | preparer now =>
    simp only [step]
    cases sys.senders with
    | nil => rfl
    | cons sc senders =>
      dsimp only
      unfold prepareSender
      by_cases hen : sc.enabled
      · simp only [hen, if_true]
        rw [← hasTip_nextTip sys.rotators sc.id id]
        cases signVariant cfg.preparer (cfg.work (sc :: senders)) sc
          (nextTip sys.rotators sc.id).2 now with
        | none => rfl
        | some r => cases r <;> rfl
      · simp [hen]

theorem buildVariant_ok (signer : Signing) (p : TxBuilder.VariantParams)
    (htip : ¬(p.senderKind.needsTip ∧ p.tipAccount = none))
    (hid : p.senderId ≤ Memo.MAX_SENDER_ID) : ∃ v, TxBuilder.buildVariant signer p = .ok v := by
  unfold TxBuilder.buildVariant Memo.encode
  rw [if_neg htip, if_neg (Nat.not_lt.mpr hid)]
  exact ⟨_, rfl⟩

theorem signVariant_ok (cfg : PreparerConfig) (w : Work) {sc : SenderConfig}
    {tipAccount : Option Pubkey} (htip : ¬(sc.kind.needsTip ∧ tipAccount = none))
    (hid : sc.id ≤ Memo.MAX_SENDER_ID) (now : Instant) :
    ∃ pre, signVariant cfg w sc tipAccount now = some (.ok pre) := by
  obtain ⟨v, hv⟩ := buildVariant_ok cfg.signing (variantParams cfg w sc tipAccount) htip hid
  unfold signVariant
  rw [if_neg htip]
  split
  · rename_i e he
    rw [hv] at he
    cases he
  · exact ⟨_, rfl⟩

/-- A sender that is signed for publishes a variant in its turn. -/
theorem published_of_signs (cfg : Config) {sc : SenderConfig} {senders : List SenderConfig}
    (hsenders : sys.senders = sc :: senders) (hsigns : Signs sys.rotators sc)
    (hid : sc.id ≤ Memo.MAX_SENDER_ID) (now : Instant) :
    ∃ pre, published cfg sys (.preparer now) = [(sc.id, pre)] := by
  have htip : ¬(sc.kind.needsTip ∧ (nextTip sys.rotators sc.id).2 = none) :=
    fun h => (tip_isSome_iff _ _).mpr (hsigns.2 h.1) h.2
  obtain ⟨pre, hpre⟩ := signVariant_ok cfg.preparer (cfg.work (sc :: senders)) htip hid now
  exact ⟨pre, by simp only [published, hsenders, hsigns.1, if_true, hpre]⟩

theorem hasTip_run (cfg : Config) (sys : System) (is : List Turn) (id : ℕ) :
    HasTip ((machine cfg).run sys is).1.rotators id ↔ HasTip sys.rotators id :=
  (machine cfg).run_invariant (fun t => HasTip t.rotators id ↔ HasTip sys.rotators id) Iff.rfl
    (fun t i ih => (hasTip_step cfg t i id).trans ih) is

/-- A sender to sign for keeps its turn or publishes its variant. -/
theorem signed_step (cfg : Config) {sc : SenderConfig} (hsc : sc ∈ sys.senders)
    (hsigns : Signs sys.rotators sc) (hid : sc.id ≤ Memo.MAX_SENDER_ID) (i : Turn) :
    sc ∈ (step cfg sys i).1.senders ∨ ∃ pre, (sc.id, pre) ∈ published cfg sys i := by
  cases i with
  | dispatcher => exact Or.inl (by rwa [(step_dispatcher cfg sys).1])
  | elsewhere entry id pre =>
    rcases step_elsewhere cfg sys entry id pre with hsame | ⟨-, hins⟩
    · exact Or.inl (by rwa [hsame])
    · exact Or.inl (by rwa [hins])
  | preparer now =>
    rw [(step_preparer cfg sys now).2.2.1]
    cases hsenders : sys.senders with
    | nil => simp [hsenders] at hsc
    | cons sc' senders =>
      rcases List.mem_cons.mp (hsenders ▸ hsc) with rfl | hrest
      · obtain ⟨pre, hpub⟩ := published_of_signs cfg hsenders hsigns hid now
        exact Or.inr ⟨pre, by simp [hpub]⟩
      · exact Or.inl hrest

theorem signed_run (cfg : Config) (hid : ∀ sc ∈ sys.senders, sc.id ≤ Memo.MAX_SENDER_ID)
    (is : List Turn) {sc : SenderConfig} (hsc : sc ∈ sys.senders)
    (hsigns : Signs sys.rotators sc) :
    sc ∈ ((machine cfg).run sys is).1.senders ∨ ∃ pre, (sc.id, pre) ∈ allPublished cfg sys is := by
  induction is using List.reverseRecOn with
  | nil => exact Or.inl hsc
  | append_singleton is i ih =>
    rw [allPublished_snoc, EventMachine.run_snoc_fst]
    rcases ih with hahead | ⟨pre, hpre⟩
    · have hnow : Signs ((machine cfg).run sys is).1.rotators sc :=
        ⟨hsigns.1, fun hneeds => (hasTip_run cfg sys is sc.id).mpr (hsigns.2 hneeds)⟩
      exact (signed_step cfg hahead hnow (hid sc hsc) i).imp id fun ⟨pre, hpre⟩ =>
        ⟨pre, List.mem_append_right _ hpre⟩
    · exact Or.inr ⟨pre, List.mem_append_left _ hpre⟩

/-! ## The fan-out of a trigger -/

/-- All that is signed for the trigger is sent if anything is, and none of it stays. -/
structure Complete (cfg : Config) (sys : System) (is : List Turn) : Prop where
  all : (∃ cmd, .send (.command cmd) ∈ ((machine cfg).run sys is).2) →
    ∀ sc ∈ sys.senders, Signs sys.rotators sc →
      ∃ pre, (sc.id, pre) ∈ allPublished cfg sys is ∧
        ∃ triggerId, .send (.command ⟨pre.tx, triggerId, sc.id⟩) ∈ ((machine cfg).run sys is).2
  clean : ∀ k ∈ ((machine cfg).run sys is).1.pool.map, k.1 ≠ cfg.entry

theorem inv_start (cfg : Config) (rotators : Rotators) {pool : TxPool}
    (hvalid : Validated cfg.preparer.senders) (hfresh : ∀ k ∈ pool.map, k.1 ≠ cfg.entry) :
    Inv cfg [] (start cfg rotators pool) where
  ids := hvalid.ids
  apart _ hv := by cases hv
  absent senderId _ := ⟨fun hmem => hfresh _ hmem rfl, List.not_mem_nil⟩
  fate _ hv := by cases hv

/-- A fan-out is complete exactly where every variant is inserted before the dispatcher
reads the shard of its key. -/
theorem complete_iff (cfg : Config) (rotators : Rotators) (pool : TxPool)
    (hvalid : Validated cfg.preparer.senders)
    (hknown : ∀ sc ∈ cfg.preparer.senders, sc.enabled → known cfg.dispatcher sc.id)
    (hfresh : ∀ k ∈ pool.map, k.1 ≠ cfg.entry) (is : List Turn)
    (hfin : Finished ((machine cfg).run (start cfg rotators pool) is).1) :
    Complete cfg (start cfg rotators pool) is ↔
      (machine cfg).Along (Prompt cfg) (start cfg rotators pool) is := by
  obtain ⟨hinv, hcaught⟩ := inv_run (inv_start cfg rotators hvalid hfresh) is
  obtain ⟨hdone, hout⟩ := dispatched_run (show (start cfg rotators pool).dispatched = false from rfl) is hfin.2
  rw [← hcaught]
  constructor
  · intro hcomplete v hv
    exact (hinv.fate v hv).resolve_right fun hmissed => hcomplete.clean _ hmissed.1 rfl
  · intro hall
    refine ⟨fun _ sc hsc hsigns => ?_, fun k hk hentry => ?_⟩
    · obtain ⟨pre, hpre⟩ := (signed_run cfg hvalid.encodable is hsc hsigns).resolve_left
        (by simp [hfin.1])
      have htaken := ((hall _ hpre).done hdone).2
      have hvariant : (sc.id, pre) ∈ variants _ := List.mem_map_of_mem htaken
      obtain ⟨triggerId, hcmd⟩ := exists_command cfg.trigger cfg.prepared hvariant
        (hknown sc hsc hsigns.1)
      exact ⟨pre, hpre, triggerId, hout _ hcmd⟩
    · obtain ⟨entry, senderId⟩ := k
      obtain rfl : entry = cfg.entry := hentry
      by_cases hpub : ∀ v ∈ allPublished cfg (start cfg rotators pool) is, v.1 ≠ senderId
      · exact (hinv.absent senderId hpub).1 hk
      · obtain ⟨v, hv, rfl⟩ : ∃ v ∈ allPublished cfg (start cfg rotators pool) is, v.1 = senderId := by
          simpa using hpub
        exact ((hall v hv).done hdone).1 hk

/-! Two senders and one shard. -/

def sampleConfig : Config where
  preparer :=
    { senders := [⟨1, .mock, 0, true⟩, ⟨2, .mock, 0, true⟩]
      authority := 50
      priorityFeeMicrolamports := 5000
      computeUnitLimit := 200_000
      signing := ⟨fun m => m.recentBlockhash, fun m => m.recentBlockhash⟩ }
  dispatcher :=
    { senders := {1, 2}
      senderMeta := fun _ => some ⟨"mock", "endpoint", "MOCK", none, 0, 5000, 200_000⟩
      scheduleSeed := 42
      newTriggerId := fun slot tick nonceId => slot * 2 ^ 24 + tick * 2 ^ 16 + nonceId
      shuffle := fun _ indices => indices
      shuffle_perm := fun _ _ => List.Perm.refl _ }
  nonce := ⟨1, 11, 101⟩
  preparedAt := 0
  trigger := ⟨7, 1, 62_500, 5⟩
  prepared := none
  shardCount := 1
  shard _ := 0

/-- The trigger fires after the second insert. -/
def insertedFirst : List Turn :=
  [.preparer 1, .preparer 2, .dispatcher, .dispatcher, .dispatcher, .dispatcher]

/-- The trigger fires between the two inserts. -/
def firedBetween : List Turn :=
  [.preparer 1, .dispatcher, .preparer 2, .dispatcher, .dispatcher]

instance (sys : System) : Decidable (Finished sys) :=
  inferInstanceAs (Decidable (sys.senders = [] ∧ sys.dispatched = true))

instance (cfg : Config) (sys : System) (i : Turn) : Decidable (Prompt cfg sys i) :=
  inferInstanceAs (Decidable (∀ v ∈ published cfg sys i, _))

theorem complete_iff_insertedFirst :
    Complete sampleConfig (start sampleConfig ∅ {}) insertedFirst :=
  (complete_iff sampleConfig ∅ {} ⟨by decide, by decide⟩ (by decide)
    (fun k hk => absurd hk (AList.notMem_empty k)) insertedFirst (by decide +kernel)).mpr
      (by decide +kernel)

/-- The senders whose variants are sent. -/
def sendersServed (os : List Output) : List ℕ :=
  (Effect.sent os).filterMap fun
    | .command cmd => some cmd.senderId
    | _ => none

/-- Only the first sender is served, and the variant of the second stays in the pool. -/
theorem fan_out_torn :
    let r := (machine sampleConfig).run (start sampleConfig ∅ {}) firedBetween
    Finished r.1 ∧ sendersServed r.2 = [1] ∧ r.1.pool.map.keys = [sampleConfig.key 2] ∧
      ¬Complete sampleConfig (start sampleConfig ∅ {}) firedBetween := by
  refine ⟨by decide +kernel, by decide +kernel, by decide +kernel, fun h => ?_⟩
  have hleft : sampleConfig.key 2 ∈
      ((machine sampleConfig).run (start sampleConfig ∅ {}) firedBetween).1.pool.map :=
    AList.mem_keys.mpr (by decide +kernel)
  exact h.clean _ hleft rfl

end SolanaBench.FanOut.PoolRace
