import SolanaBench.FanOut.NonceAttribution
import SolanaBench.FanOut.PoolRace
import SolanaBench.FanOut.TipAccounts

/-! For which sender a transaction was built: the memo says it, whatever becomes of the
transaction after it was sent. The identifiers that a memo can hold are those that the
configuration admits. -/
namespace SolanaBench.FanOut

namespace Memo

inductive DecodeError
  | invalidMemoByte (byte : ℕ)
  | wrongLength (length : ℕ)
  deriving DecidableEq, Repr

def decode (memo : List ℕ) : Except DecodeError ℕ :=
  match memo with
  | [byte] => if BASE ≤ byte ∧ byte ≤ 0x7E then .ok (byte - BASE) else .error (.invalidMemoByte byte)
  | _ => .error (.wrongLength memo.length)

/-- The decoder reads the memos of the encoder and no others. -/
theorem decode_eq_ok_iff (memo : List ℕ) (senderId : ℕ) :
    decode memo = .ok senderId ↔ encode senderId = .ok memo := by
  unfold encode MAX_SENDER_ID BASE
  constructor
  · intro h
    unfold decode at h
    split at h
    · split at h
      · next hrange =>
        obtain rfl := Except.ok.inj h
        unfold BASE at hrange ⊢
        rw [if_neg (by omega)]
        exact congrArg Except.ok (congrArg (fun b => [b]) (by omega))
      · cases h
    · cases h
  · intro h
    split at h
    · cases h
    · next hfits =>
      obtain rfl := Except.ok.inj h
      unfold decode
      dsimp only
      unfold BASE
      rw [if_pos (by omega)]
      exact congrArg Except.ok (by omega)

end Memo

/-! ## The configuration -/

/-- Of `Config`, what is checked and what the threads are given. A sender's name and its endpoint
stand beside it. -/
structure BenchConfig where
  poolSize : ℕ
  chunkSizeSlots : ℕ
  priorityFeeMicrolamports : ℕ
  computeUnitLimit : ℕ
  senders : List SenderConfig
  name : SenderConfig → String
  endpointUrl : SenderConfig → String

namespace BenchConfig

def validateSenders (seenIds : List ℕ) : List SenderConfig → Except String Unit
  | [] => .ok ()
  | sender :: senders =>
    if sender.id ∈ seenIds then .error s!"duplicate sender id: {sender.id}"
    else if sender.id ≤ 93 then validateSenders (sender.id :: seenIds) senders
    else .error s!"sender.id {sender.id} > 93 (memo encoding limit)"

def validate (c : BenchConfig) : Except String Unit :=
  if c.poolSize = 0 then .error "nonce.pool_size must be > 0"
  else if c.chunkSizeSlots = 0 then .error "run.chunk_size_slots must be > 0"
  else if c.senders = [] then .error "at least one sender required"
  else validateSenders [] c.senders

theorem validateSenders_eq_ok_iff (seenIds : List ℕ) (senders : List SenderConfig) :
    validateSenders seenIds senders = .ok () ↔
      PoolRace.Validated senders ∧ ∀ sc ∈ senders, sc.id ∉ seenIds := by
  induction senders generalizing seenIds with
  | nil => exact ⟨fun _ => ⟨⟨List.nodup_nil, nofun⟩, nofun⟩, fun _ => rfl⟩
  | cons sc senders ih =>
    unfold validateSenders
    split
    · next hseen => exact ⟨nofun, fun h => absurd hseen (h.2 sc List.mem_cons_self)⟩
    · next hfresh =>
      split
      · next hfits =>
        rw [ih]
        constructor
        · rintro ⟨⟨hids, hencodable⟩, hnew⟩
          refine ⟨⟨?_, ?_⟩, ?_⟩
          · refine List.nodup_cons.mpr ⟨fun hmem => ?_, hids⟩
            obtain ⟨other, hother, heq⟩ := List.mem_map.mp hmem
            exact hnew other hother (heq ▸ List.mem_cons_self)
          · exact List.forall_mem_cons.mpr ⟨hfits, hencodable⟩
          · exact List.forall_mem_cons.mpr
              ⟨hfresh, fun other hother hmem => hnew other hother (List.mem_cons_of_mem _ hmem)⟩
        · rintro ⟨⟨hids, hencodable⟩, hnew⟩
          obtain ⟨hhead, hids⟩ := List.nodup_cons.mp hids
          refine ⟨⟨hids, fun other hother => hencodable other (List.mem_cons_of_mem _ hother)⟩,
            fun other hother hmem => ?_⟩
          rcases List.mem_cons.mp hmem with heq | hmem
          · exact hhead (heq ▸ List.mem_map_of_mem hother)
          · exact hnew other (List.mem_cons_of_mem _ hother) hmem
      · next hlarge =>
        exact ⟨nofun, fun h => absurd (h.1.encodable sc List.mem_cons_self) hlarge⟩

theorem validated {c : BenchConfig} (h : c.validate = .ok ()) : PoolRace.Validated c.senders := by
  unfold validate at h
  split at h
  · cases h
  · split at h
    · cases h
    · split at h
      · cases h
      · exact ((validateSenders_eq_ok_iff [] c.senders).mp h).1

end BenchConfig

/-! ## Transactions -/

namespace Transaction

def memos (tx : Transaction) : List (List ℕ) :=
  tx.message.instructions.filterMap fun
    | .memo data => some data
    | _ => none

/-- To whom and how much. -/
def transfers (tx : Transaction) : List (Pubkey × ℕ) :=
  tx.message.instructions.filterMap fun
    | .transfer _ target lamports => some (target, lamports)
    | _ => none

/-- Compute unit limits and prices. -/
def budget (tx : Transaction) : List ℕ × List ℕ :=
  (tx.message.instructions.filterMap fun
    | .setComputeUnitLimit units => some units
    | _ => none,
   tx.message.instructions.filterMap fun
    | .setComputeUnitPrice microLamports => some microLamports
    | _ => none)

end Transaction

/-! ## What the runtime hands to the threads -/

namespace BenchConfig

variable (c : BenchConfig)

def rotators : Rotators :=
  c.senders.foldl (fun m sc => m.insert sc.id ⟨tipAccountsFor sc.kind, 0⟩) ∅

def metaOf (sc : SenderConfig) : SenderMeta where
  name := c.name sc
  endpointUrl := c.endpointUrl sc
  protocol := "HTTP_JSONRPC"
  authTier := none
  tipLamports := sc.tipLamports
  priorityFeeMicrolamports := c.priorityFeeMicrolamports
  computeUnitLimit := c.computeUnitLimit

def senderMeta : AList fun _ : ℕ => SenderMeta :=
  c.senders.foldl (fun m sc => m.insert sc.id (c.metaOf sc)) ∅

/-- The dispatcher's clients, seed and shuffle come from outside the configuration. -/
def wire (authority : Pubkey) (signing : Signing) (d : DispatcherConfig) :
    NonceAttribution.Config where
  preparer := ⟨c.senders, authority, c.priorityFeeMicrolamports, c.computeUnitLimit, signing⟩
  dispatcher := { d with senderMeta := fun senderId => c.senderMeta.lookup senderId }

end BenchConfig

/-- Both tables hold for each sender what belongs to it, as no two senders share an id. -/
theorem lookup_foldl_insert {β : Type*} (f : SenderConfig → β) {senders : List SenderConfig}
    (hids : (senders.map SenderConfig.id).Nodup) (m : AList fun _ : ℕ => β) (senderId : ℕ)
    (b : β) :
    (senders.foldl (fun m sc => m.insert sc.id (f sc)) m).lookup senderId = some b ↔
      (∃ sc ∈ senders, sc.id = senderId ∧ f sc = b) ∨
        senderId ∉ senders.map SenderConfig.id ∧ m.lookup senderId = some b := by
  induction senders generalizing m with
  | nil => simp
  | cons sc senders ih =>
    obtain ⟨hhead, hids⟩ := List.nodup_cons.mp hids
    rw [List.foldl_cons, ih hids]
    rcases eq_or_ne senderId sc.id with rfl | hne
    · rw [AList.lookup_insert]
      constructor
      · rintro (⟨other, hother, heq, -⟩ | ⟨-, hb⟩)
        · exact absurd (heq ▸ List.mem_map_of_mem hother) hhead
        · exact Or.inl ⟨sc, List.mem_cons_self, rfl, Option.some.inj hb⟩
      · rintro (⟨other, hother, heq, rfl⟩ | ⟨hnew, -⟩)
        · rcases List.mem_cons.mp hother with rfl | hother
          · exact Or.inr ⟨hhead, rfl⟩
          · exact absurd (heq ▸ List.mem_map_of_mem hother) hhead
        · exact absurd List.mem_cons_self hnew
    · rw [AList.lookup_insert_ne hne, List.map_cons]
      simp [hne, hne.symm]

/-! ## Transactions and senders -/

/-- The transaction of a sender: its memo, its transfers with the tip of a sender that takes
tips, and its compute budget. -/
structure BuiltFor (c : BenchConfig) (authority : Pubkey) (sc : SenderConfig) (tx : Transaction) :
    Prop where
  memo : ∃ data, tx.memos = [data] ∧ Memo.decode data = .ok sc.id
  transfers : ∃ tip : Option Pubkey, tx.transfers =
      (authority, 1 + sc.id) :: tip.toList.map (fun account => (account, sc.tipLamports)) ∧
    (∀ account ∈ tip, account ∈ tipAccountsFor sc.kind) ∧
      (tip.isSome = true ↔ sc.kind.needsTip = true)
  budget : tx.budget = ([c.computeUnitLimit], [c.priorityFeeMicrolamports])

section

variable {c : BenchConfig} {authority : Pubkey} {sc : SenderConfig}
  {tx : Transaction}

/-- The memo tells the senders apart. -/
theorem BuiltFor.sender_eq (hvalid : PoolRace.Validated c.senders) (hsc : sc ∈ c.senders)
    (h : BuiltFor c authority sc tx) {other : SenderConfig} (hother : other ∈ c.senders)
    (ho : BuiltFor c authority other tx) : other = sc := by
  obtain ⟨data, hdata, hid⟩ := h.memo
  obtain ⟨data', hdata', hid'⟩ := ho.memo
  obtain rfl : data = data' := by simpa [hdata] using hdata'
  have heq : other.id = sc.id := Except.ok.inj (hid'.symm.trans hid)
  exact List.inj_on_of_nodup_map hvalid.ids hother hsc heq

variable {signing : Signing} {d : DispatcherConfig} {w : Preparer.Work} {tip : Option Pubkey}

/-- What `build_variant` makes of the parameters of a sender. -/
theorem builtFor_of_buildVariant {v : TxBuilder.VariantTx}
    (h : TxBuilder.buildVariant signing
      (Preparer.variantParams (c.wire authority signing d).preparer w sc tip) = .ok v)
    (htip : ∀ account ∈ tip, account ∈ tipAccountsFor sc.kind) :
    BuiltFor c authority sc v.tx := by
  unfold TxBuilder.buildVariant at h
  split at h
  · cases h
  · next htips =>
    split at h
    · cases h
    · next data hmemo =>
      obtain rfl := Except.ok.inj h
      refine ⟨⟨data, ?_, (Memo.decode_eq_ok_iff data sc.id).mpr hmemo⟩, ⟨tip, ?_, htip, ?_⟩, ?_⟩
      · cases tip <;> rfl
      · cases tip <;> rfl
      · cases tip with
        | none =>
          refine iff_of_false (by simp) fun hneeds => htips ⟨hneeds, rfl⟩
        | some account =>
          exact iff_of_true rfl ((tipAccountsFor_ne_nil_iff sc.kind).mp
            (List.ne_nil_of_mem (htip account rfl)))
      · cases tip <;> rfl

/-- Building fails for no sender that the configuration admits. -/
theorem buildVariant_ne_error (hfits : sc.id ≤ Memo.MAX_SENDER_ID)
    (htip : ¬(sc.kind.needsTip = true ∧ tip = none)) (e : TxBuilder.BuildError) :
    TxBuilder.buildVariant signing
      (Preparer.variantParams (c.wire authority signing d).preparer w sc tip) ≠ .error e := by
  have hmemo : Memo.encode sc.id = .ok [Memo.BASE + sc.id] := by
    unfold Memo.encode
    rw [if_neg (by omega)]
  unfold TxBuilder.buildVariant
  simp [Preparer.variantParams, hmemo, htip]

end

/-! ## The run -/

/-- A registration describes the transaction it is for, and a command carries the transaction
of the one sender it goes to. No signing fails. -/
def Traced (c : BenchConfig) (authority : Pubkey) : Dispatcher.Output → Prop
  | .send (.command cmd) => ∃ sc ∈ c.senders, sc.enabled = true ∧ sc.id = cmd.senderId ∧
      BuiltFor c authority sc cmd.tx ∧
        ∀ other ∈ c.senders, BuiltFor c authority other cmd.tx → other = sc
  | .send (.register reg pre) => ∃ sc ∈ c.senders, sc.enabled = true ∧ sc.id = reg.senderId ∧
      BuiltFor c authority sc pre.tx ∧ reg.senderName = c.name sc ∧
        reg.endpointUrl = c.endpointUrl sc ∧ reg.tipLamports = sc.tipLamports ∧
          pre.tx.budget = ([reg.computeUnitLimit], [reg.priorityFeeMicrolamports])
  | .fetchAdd .preparerSigningFail _ => False
  | _ => True

namespace SenderAttribution

open NonceAttribution (System Input)

structure Inv (c : BenchConfig) (authority : Pubkey) (sys : System) : Prop where
  rotators : ∀ sc ∈ c.senders, ∃ r, sys.rotators.lookup sc.id = some r ∧
    r.accounts = tipAccountsFor sc.kind
  pool : ∀ e ∈ sys.pool.map.entries, ∃ sc ∈ c.senders, sc.enabled = true ∧ sc.id = e.1.2 ∧
    BuiltFor c authority sc e.2.tx
  work : ∀ w ∈ sys.work, ∀ sc ∈ w.senders, sc ∈ c.senders

variable {c : BenchConfig} {authority : Pubkey} {signing : Signing}
  {d : DispatcherConfig} {sys : System}

/-- A rotator keeps its accounts and gives one of them, if it has any. -/
theorem next_spec (r : TipAccountRotator) : r.next.1.accounts = r.accounts ∧
    (∀ account ∈ r.next.2, account ∈ r.accounts) ∧ (r.next.2 = none → r.accounts = []) := by
  unfold TipAccountRotator.next
  split
  · next hempty => exact ⟨rfl, nofun, fun _ => hempty⟩
  · next hne =>
    refine ⟨rfl, fun account h => List.mem_of_getElem? h, fun h => absurd ?_ hne⟩
    have hlt : r.cursor % r.accounts.length < r.accounts.length :=
      Nat.mod_lt _ (List.length_pos_of_ne_nil hne)
    exact absurd (List.getElem?_eq_none_iff.mp h) (by omega)

theorem Inv.nextTip (hvalid : PoolRace.Validated c.senders) (h : Inv c authority sys)
    {sc : SenderConfig} (hsc : sc ∈ c.senders) :
    (∀ other ∈ c.senders, ∃ r, (Preparer.nextTip sys.rotators sc.id).1.lookup other.id = some r ∧
      r.accounts = tipAccountsFor other.kind) ∧
    (∀ account ∈ (Preparer.nextTip sys.rotators sc.id).2, account ∈ tipAccountsFor sc.kind) ∧
    ((Preparer.nextTip sys.rotators sc.id).2 = none → tipAccountsFor sc.kind = []) := by
  obtain ⟨r, hr, haccounts⟩ := h.rotators sc hsc
  obtain ⟨hkeeps, hmem, hnone⟩ := next_spec r
  unfold Preparer.nextTip
  rw [hr, ← haccounts]
  refine ⟨fun other hother => ?_, hmem, hnone⟩
  rcases eq_or_ne other.id sc.id with heq | hne
  · obtain rfl : other = sc := List.inj_on_of_nodup_map hvalid.ids hother hsc heq
    exact ⟨r.next.1, AList.lookup_insert _, hkeeps.trans haccounts⟩
  · obtain ⟨r', hr', haccounts'⟩ := h.rotators other hother
    exact ⟨r', (AList.lookup_insert_ne hne).trans hr', haccounts'⟩

/-- What is pooled for a sender is built for it. -/
theorem Inv.prepareSender (hvalid : PoolRace.Validated c.senders) (h : Inv c authority sys)
    {sc : SenderConfig} (hsc : sc ∈ c.senders) (w : Preparer.Work) (hw : ∀ other ∈ w.senders,
      other ∈ c.senders) (now : Instant) (signing : Signing) (d : DispatcherConfig) :
    Inv c authority { sys with
        rotators := (Preparer.prepareSender (c.wire authority signing d).preparer sys.rotators
          sys.pool ⟨w.entry, w.nonce, w.preparedAt, sc :: w.senders⟩ sc now).1
        pool := (Preparer.prepareSender (c.wire authority signing d).preparer sys.rotators
          sys.pool ⟨w.entry, w.nonce, w.preparedAt, sc :: w.senders⟩ sc now).2.1
        work := some w } ∧
      (Preparer.prepareSender (c.wire authority signing d).preparer sys.rotators sys.pool
        ⟨w.entry, w.nonce, w.preparedAt, sc :: w.senders⟩ sc now).2.2 = [] := by
  have hwork : ∀ w' ∈ some w, ∀ other ∈ w'.senders, other ∈ c.senders := by
    intro w' hw'
    obtain rfl := Option.some.inj hw'
    exact hw
  unfold Preparer.prepareSender
  split
  · next henabled =>
    obtain ⟨hrot, hmem, hnone⟩ := h.nextTip hvalid hsc
    dsimp only
    split
    · exact ⟨⟨hrot, h.pool, hwork⟩, rfl⟩
    · next e hsign =>
      unfold Preparer.signVariant at hsign
      split at hsign
      · cases hsign
      · next htip =>
        split at hsign
        · next hbuild =>
          exact absurd hbuild (buildVariant_ne_error (hvalid.encodable sc hsc) htip _)
        · cases hsign
    · next pre hsign =>
      refine ⟨⟨hrot, fun e he => ?_, hwork⟩, rfl⟩
      rcases List.mem_cons.mp he with rfl | hold
      · refine ⟨sc, hsc, henabled, rfl, ?_⟩
        unfold Preparer.signVariant at hsign
        split at hsign
        · cases hsign
        · split at hsign
          · cases hsign
          · next v hbuild =>
            obtain rfl := Except.ok.inj (Option.some.inj hsign)
            exact builtFor_of_buildVariant hbuild hmem
      · exact h.pool e (List.Sublist.mem hold (List.kerase_sublist _ _))
  · exact ⟨⟨h.rotators, h.pool, hwork⟩, rfl⟩

/-- What a trigger takes out of the pool. -/
theorem traced_dispatch (hvalid : PoolRace.Validated c.senders) (t : TriggerEvent)
    (prepared : Option PreparedTrigger) {variants : List (ℕ × PreSignedTx)}
    (hvariants : ∀ v ∈ variants, ∃ sc ∈ c.senders, sc.enabled = true ∧ sc.id = v.1 ∧
      BuiltFor c authority sc v.2.tx) :
    ∀ o ∈ Dispatcher.dispatch (c.wire authority signing d).dispatcher t prepared variants,
      Traced c authority o := by
  intro o ho
  unfold Dispatcher.dispatch at ho
  dsimp only at ho
  split at ho
  · obtain rfl := List.mem_singleton.mp ho
    trivial
  · obtain ⟨⟨idx, order⟩, -, ho⟩ := List.mem_flatMap.mp ho
    dsimp only at ho
    split at ho
    · cases ho
    · next v hv =>
      obtain ⟨sc, hsc, henabled, hid, hbuilt⟩ := hvariants v (List.mem_of_getElem? hv)
      unfold Dispatcher.dispatchVariant at ho
      split at ho
      · split at ho
        · cases ho
        · next info hinfo =>
          rcases List.mem_cons.mp ho with rfl | ho
          · trivial
          · rcases List.mem_cons.mp ho with rfl | ho
            · rcases (lookup_foldl_insert c.metaOf hvalid.ids ∅ v.1 info).mp hinfo with
                ⟨other, hother, hsame, rfl⟩ | ⟨-, hnone⟩
              · obtain rfl : other = sc :=
                  List.inj_on_of_nodup_map hvalid.ids hother hsc (hsame.trans hid.symm)
                exact ⟨other, hother, henabled, hid, hbuilt, rfl, rfl, rfl, hbuilt.budget⟩
              · cases hnone
            · obtain rfl := List.mem_singleton.mp ho
              exact ⟨sc, hsc, henabled, hid, hbuilt,
                fun other hother ho => hbuilt.sender_eq hvalid hsc hother ho⟩
      · cases ho

theorem Inv.step (hvalid : PoolRace.Validated c.senders) (h : Inv c authority sys)
    (i : Input) :
    Inv c authority (NonceAttribution.step (c.wire authority signing d) sys i).1 ∧
      ∀ o ∈ (NonceAttribution.step (c.wire authority signing d) sys i).2,
        Traced c authority o := by
  unfold NonceAttribution.step
  cases i with
  | claim nonce now =>
    dsimp only
    split
    · refine ⟨⟨h.rotators, h.pool, fun w hw sc hsc => ?_⟩, nofun⟩
      obtain rfl := Option.some.inj hw
      exact hsc
    · exact ⟨h, nofun⟩
  | sign now =>
    dsimp only
    split
    · next entry nonce preparedAt sc senders hwork =>
      have hsenders := h.work _ hwork
      obtain ⟨hinv, hquiet⟩ := h.prepareSender hvalid
        (hsenders sc List.mem_cons_self) ⟨entry, nonce, preparedAt, senders⟩
        (fun other hother => hsenders other (List.mem_cons_of_mem _ hother)) now signing d
      refine ⟨hinv, ?_⟩
      rw [hquiet]
      exact nofun
    · exact ⟨h, nofun⟩
  | announce =>
    dsimp only
    split
    · exact ⟨⟨h.rotators, h.pool, nofun⟩, nofun⟩
    · exact ⟨h, nofun⟩
  | trigger t =>
    dsimp only
    split
    · exact ⟨⟨h.rotators, h.pool, h.work⟩, nofun⟩
    · exact ⟨h, nofun⟩
  | takeAll =>
    dsimp only
    split
    · exact ⟨h, nofun⟩
    · refine ⟨⟨h.rotators, fun e he => h.pool e (List.mem_of_mem_filter he), h.work⟩, ?_⟩
      exact traced_dispatch hvalid _ _ fun v hv => h.pool _ (TxPool.mem_takeAllFor hv)

theorem Inv.start (hvalid : PoolRace.Validated c.senders) (s : Schedule) (n : ℕ) :
    Inv c authority (NonceAttribution.start s n c.rotators) where
  rotators sc hsc := by
    refine ⟨⟨tipAccountsFor sc.kind, 0⟩, ?_, rfl⟩
    exact (lookup_foldl_insert (fun sc => TipAccountRotator.mk (tipAccountsFor sc.kind) 0)
      hvalid.ids ∅ sc.id _).mpr (Or.inl ⟨sc, hsc, rfl, rfl⟩)
  pool _ he := nomatch he
  work _ hw := nomatch hw

end SenderAttribution

/-- With a configuration that passes validation, in every run each command carries the transaction
of exactly one sender, the enabled one it goes to, each registration describes its transaction,
and no signing fails. -/
theorem outputs_traced (c : BenchConfig) (h : c.validate = .ok ()) (authority : Pubkey)
    (signing : Signing) (d : DispatcherConfig) (s : Schedule) (n : ℕ)
    (is : List NonceAttribution.Input) :
    ∀ o ∈ ((NonceAttribution.machine (c.wire authority signing d)).run
      (NonceAttribution.start s n c.rotators) is).2, Traced c authority o := by
  have hvalid := BenchConfig.validated h
  intro o ho
  obtain ⟨pre, i, post, -, ho⟩ := EventMachine.exists_step_of_mem_run _ ho
  have hinv := (NonceAttribution.machine (c.wire authority signing d)).run_invariant
    (SenderAttribution.Inv c authority) (SenderAttribution.Inv.start hvalid s n)
    (fun _ i h => (h.step hvalid i).1) pre
  exact (hinv.step hvalid i).2 o ho

/-! Two senders, of which one takes tips. -/

def sampleBench : BenchConfig where
  poolSize := 2
  chunkSizeSlots := 2
  priorityFeeMicrolamports := 5000
  computeUnitLimit := 200_000
  senders := [⟨1, .helius, 5000, true⟩, ⟨93, .triton, 0, true⟩]
  name sc := if sc.id = 1 then "helius" else "triton"
  endpointUrl _ := "endpoint"

def sampleDispatcher : DispatcherConfig :=
  { NonceAttribution.sampleConfig.dispatcher with senders := {1, 93} }

def sampleRun : NonceAttribution.System × List Dispatcher.Output :=
  (NonceAttribution.machine (sampleBench.wire 50 NonceAttribution.sampleConfig.preparer.signing
    sampleDispatcher)).run
      (NonceAttribution.start NonceAttribution.sampleSchedule 1 sampleBench.rotators)
      [.claim ⟨1, 11, 101⟩ 0, .sign 0, .sign 1, .announce, .trigger ⟨7, 1, 62_500, 5⟩, .takeAll]

/-- Both senders are sent their transaction. -/
theorem outputs_traced_sample : sampleBench.validate = .ok () ∧
    (Effect.sent sampleRun.2).length = 6 ∧ ∀ o ∈ sampleRun.2, Traced sampleBench 50 o :=
  ⟨rfl, by decide +kernel, outputs_traced sampleBench rfl 50 _ _ _ 1 _⟩

end SolanaBench.FanOut
