import SolanaBench.TxCutoff.Resolution

/-! Which transactions get their second record, and what it says, against the chain that the
heads come from. -/
namespace SolanaBench.TxCutoff

open Engine

/-- The transactions of each block: a transaction is in one block at most. -/
def OneBlock (chain : ℕ → List TxHash) : Prop :=
  ∀ tx b b', tx ∈ chain b → tx ∈ chain b' → b = b'

def Input.header? : Input → Option Header
  | .header hd => some hd
  | .sendResult _ => none
  | .ctrlC => none

def heads (is : List Input) : List Header := is.filterMap Input.header?

/-- Heads come in order, transactions differ, and a transaction is answered at most once, after
it was signed. -/
structure Feeds (is : List Input) : Prop where
  increasing : (heads is).Pairwise fun a b => a.number < b.number
  distinct : (is.flatMap Input.signed).Nodup
  once : (is.filterMap Input.answered?).Nodup
  answers : EverySplit (fun pre i => ∀ tx ∈ i.answered?, tx ∈ pre.flatMap Input.signed) is

/-- The engine sends the transaction for a block, whose number is a `u64`. -/
def Scheduled (cfg : EngineConfig) (tx : TxHash) (target : ℕ) (is : List Input) : Prop :=
  SomeSplit (fun pre i => Schedules cfg (run cfg pre).1 tx i ∧
    ∃ hd, i = .header hd ∧ target = hd.number + 1 ∧ target < 2 ^ 64) is

/-- The node took the transaction. -/
def Accepted (tx : TxHash) (is : List Input) : Prop :=
  ∃ res, .sendResult res ∈ is ∧ res.txHash = tx ∧ res.outcome.isAccepted

/-- The main loop handles the head `hd`, whose block has the transaction, in time. -/
structure Included (cfg : EngineConfig) (chain : ℕ → List TxHash) (pre : List Input) (hd : Header)
    (post : List Input) (tx : TxHash) (target : ℕ) : Prop where
  processed : (run cfg pre).1.running
  scheduled : Scheduled cfg tx target (pre ++ .header hd :: post)
  contained : tx ∈ chain hd.number
  after : target ≤ hd.number
  inTime : hd.number ≤ target + cfg.lookahead

/-- `target + self.lookahead`, which wraps in `u64`. -/
def horizon (cfg : EngineConfig) (target : ℕ) : ℕ := (target + cfg.lookahead) % 2 ^ 64

/-- Of the heads from the target on, none is past the horizon. -/
def WithinHorizon (cfg : EngineConfig) (target : ℕ) (is : List Input) : Prop :=
  ∀ hd ∈ heads is, target ≤ hd.number → hd.number ≤ horizon cfg target

/-- The outcome of a transaction that is in block `n`. -/
def kindAt (target n : ℕ) : InclusionKind := if n = target then .target else .late (n - target)

theorem kindAt_ne_dropped {target n : ℕ} : kindAt target n ≠ .dropped := by
  unfold kindAt
  split <;> exact nofun

/-- One record says what became of the transaction, in the log and in the aggregator. -/
def ResolvedOnce (cfg : EngineConfig) (is : List Input) (tx : TxHash) (k : InclusionKind) : Prop :=
  ∃ rec : TxRecord, rec.inclusion = k ∧
    resolutionsOf tx (written (run cfg is).2) = [rec] ∧
    resolutionsOf tx (counted (run cfg is).2) = [rec]

section

variable {cfg : EngineConfig} {chain : ℕ → List TxHash} {is pre post mid : List Input}
  {hd hd' : Header} {tx : TxHash} {target : ℕ} {r : ResolvedTx}

theorem mem_heads : hd ∈ heads is ↔ .header hd ∈ is := by
  constructor
  · intro h
    obtain ⟨i, hi, hhd⟩ := List.mem_filterMap.mp h
    cases i with
    | header hd' =>
      cases hhd
      exact hi
    | sendResult res => cases hhd
    | ctrlC => cases hhd
  · exact fun h => List.mem_filterMap.mpr ⟨_, h, rfl⟩

theorem heads_append : heads (pre ++ post) = heads pre ++ heads post := List.filterMap_append

theorem Feeds.of_append (h : Feeds (is ++ post)) : Feeds is where
  increasing := (List.pairwise_append.mp (heads_append ▸ h.increasing)).1
  distinct := (List.nodup_append.mp (List.flatMap_append ▸ h.distinct)).1
  once := (List.nodup_append.mp (List.filterMap_append ▸ h.once)).1
  answers := h.answers.of_append

theorem Feeds.number_lt (h : Feeds (pre ++ .header hd :: mid)) (hmem : .header hd' ∈ pre) :
    hd'.number < hd.number := by
  have hpairs := h.increasing
  rw [heads_append] at hpairs
  exact (List.pairwise_append.mp hpairs).2.2 hd' (mem_heads.mpr hmem) hd
    (mem_heads.mpr List.mem_cons_self)

theorem Feeds.lt_number (h : Feeds (pre ++ .header hd :: mid)) (hmem : .header hd' ∈ mid) :
    hd.number < hd'.number := by
  have hpairs := h.increasing
  rw [heads_append] at hpairs
  exact List.rel_of_pairwise_cons (List.pairwise_append.mp hpairs).2.1 (mem_heads.mpr hmem)

/-- A transaction is sent before the heads from its target on. -/
theorem Scheduled.before (h : Scheduled cfg tx target (pre ++ .header hd :: post))
    (hfeeds : Feeds (pre ++ .header hd :: post)) (hle : target ≤ hd.number) :
    Scheduled cfg tx target pre := by
  obtain ⟨pre', i, post', hsplit, hsched, hd', rfl, rfl, hword⟩ := h
  rcases splits_compare hsplit with ⟨-, heq, -⟩ | ⟨mid, -, rfl⟩ | ⟨mid, rfl, -⟩
  · cases heq
    omega
  · have hlt : hd.number < hd'.number := hfeeds.lt_number (by simp)
    omega
  · exact ⟨pre', _, mid, rfl, hsched, hd', rfl, rfl, hword⟩

/-- When the engine sends the transaction it waits for it, and has written nothing of it. -/
theorem Scheduled.opened (h : Scheduled cfg tx target is) (hfeeds : Feeds is) :
    ∃ pre hd mid, is = pre ++ .header hd :: mid ∧ target = hd.number + 1 ∧
      tx ∉ pre.filterMap Input.answered? ∧ tx ∉ mid.flatMap Input.signed ∧
      Open cfg tx target none (run cfg (pre ++ [.header hd])).1 ∧
      resolutionsOf tx (written (run cfg (pre ++ [.header hd])).2) = [] := by
  obtain ⟨pre, i, mid, rfl, hsched, hd, rfl, rfl, hword⟩ := h
  have htarget : hd.targetBlock = hd.number + 1 := Nat.mod_eq_of_lt hword
  have hsigned := signed_of_schedules hsched
  have hdistinct := hfeeds.distinct
  rw [List.flatMap_append, List.flatMap_cons] at hdistinct
  obtain ⟨-, hdistinct, hpre⟩ := List.nodup_append.mp hdistinct
  have hnew : tx ∉ pre.flatMap Input.signed := fun hmem =>
    hpre tx hmem tx (List.mem_append_left _ hsigned) rfl
  have hlater : tx ∉ mid.flatMap Input.signed := fun hmem =>
    (List.nodup_append.mp hdistinct).2.2 tx hsigned tx hmem rfl
  have hanswered : tx ∉ pre.filterMap Input.answered? := by
    intro hmem
    obtain ⟨i, hi, htx⟩ := List.mem_filterMap.mp hmem
    obtain ⟨pre', post', rfl⟩ := List.append_of_mem hi
    have hsigned' := hfeeds.of_append.answers pre' i post' rfl tx htx
    exact hnew (List.flatMap_append ▸ List.mem_append_left _ hsigned')
  have hfresh : Fresh cfg tx (run cfg pre).1 := fresh_start.run hnew hanswered
  obtain ⟨hopen, hout⟩ := hfresh.schedule hsched
  rw [htarget] at hopen
  refine ⟨pre, hd, mid, rfl, rfl, hanswered, hlater, ?_, ?_⟩
  · unfold run
    rw [EventMachine.run_append_fst]
    exact hopen
  · have hquiet : resolutionsOf tx (written (run cfg pre).2) = [] :=
      (@fresh_start cfg tx).closed.run hnew
    unfold run at hquiet
    unfold run
    rw [EventMachine.run_append_snd, written_append, resolutionsOf_append, hquiet,
      EventMachine.run_cons_snd, EventMachine.run_nil, List.append_nil, List.nil_append]
    exact hout

theorem Accepted.append_iff : Accepted tx (pre ++ post) ↔ Accepted tx pre ∨ Accepted tx post := by
  unfold Accepted
  simp only [List.mem_append, or_and_right, exists_or]

theorem Accepted.answered (h : Accepted tx is) : tx ∈ is.filterMap Input.answered? := by
  obtain ⟨res, hres, htx, -⟩ := h
  exact List.mem_filterMap.mpr ⟨_, hres, congrArg some htx⟩

/-- Where no value comes twice, a value comes from one element. -/
theorem eq_of_nodup_filterMap {α β : Type*} {f : α → Option β} {l : List α}
    (h : (l.filterMap f).Nodup) {a b : α} (ha : a ∈ l) (hb : b ∈ l) {c : β} (hfa : f a = some c)
    (hfb : f b = some c) : a = b := by
  have hpairs := List.pairwise_filterMap.mp h
  have hsymm : Std.Symm fun x y => ∀ c, f x = some c → ∀ c', f y = some c' → c ≠ c' :=
    ⟨fun x y hxy c hc c' hc' => Ne.symm (hxy c' hc' c hc)⟩
  by_contra hne
  exact hpairs.forall ha hb hne c hfa c hfb rfl

theorem Feeds.result_unique (h : Feeds is) {res res' : SendResult} (hres : .sendResult res ∈ is)
    (hres' : .sendResult res' ∈ is) (htx : res.txHash = res'.txHash) : res = res' :=
  Input.sendResult.inj (eq_of_nodup_filterMap h.once hres hres' (congrArg some htx) rfl)

theorem Feeds.header_unique (h : Feeds is) (hmem : .header hd ∈ is) (hmem' : .header hd' ∈ is)
    (hnumber : hd.number = hd'.number) : hd = hd' := by
  have hnodup : (is.filterMap fun i => i.header?.map Header.number).Nodup := by
    rw [← List.map_filterMap]
    exact (List.pairwise_map.mpr h.increasing).imp Nat.ne_of_lt
  exact Input.header.inj (eq_of_nodup_filterMap hnodup hmem hmem' (congrArg some hnumber) rfl)

theorem Scheduled.signed (h : Scheduled cfg tx target is) : tx ∈ is.flatMap Input.signed := by
  obtain ⟨pre, i, post, rfl, hsched, -⟩ := h
  rw [List.flatMap_append, List.flatMap_cons]
  exact List.mem_append_right _ (List.mem_append_left _ (signed_of_schedules hsched))

theorem run_append_fst (is post : List Input) :
    (run cfg (is ++ post)).1 = ((engine cfg).run (run cfg is).1 post).1 :=
  EventMachine.run_append_fst ..

theorem resolutionsOf_run_append (is post : List Input) :
    resolutionsOf tx (written (run cfg (is ++ post)).2) =
      resolutionsOf tx (written (run cfg is).2) ++
        resolutionsOf tx (written ((engine cfg).run (run cfg is).1 post).2) := by
  unfold run
  rw [EventMachine.run_append_snd, written_append, resolutionsOf_append]

/-- Until a head decides about it, a scheduled transaction waits for one, without a record. -/
theorem Scheduled.waiting (hsched : Scheduled cfg tx target pre) (hfeeds : Feeds pre)
    (hrun : (run cfg pre).1.running)
    (hbefore : ∀ hd, .header hd ∈ pre → target ≤ hd.number → decision cfg tx target hd = none) :
    ∃ p0 h0 mid, pre = p0 ++ [.header h0] ++ mid ∧ tx ∉ p0.filterMap Input.answered? ∧
      Waiting cfg tx target mid (run cfg pre).1 ∧
        resolutionsOf tx (written (run cfg pre).2) = [] := by
  obtain ⟨p0, h0, mid, hsplit, rfl, hanswered, hnew, hopen, hquiet⟩ := hsched.opened hfeeds
  have hassoc : pre = p0 ++ [.header h0] ++ mid := by simp [hsplit]
  have honce : (mid.filterMap Input.answered?).Nodup := by
    have honce := hfeeds.once
    rw [hassoc, List.filterMap_append] at honce
    exact (List.nodup_append.mp honce).2.1
  have hwait : ∀ hd, .header hd ∈ mid → decision cfg tx (h0.number + 1) hd = none := by
    intro hd hmem
    exact hbefore hd (by simp [hsplit, hmem]) (Feeds.lt_number (hsplit ▸ hfeeds) hmem)
  have hend : (run cfg pre).1 = ((engine cfg).run (run cfg (p0 ++ [.header h0])).1 mid).1 := by
    rw [hassoc, run_append_fst]
  obtain ⟨hwaiting, hmid⟩ := waiting_run hopen hnew honce hwait (hend ▸ hrun)
  rw [← hend] at hwaiting
  refine ⟨p0, h0, mid, hassoc, hanswered, hwaiting, ?_⟩
  rw [hassoc, resolutionsOf_run_append, hquiet, hmid, List.append_nil]

/-- The head that decides about a transaction gives it its record exactly when the transaction
was accepted before. -/
theorem resolutions_of_decision (hfeeds : Feeds (pre ++ .header hd :: post))
    (hrun : (run cfg pre).1.running) (hsched : Scheduled cfg tx target pre)
    (hbefore : ∀ hd', .header hd' ∈ pre → target ≤ hd'.number →
      decision cfg tx target hd' = none)
    (hdec : decision cfg tx target hd = some r) :
    (Accepted tx pre → ∃ p : PartialRecord,
      resolutionsOf tx (written (run cfg (pre ++ .header hd :: post)).2) =
        (secondRecord (some p) r).toList) ∧
      (¬Accepted tx pre →
        resolutionsOf tx (written (run cfg (pre ++ .header hd :: post)).2) = []) := by
  have hpre := hfeeds.of_append
  have hdistinct := hfeeds.distinct
  rw [List.flatMap_append] at hdistinct
  have hlater : tx ∉ (Input.header hd :: post).flatMap Input.signed := fun hmem =>
    (List.nodup_append.mp hdistinct).2.2 tx hsched.signed tx hmem rfl
  rw [List.flatMap_cons, List.mem_append, not_or] at hlater
  obtain ⟨p0, h0, mid, hassoc, hanswered, hwaiting, hnone⟩ := hsched.waiting hpre hrun hbefore
  have hwhole : resolutionsOf tx (written (run cfg (pre ++ .header hd :: post)).2) =
      resolutionsOf tx (written ((engine cfg).step (run cfg pre).1 (.header hd)).2) ++
        resolutionsOf tx (written ((engine cfg).run
          ((engine cfg).step (run cfg pre).1 (.header hd)).1 post).2) := by
    rw [resolutionsOf_run_append, hnone, List.nil_append, EventMachine.run_cons_snd,
      written_append, resolutionsOf_append]
  cases hwaiting with
  | unanswered h hans =>
    obtain ⟨hclosed, hout⟩ := h.decide hrun hdec hlater.1
    rw [hwhole, hout, hclosed.run hlater.2]
    refine ⟨fun hacc => ?_, fun _ => rfl⟩
    have hmem := hacc.answered
    rw [hassoc, List.filterMap_append, List.filterMap_append, List.mem_append, List.mem_append] at hmem
    rcases hmem with (hmem | hmem) | hmem
    · exact absurd hmem hanswered
    · cases hmem
    · exact absurd hmem hans
  | accepted res h hres htx hacc =>
    obtain ⟨hclosed, hout⟩ := h.decide hrun hdec hlater.1
    rw [hwhole, hout, hclosed.run hlater.2, List.append_nil]
    exact ⟨fun _ => ⟨_, rfl⟩, fun hno => absurd ⟨res, by simp [hassoc, hres], htx, hacc⟩ hno⟩
  | rejected res h hres htx hrej =>
    obtain ⟨hclosed, hout⟩ := h.step hlater.1
    rw [hwhole, hout, hclosed.run hlater.2]
    refine ⟨fun ⟨res', hres', htx', hacc⟩ => ?_, fun _ => rfl⟩
    have hin : .sendResult res ∈ pre := by simp [hassoc, hres]
    have heq := hpre.result_unique hin hres' (htx.trans htx'.symm)
    exact absurd (heq ▸ hacc) hrej

/-- Without a head that decides there is no record. -/
theorem resolutions_of_undecided (hfeeds : Feeds is) (hsched : Scheduled cfg tx target is)
    (hwait : EverySplit (fun pre i => ∀ hd, i = .header hd → (run cfg pre).1.running →
      target ≤ hd.number → decision cfg tx target hd = none) is) :
    resolutionsOf tx (written (run cfg is).2) = [] := by
  obtain ⟨p0, h0, mid, hsplit, rfl, -, hnew, hopen, hquiet⟩ := hsched.opened hfeeds
  have hassoc : is = p0 ++ [.header h0] ++ mid := by simp [hsplit]
  rw [hassoc, resolutionsOf_run_append, hquiet, List.nil_append]
  refine hopen.undecided hnew fun pre i post hmid hd hi hrun => ?_
  refine hwait (p0 ++ [.header h0] ++ pre) i post (by simp [hassoc, hmid]) hd hi ?_ ?_
  · rwa [run_append_fst]
  · refine Feeds.lt_number (hsplit ▸ hfeeds) ?_
    simp [hmid, hi]

/-! ## Decisions -/

theorem decision_contained (h : tx ∈ hd.fetched.getD []) : decision cfg tx target hd =
    some ⟨tx, if hd.number = target then .includedTarget else .includedLate (hd.number - target),
      some hd.number⟩ := by
  unfold decision Tracker.verdict
  exact if_pos h

theorem decision_waits (h : tx ∉ hd.fetched.getD []) (hle : hd.number ≤ horizon cfg target) :
    decision cfg tx target hd = none := by
  unfold decision Tracker.verdict
  unfold horizon at hle
  dsimp only
  rw [if_neg h, if_neg (Nat.not_lt.mpr hle)]

theorem decision_dropped (h : tx ∉ hd.fetched.getD []) (hlt : horizon cfg target < hd.number) :
    decision cfg tx target hd = some ⟨tx, .dropped, none⟩ := by
  unfold decision Tracker.verdict
  unfold horizon at hlt
  dsimp only
  rw [if_neg h, if_pos hlt]

theorem secondRecord_contained (p : PartialRecord) (tx : TxHash) (target n : ℕ) :
    secondRecord (some p) ⟨tx, if n = target then .includedTarget else .includedLate (n - target),
      some n⟩ = some (p.intoTxRecord (kindAt target n) (some n)) := by
  unfold secondRecord kindAt
  split <;> rfl

/-- Only the block that has a transaction lists it. -/
theorem notMem_of_ne (hchain : OneBlock chain) (hfetch : ∀ txs ∈ hd.fetched, txs = chain hd.number)
    {n : ℕ} (hcontained : tx ∈ chain n) (hne : hd.number ≠ n) : tx ∉ hd.fetched.getD [] := by
  intro hin
  cases hf : hd.fetched with
  | none => simp [hf] at hin
  | some txs =>
    rw [hf, Option.getD_some, hfetch txs hf] at hin
    exact hne (hchain tx _ _ hin hcontained)

/-- The block that has the transaction decides, if its transactions are known and no head before
it is past the horizon. -/
theorem resolutions_of_contained (hfeeds : Feeds (pre ++ .header hd :: post))
    (hchain : OneBlock chain)
    (hfetch : ∀ hd' ∈ heads (pre ++ .header hd :: post), ∀ txs ∈ hd'.fetched,
      txs = chain hd'.number)
    (hsome : hd.fetched.isSome) (hwithin : WithinHorizon cfg target pre)
    (h : Included cfg chain pre hd post tx target) :
    (Accepted tx pre → ∃ p : PartialRecord,
      resolutionsOf tx (written (run cfg (pre ++ .header hd :: post)).2) =
        [p.intoTxRecord (kindAt target hd.number) (some hd.number)]) ∧
      (¬Accepted tx pre →
        resolutionsOf tx (written (run cfg (pre ++ .header hd :: post)).2) = []) := by
  obtain ⟨txs, htxs⟩ := Option.isSome_iff_exists.mp hsome
  have hcontained : tx ∈ hd.fetched.getD [] := by
    rw [htxs, hfetch hd (mem_heads.mpr (by simp)) txs htxs]
    exact h.contained
  have hbefore : ∀ hd', .header hd' ∈ pre → target ≤ hd'.number →
      decision cfg tx target hd' = none := by
    intro hd' hmem hle
    refine decision_waits (notMem_of_ne hchain (hfetch hd' (mem_heads.mpr (by simp [hmem])))
      h.contained (hfeeds.number_lt hmem).ne) ?_
    exact hwithin hd' (mem_heads.mpr hmem) hle
  obtain ⟨hyes, hno⟩ := resolutions_of_decision hfeeds h.processed
    (h.scheduled.before hfeeds h.after) hbefore (decision_contained hcontained)
  refine ⟨fun hacc => ?_, hno⟩
  obtain ⟨p, hp⟩ := hyes hacc
  rw [secondRecord_contained] at hp
  exact ⟨p, hp⟩

/-! ## Past the horizon -/

/-- The main loop handles the first head past the horizon, among those from the target on. -/
structure PastHorizon (cfg : EngineConfig) (target : ℕ) (pre : List Input) (hd : Header) : Prop
    where
  processed : (run cfg pre).1.running
  after : target ≤ hd.number
  past : horizon cfg target < hd.number
  first : WithinHorizon cfg target pre

theorem running_of_append (h : (run cfg (pre ++ post)).1.running) : (run cfg pre).1.running := by
  rw [run_append_fst] at h
  exact running_of_run h

/-- The main loop handles a head past the horizon, or all that it handles are within it. -/
theorem pastHorizon_or (cfg : EngineConfig) (target : ℕ) (is : List Input) :
    (∃ pre hd post, is = pre ++ .header hd :: post ∧ PastHorizon cfg target pre hd) ∨
      EverySplit (fun pre i => ∀ hd, i = .header hd → (run cfg pre).1.running →
        target ≤ hd.number → hd.number ≤ horizon cfg target) is := by
  by_cases hsome : SomeSplit (fun pre i => ∃ hd, i = .header hd ∧ (run cfg pre).1.running ∧
      target ≤ hd.number ∧ horizon cfg target < hd.number) is
  · obtain ⟨pre, i, post, rfl, ⟨hd, rfl, hrun, hle, hlt⟩, hfirst⟩ := hsome.first
    refine Or.inl ⟨pre, hd, post, rfl, hrun, hle, hlt, fun hd' hmem hle' => ?_⟩
    obtain ⟨p, q, rfl⟩ := List.append_of_mem (mem_heads.mp hmem)
    by_contra hlate
    exact hfirst p _ q rfl ⟨hd', rfl, running_of_append hrun, hle', Nat.not_le.mp hlate⟩
  · refine Or.inr fun pre i post hsplit hd hi hrun hle => ?_
    by_contra hlate
    exact hsome ⟨pre, i, post, hsplit, hd, hi, hrun, hle, Nat.not_le.mp hlate⟩

theorem withinHorizon_of_every (hrun : (run cfg is).1.running)
    (h : EverySplit (fun pre i => ∀ hd, i = .header hd → (run cfg pre).1.running →
      target ≤ hd.number → hd.number ≤ horizon cfg target) is) : WithinHorizon cfg target is := by
  intro hd hmem hle
  obtain ⟨pre, post, rfl⟩ := List.append_of_mem (mem_heads.mp hmem)
  exact h pre _ post rfl hd rfl (running_of_append hrun) hle

/-- The first head past the horizon drops a transaction that no list has until then. -/
theorem resolutions_of_dropped (hfeeds : Feeds (pre ++ .header hd :: post))
    (hsched : Scheduled cfg tx target (pre ++ .header hd :: post))
    (hpast : PastHorizon cfg target pre hd)
    (hmissing : ∀ hd' ∈ heads (pre ++ [.header hd]), tx ∉ hd'.fetched.getD []) :
    (Accepted tx pre → ∃ rec : TxRecord, rec.inclusion = .dropped ∧
      resolutionsOf tx (written (run cfg (pre ++ .header hd :: post)).2) = [rec]) ∧
      (¬Accepted tx pre →
        resolutionsOf tx (written (run cfg (pre ++ .header hd :: post)).2) = []) := by
  have hdec := decision_dropped (hmissing hd (mem_heads.mpr (by simp))) hpast.past
  obtain ⟨hyes, hno⟩ := resolutions_of_decision hfeeds hpast.processed
    (hsched.before hfeeds hpast.after)
    (fun hd' hin hle => decision_waits (hmissing hd' (mem_heads.mpr (by simp [hin])))
      (hpast.first hd' (mem_heads.mpr hin) hle)) hdec
  refine ⟨fun hacc => ?_, hno⟩
  obtain ⟨p, hp⟩ := hyes hacc
  exact ⟨p.intoTxRecord .dropped none, rfl, hp⟩

/-- The main loop looks past the horizon of a transaction that the node took before. -/
def LooksPast (cfg : EngineConfig) (tx : TxHash) (target : ℕ) (is : List Input) : Prop :=
  ∃ pre hd post, is = pre ++ .header hd :: post ∧ PastHorizon cfg target pre hd ∧ Accepted tx pre

/-- If the block that has a transaction was not fetched, no list that was fetched has it. -/
theorem notMem_of_unfetched (hfeeds : Feeds is) (hchain : OneBlock chain)
    (hfetch : ∀ hd' ∈ heads is, ∀ txs ∈ hd'.fetched, txs = chain hd'.number) (hhd : hd ∈ heads is)
    (hnone : hd.fetched = none) (hcontained : tx ∈ chain hd.number) (hmem : hd' ∈ heads is) :
    tx ∉ hd'.fetched.getD [] := by
  by_cases hnumber : hd'.number = hd.number
  · have heq := hfeeds.header_unique (mem_heads.mp hmem) (mem_heads.mp hhd) hnumber
    simp [heq, hnone]
  · exact notMem_of_ne hchain (hfetch hd' hmem) hcontained hnumber

theorem Feeds.le_number (h : Feeds (pre ++ .header hd :: post))
    (hmem : hd' ∈ heads (.header hd :: post)) : hd.number ≤ hd'.number := by
  rcases List.mem_cons.mp (mem_heads.mp hmem) with heq | hpost
  · rw [Input.header.inj heq]
  · exact (h.lt_number hpost).le

theorem Feeds.number_le (h : Feeds (pre ++ .header hd :: post))
    (hmem : hd' ∈ heads (pre ++ [.header hd])) : hd'.number ≤ hd.number := by
  rcases List.mem_append.mp (mem_heads.mp hmem) with hpre | hlast
  · exact (h.number_lt hpre).le
  · rw [Input.header.inj (List.mem_singleton.mp hlast)]

/-- The block that has the transaction was not fetched, or a head before it is past the horizon:
then the first head past the horizon finds the transaction in no list. -/
theorem Included.missing (h : Included cfg chain pre hd post tx target)
    (hfeeds : Feeds (pre ++ .header hd :: post)) (hchain : OneBlock chain)
    (hfetch : ∀ hd' ∈ heads (pre ++ .header hd :: post), ∀ txs ∈ hd'.fetched,
      txs = chain hd'.number)
    (hmissed : ¬(hd.fetched.isSome ∧ WithinHorizon cfg target pre)) {pre' post' : List Input}
    (hsplit : pre ++ .header hd :: post = pre' ++ .header hd' :: post')
    (hpast : PastHorizon cfg target pre' hd') :
    ∀ hd'' ∈ heads (pre' ++ [.header hd']), tx ∉ hd''.fetched.getD [] := by
  have hfeeds' := hsplit ▸ hfeeds
  intro hd'' hmem
  have hall : hd'' ∈ heads (pre ++ .header hd :: post) := by
    rw [hsplit, List.append_cons, heads_append]
    exact List.mem_append_left _ hmem
  by_cases hwithin : WithinHorizon cfg target pre
  · have hnone : hd.fetched = none := by simpa [hwithin] using hmissed
    exact notMem_of_unfetched hfeeds hchain hfetch (mem_heads.mpr (by simp)) hnone h.contained hall
  · unfold WithinHorizon at hwithin
    push Not at hwithin
    obtain ⟨late, hlate, hle, hlt⟩ := hwithin
    -- the first head past the horizon is no later than this one, which comes before the block
    have hbefore : late.number < hd.number := hfeeds.number_lt (mem_heads.mp hlate)
    have hfirst : hd'.number ≤ late.number := by
      have hin : late ∈ heads (pre' ++ .header hd' :: post') := by
        rw [← hsplit, heads_append]
        exact List.mem_append_left _ hlate
      rw [heads_append] at hin
      rcases List.mem_append.mp hin with hpre | hrest
      · exact absurd (hpast.first late hpre hle) (Nat.not_le.mpr hlt)
      · exact hfeeds'.le_number hrest
    have hnumber := hfeeds'.number_le hmem
    exact notMem_of_ne hchain (hfetch hd'' hall) h.contained (by omega)

/-- The block that has the transaction comes too late, or its transactions are not known: then
nothing is recorded, unless the main loop looks past the horizon, which records a drop. -/
theorem resolutions_of_missed (hfeeds : Feeds (pre ++ .header hd :: post)) (hchain : OneBlock chain)
    (hfetch : ∀ hd' ∈ heads (pre ++ .header hd :: post), ∀ txs ∈ hd'.fetched,
      txs = chain hd'.number)
    (h : Included cfg chain pre hd post tx target)
    (hmissed : ¬(hd.fetched.isSome ∧ WithinHorizon cfg target pre)) :
    (LooksPast cfg tx target (pre ++ .header hd :: post) → ∃ rec : TxRecord,
      rec.inclusion = .dropped ∧
        resolutionsOf tx (written (run cfg (pre ++ .header hd :: post)).2) = [rec]) ∧
      (¬LooksPast cfg tx target (pre ++ .header hd :: post) →
        resolutionsOf tx (written (run cfg (pre ++ .header hd :: post)).2) = []) := by
  constructor
  · rintro ⟨pre', hd', post', hsplit, hpast, hacc⟩
    have hmissing := h.missing hfeeds hchain hfetch hmissed hsplit hpast
    have hsched := h.scheduled
    rw [hsplit] at hfeeds hsched ⊢
    exact (resolutions_of_dropped hfeeds hsched hpast hmissing).1 hacc
  · intro hno
    rcases pastHorizon_or cfg target (pre ++ .header hd :: post) with
      ⟨pre', hd', post', hsplit, hpast⟩ | hnever
    · have hmissing := h.missing hfeeds hchain hfetch hmissed hsplit hpast
      have hsched := h.scheduled
      rw [hsplit] at hfeeds hsched hno ⊢
      exact (resolutions_of_dropped hfeeds hsched hpast hmissing).2 fun hacc =>
        hno ⟨pre', hd', post', rfl, hpast, hacc⟩
    · have hwithin := withinHorizon_of_every h.processed hnever.of_append
      have hnone : hd.fetched = none := by simpa [hwithin] using hmissed
      refine resolutions_of_undecided hfeeds h.scheduled ?_
      intro pre' i post' hsplit hd' hi hrun hle
      refine decision_waits (notMem_of_unfetched hfeeds hchain hfetch (mem_heads.mpr (by simp))
        hnone h.contained (mem_heads.mpr (by simp [hsplit, hi]))) ?_
      exact hnever pre' i post' hsplit hd' hi hrun hle

end

/-! ## Every fetch succeeds -/

/-- A transaction that the node took and that is in a block in time is resolved once, as its
block has it. -/
def ResolvesIncluded (cfg : EngineConfig) (chain : ℕ → List TxHash) (is : List Input) : Prop :=
  ∀ pre hd post tx target, is = pre ++ .header hd :: post →
    Included cfg chain pre hd post tx target → Accepted tx is →
      ResolvedOnce cfg is tx (kindAt target hd.number)

/-- It is resolved iff the main loop hears that the node took it before it handles the head of
its block, and no head until then is past the horizon. -/
theorem resolvesIncluded_iff (cfg : EngineConfig) (chain : ℕ → List TxHash) (is : List Input)
    (hfeeds : Feeds is) (hchain : OneBlock chain)
    (hfetch : ∀ hd ∈ heads is, hd.fetched = some (chain hd.number)) :
    ResolvesIncluded cfg chain is ↔ ∀ pre hd post tx target, is = pre ++ .header hd :: post →
      Included cfg chain pre hd post tx target → Accepted tx is →
        Accepted tx pre ∧ WithinHorizon cfg target pre := by
  refine forall_congr' fun pre => forall_congr' fun hd => forall_congr' fun post =>
    forall_congr' fun tx => forall_congr' fun target => forall_congr' fun hsplit =>
      forall₂_congr fun h _ => ?_
  subst hsplit
  have hsome : hd.fetched.isSome := by rw [hfetch hd (mem_heads.mpr (by simp))]; rfl
  have hlists : ∀ hd' ∈ heads (pre ++ .header hd :: post), ∀ txs ∈ hd'.fetched,
      txs = chain hd'.number := fun hd' hmem txs htxs => by
    simpa [hfetch hd' hmem, eq_comm] using htxs
  by_cases hwithin : WithinHorizon cfg target pre
  · obtain ⟨hyes, hno⟩ := resolutions_of_contained hfeeds hchain hlists hsome hwithin h
    constructor
    · rintro ⟨rec, -, hrec, -⟩
      refine ⟨?_, hwithin⟩
      by_contra hacc
      rw [hno hacc] at hrec
      cases hrec
    · rintro ⟨hacc, -⟩
      obtain ⟨p, hp⟩ := hyes hacc
      refine ⟨_, rfl, hp, ?_⟩
      unfold run at hp ⊢
      rw [counted_run]
      exact hp
  · refine iff_of_false ?_ fun hboth => hwithin hboth.2
    rintro ⟨rec, hkind, hrec, -⟩
    obtain ⟨hpast, hnot⟩ := resolutions_of_missed hfeeds hchain hlists h fun hboth =>
      hwithin hboth.2
    by_cases hlook : LooksPast cfg tx target (pre ++ .header hd :: post)
    · obtain ⟨rec', hdropped, hrec'⟩ := hpast hlook
      obtain rfl : rec = rec' := List.singleton_injective (hrec.symm.trans hrec')
      exact kindAt_ne_dropped (hkind.symm.trans hdropped)
    · rw [hnot hlook] at hrec
      cases hrec

def sampleConfig : EngineConfig where
  lookahead := 2
  threshold := 3
  schedule := ⟨⟨0, 1, 1, 5⟩, Nat.le_succ 0, Nat.one_pos, Nat.succ_pos 4⟩
  routerParses := true

def sampleChain (n : ℕ) : List TxHash := if n = 2 then [7] else []

/-- Transaction 7 is signed for block 2, which has it. -/
def sampleHeader (n : ℕ) (fetched : Option (List TxHash)) : Header :=
  ⟨n, n, 1, fetched, 0, if n = 1 then [⟨"w", 7, 0⟩] else []⟩

def sampleAccepted : SendResult := ⟨"w", 7, 0, 1, 1, 0, 0, 0, 1000, 1000, 0, 0, .accepted⟩

theorem mem_sampleChain {tx : TxHash} {n : ℕ} (h : tx ∈ sampleChain n) : n = 2 ∧ tx = 7 := by
  unfold sampleChain at h
  split at h
  · exact ⟨by assumption, List.mem_singleton.mp h⟩
  · cases h

theorem oneBlock_sampleChain : OneBlock sampleChain := fun _ _ _ h h' =>
  (mem_sampleChain h).1.trans (mem_sampleChain h').1.symm

/-- The node takes the transaction before the head of its block comes. -/
def heardInTime : List Input :=
  [.header (sampleHeader 1 (some [])), .sendResult sampleAccepted,
    .header (sampleHeader 2 (some [7]))]

/-- The head of its block comes first. -/
def heardLate : List Input :=
  [.header (sampleHeader 1 (some [])), .header (sampleHeader 2 (some [7])),
    .sendResult sampleAccepted]

/-- Up to block 2 no head is past the horizon of a target. -/
theorem withinHorizon_sample {is : List Input} (h : ∀ hd ∈ heads is, hd.number ≤ 2) (target : ℕ) :
    WithinHorizon sampleConfig target is := by
  intro hd hmem hle
  have hlast := h hd hmem
  have hhorizon : horizon sampleConfig target = target + 2 := Nat.mod_eq_of_lt (by
    change target + 2 < 2 ^ 64
    omega)
  rw [hhorizon]
  omega

theorem feeds_heardInTime : Feeds heardInTime := by
  refine ⟨by decide, by decide, by decide, ?_⟩
  rw [EverySplit.iff_forall_take]
  decide

theorem resolvesIncluded_iff_heardInTime :
    ResolvesIncluded sampleConfig sampleChain heardInTime := by
  refine (resolvesIncluded_iff sampleConfig sampleChain heardInTime feeds_heardInTime
    oneBlock_sampleChain (by decide)).mpr ?_
  intro pre hd post tx target hsplit h _
  have hlast : ∀ hd ∈ heads heardInTime, hd.number ≤ 2 := by decide
  have hwithin : WithinHorizon sampleConfig target pre := by
    refine withinHorizon_sample (fun hd' hmem => hlast hd' ?_) target
    rw [hsplit, heads_append]
    exact List.mem_append_left _ hmem
  rcases pre with _ | ⟨a, _ | ⟨b, pre⟩⟩
  · obtain ⟨rfl, -⟩ : sampleHeader 1 (some []) = hd ∧ _ := by simpa [heardInTime] using hsplit
    exact absurd (mem_sampleChain h.contained).1 (by decide)
  · simp [heardInTime] at hsplit
  · obtain ⟨-, rfl, -⟩ : _ = a ∧ .sendResult sampleAccepted = b ∧ _ := by
      simpa [heardInTime] using hsplit
    exact ⟨⟨sampleAccepted, by simp, (mem_sampleChain h.contained).2.symm, rfl⟩, hwithin⟩

theorem head_before_result_unresolved : ¬∀ (cfg : EngineConfig) (chain : ℕ → List TxHash)
    (is : List Input), Feeds is → OneBlock chain →
      (heads is).IsChain (fun a b => b.number = a.number + 1) →
      (∀ hd ∈ heads is, hd.fetched = some (chain hd.number)) →
        ResolvesIncluded cfg chain is := by
  intro h
  have hfeeds : Feeds heardLate := by
    refine ⟨by decide, by decide, by decide, ?_⟩
    rw [EverySplit.iff_forall_take]
    decide
  have hscheduled : Scheduled sampleConfig 7 2 heardLate :=
    ⟨[], _, _, rfl, ⟨rfl, by decide, by decide⟩, _, rfl, rfl, by decide⟩
  have hincluded : Included sampleConfig sampleChain [.header (sampleHeader 1 (some []))]
      (sampleHeader 2 (some [7])) [.sendResult sampleAccepted] 7 2 :=
    ⟨by decide, hscheduled, by decide, by decide, by decide⟩
  obtain ⟨rec, -, hrec, -⟩ := h sampleConfig sampleChain heardLate hfeeds oneBlock_sampleChain
    (by decide) (by decide) _ _ _ 7 2 rfl hincluded ⟨sampleAccepted, by decide, rfl, rfl⟩
  have hnone : resolutionsOf 7 (written (run sampleConfig heardLate).2) = [] := by decide
  rw [hnone] at hrec
  cases hrec

/-! ## Fetches that fail -/

/-- What is recorded of a transaction that is in a block in time is what its block says. -/
def FaithfulVerdicts (cfg : EngineConfig) (chain : ℕ → List TxHash) (is : List Input) : Prop :=
  ∀ pre hd post tx target, is = pre ++ .header hd :: post →
    Included cfg chain pre hd post tx target →
      ∀ rec ∈ resolutionsOf tx (written (run cfg is).2), rec.inclusion = kindAt target hd.number

/-- The verdicts are faithful iff of each block with such a transaction the fetch succeeds and no
head before it is past the horizon, or the main loop does not look past the horizon of the
transaction. -/
theorem faithfulVerdicts_iff (cfg : EngineConfig) (chain : ℕ → List TxHash) (is : List Input)
    (hfeeds : Feeds is) (hchain : OneBlock chain)
    (hfetch : ∀ hd ∈ heads is, ∀ txs ∈ hd.fetched, txs = chain hd.number) :
    FaithfulVerdicts cfg chain is ↔ ∀ pre hd post tx target, is = pre ++ .header hd :: post →
      Included cfg chain pre hd post tx target →
        (hd.fetched.isSome ∧ WithinHorizon cfg target pre) ∨ ¬LooksPast cfg tx target is := by
  refine forall_congr' fun pre => forall_congr' fun hd => forall_congr' fun post =>
    forall_congr' fun tx => forall_congr' fun target => forall₂_congr fun hsplit h => ?_
  subst hsplit
  by_cases hknown : hd.fetched.isSome ∧ WithinHorizon cfg target pre
  · refine iff_of_true ?_ (Or.inl hknown)
    obtain ⟨hyes, hno⟩ := resolutions_of_contained hfeeds hchain hfetch hknown.1 hknown.2 h
    intro rec hrec
    by_cases hacc : Accepted tx pre
    · obtain ⟨p, hp⟩ := hyes hacc
      rw [hp, List.mem_singleton] at hrec
      rw [hrec]
      rfl
    · simp [hno hacc] at hrec
  · obtain ⟨hpast, hnot⟩ := resolutions_of_missed hfeeds hchain hfetch h hknown
    rw [or_iff_right hknown]
    constructor
    · intro hall hlook
      obtain ⟨rec, hrec, hrecs⟩ := hpast hlook
      exact kindAt_ne_dropped ((hall rec (by simp [hrecs])).symm.trans hrec)
    · intro hlook rec hrec
      simp [hnot hlook] at hrec

/-- The fetch of the block fails, and no later head comes. -/
def unfetched : List Input :=
  [.header (sampleHeader 1 (some [])), .sendResult sampleAccepted, .header (sampleHeader 2 none)]

theorem faithfulVerdicts_iff_unfetched : FaithfulVerdicts sampleConfig sampleChain unfetched := by
  have hfeeds : Feeds unfetched := by
    refine ⟨by decide, by decide, by decide, ?_⟩
    rw [EverySplit.iff_forall_take]
    decide
  refine (faithfulVerdicts_iff sampleConfig sampleChain unfetched hfeeds oneBlock_sampleChain
    (by decide)).mpr ?_
  rintro pre hd post tx target - -
  refine Or.inr ?_
  rintro ⟨pre', hd', post', hsplit, hpast, -⟩
  have hwithin := withinHorizon_sample (by decide : ∀ hd ∈ heads unfetched, hd.number ≤ 2) target
  have hle := hwithin hd' (mem_heads.mpr (by simp [hsplit])) hpast.after
  exact absurd hpast.past (Nat.not_lt.mpr hle)

/-- The head of block 5 looks past the horizon. -/
def unfetchedPast : List Input :=
  [.header (sampleHeader 1 (some [])), .sendResult sampleAccepted, .header (sampleHeader 2 none),
    .header (sampleHeader 3 (some [])), .header (sampleHeader 4 (some [])),
    .header (sampleHeader 5 (some []))]

theorem failed_fetch_fakes_drop : ¬∀ (cfg : EngineConfig) (chain : ℕ → List TxHash)
    (is : List Input), Feeds is → OneBlock chain →
      (∀ hd ∈ heads is, ∀ txs ∈ hd.fetched, txs = chain hd.number) →
        FaithfulVerdicts cfg chain is := by
  intro h
  have hfeeds : Feeds unfetchedPast := by
    refine ⟨by decide, by decide, by decide, ?_⟩
    rw [EverySplit.iff_forall_take]
    decide
  have hincluded : Included sampleConfig sampleChain
      [.header (sampleHeader 1 (some [])), .sendResult sampleAccepted] (sampleHeader 2 none)
      [.header (sampleHeader 3 (some [])), .header (sampleHeader 4 (some [])),
        .header (sampleHeader 5 (some []))] 7 2 :=
    ⟨by decide, ⟨[], _, _, rfl, ⟨rfl, by decide, by decide⟩, _, rfl, rfl, by decide⟩, by decide,
      by decide, by decide⟩
  have hdropped := h sampleConfig sampleChain unfetchedPast hfeeds oneBlock_sampleChain (by decide)
    _ _ _ 7 2 rfl hincluded (sampleAccepted.partialRecord.intoTxRecord .dropped none) (by decide)
  exact absurd hdropped (by decide)

end SolanaBench.TxCutoff
