import SolanaBench.FanOut.StatusQueues

/-! The RPC fallback of the tick trigger bench, which drains its queue in batches before
it asks for their statuses, beside the two queues of the fan-out bench. -/
namespace SolanaBench.TickTriggerBench.RpcFallback

open FanOut.StatusQueues (TransactionConfirmationStatus)

/-- The fields of the RPC answer that are read. -/
structure TransactionStatus where
  confirmations : Option ℕ
  confirmationStatus : Option TransactionConfirmationStatus
  deriving DecidableEq, Repr

/-- `"MISSING_FROM_STREAM"` and `"TRULY_MISSING"`. -/
inductive AnnotationStatus
  | missingFromStream | trulyMissing
  deriving DecidableEq, Repr

structure Annotation where
  sig : Signature
  rpcLanded : Bool
  status : AnnotationStatus
  deriving DecidableEq, Repr

inductive Counter
  | rpcFallbackError
  deriving DecidableEq, Repr

abbrev Output := Effect Counter Annotation

structure RpcFallbackConfig where
  batchSize : ℕ
  /-- Whether the annotations file could be opened; without it no line is written. -/
  annotations : Bool

structure FallbackQueue where
  inner : List Signature := []
  deriving DecidableEq, Repr

def FallbackQueue.push (q : FallbackQueue) (sig : Signature) : FallbackQueue := ⟨q.inner ++ [sig]⟩

def FallbackQueue.drainUpTo (q : FallbackQueue) (n : ℕ) : List Signature × FallbackQueue :=
  let take := min q.inner.length n
  (q.inner.take take, ⟨q.inner.drop take⟩)

def annotate (sig : Signature) (status : Option TransactionStatus) : Annotation :=
  let landed := (status.map fun s => s.confirmations.isNone || s.confirmationStatus.isSome).getD false
  { sig
    rpcLanded := landed
    status := if landed then .missingFromStream else .trulyMissing }

/-- The finalizer pushes a signature, or the inner loop goes round once, with the answer to
its request or `none` when it fails. -/
inductive Input
  | push (sig : Signature)
  | drain (reply : Option (List (Option TransactionStatus)))

/-- The batch has left the queue whatever becomes of the request. -/
def drain (cfg : RpcFallbackConfig) (q : FallbackQueue)
    (reply : Option (List (Option TransactionStatus))) : FallbackQueue × List Output :=
  let batch := q.drainUpTo cfg.batchSize
  if batch.1.isEmpty then (batch.2, [])
  else
    match reply with
    | some statuses =>
      (batch.2, (batch.1.zip statuses).flatMap fun e =>
        if cfg.annotations then [.send (annotate e.1 e.2)] else [])
    | none => (batch.2, [.fetchAdd .rpcFallbackError 1])

def machine (cfg : RpcFallbackConfig) : EventMachine FallbackQueue Input Output where
  step q
    | .push sig => (q.push sig, [])
    | .drain reply => drain cfg q reply

/-! ## What becomes of a signature -/

def given : Input → List Signature
  | .push sig => [sig]
  | .drain _ => []

/-- The line is that of the signature for the status at its own place in the answer. -/
def OwnLine (cfg : RpcFallbackConfig) (q : FallbackQueue)
    (reply : Option (List (Option TransactionStatus))) (sig : Signature) (line : Annotation) : Prop :=
  ∃ (statuses : List _) (k : ℕ) (status : _), reply = some statuses ∧ (q.drainUpTo cfg.batchSize).1[k]? = some sig ∧
    statuses[k]? = some status ∧ line = annotate sig status

/-- At every boundary each signature pushed is still queued or has had one line of its own. -/
def LosesNothing (cfg : RpcFallbackConfig) (is : List Input) : Prop :=
  Throughout (fun pre => ∃ closed : List (Signature × Annotation),
    let r := (machine cfg).run {} pre
    (pre.flatMap given).Perm (r.1.inner ++ closed.map Prod.fst) ∧
      Effect.sent r.2 = closed.map Prod.snd ∧
        ∀ c ∈ closed, ∃ before reply after, pre = before ++ .drain reply :: after ∧
          OwnLine cfg ((machine cfg).run {} before).1 reply c.1 c.2) is

/-- A batch that is not empty is answered in full, and the answers can be written down. -/
def AnswersAll (cfg : RpcFallbackConfig) (q : FallbackQueue) : Input → Prop
  | .push _ => True
  | .drain reply => (q.drainUpTo cfg.batchSize).1 = [] ∨
      cfg.annotations = true ∧ ∃ statuses, reply = some statuses ∧
        (q.drainUpTo cfg.batchSize).1.length ≤ statuses.length

/-- The signatures that a step annotates. -/
def closed (cfg : RpcFallbackConfig) (q : FallbackQueue) : Input → List (Signature × Annotation)
  | .push _ => []
  | .drain reply =>
    if cfg.annotations then
      ((q.drainUpTo cfg.batchSize).1.zip (reply.getD [])).map fun e => (e.1, annotate e.1 e.2)
    else []

/-- The signatures that a step takes out of the queue for nothing. -/
def lost (cfg : RpcFallbackConfig) (q : FallbackQueue) : Input → List Signature
  | .push _ => []
  | .drain reply =>
    if cfg.annotations then (q.drainUpTo cfg.batchSize).1.drop (reply.getD []).length
    else (q.drainUpTo cfg.batchSize).1

section Custody

variable (cfg : RpcFallbackConfig) (q : FallbackQueue)
  (reply : Option (List (Option TransactionStatus)))

theorem drain_inner : (drain cfg q reply).1 = (q.drainUpTo cfg.batchSize).2 := by
  unfold drain
  dsimp only
  split
  · rfl
  · cases reply <;> rfl

/-- The lines of a step are those of the signatures it annotates. -/
theorem drain_sent : Effect.sent (drain cfg q reply).2 =
    (closed cfg q (.drain reply)).map Prod.snd := by
  have hlines (l : List (Signature × Option TransactionStatus)) :
      Effect.sent (l.flatMap fun e =>
          if cfg.annotations then [.send (annotate e.1 e.2)] else ([] : List Output)) =
        (if cfg.annotations then l.map fun e => (e.1, annotate e.1 e.2) else []).map Prod.snd := by
    induction l with
    | nil => cases cfg.annotations <;> rfl
    | cons e l ih =>
      rw [List.flatMap_cons, Effect.sent_append, ih]
      cases cfg.annotations <;> rfl
  unfold drain closed
  dsimp only
  cases hbatch : (q.drainUpTo cfg.batchSize).1 with
  | nil => cases cfg.annotations <;> rfl
  | cons sig rest =>
    cases reply with
    | none => cases cfg.annotations <;> rfl
    | some statuses => exact hlines _

/-- A batch is annotated or lost, and the rest stays queued. -/
theorem drain_perm : q.inner.Perm ((drain cfg q reply).1.inner ++
    ((closed cfg q (.drain reply)).map Prod.fst ++ lost cfg q (.drain reply))) := by
  have hqueue := queue_eq_answered q.inner (min q.inner.length cfg.batchSize) (reply.getD [])
  rw [drain_inner]
  unfold closed lost FallbackQueue.drainUpTo
  dsimp only
  cases cfg.annotations with
  | false =>
    have hsplit := List.take_append_drop (min q.inner.length cfg.batchSize) q.inner
    have hcomm : (q.inner.take (min q.inner.length cfg.batchSize) ++
        q.inner.drop (min q.inner.length cfg.batchSize)).Perm
          (q.inner.drop (min q.inner.length cfg.batchSize) ++
            q.inner.take (min q.inner.length cfg.batchSize)) := List.perm_append_comm
    simpa [hsplit] using hcomm
  | true =>
    have hfst : (((q.inner.take (min q.inner.length cfg.batchSize)).zip (reply.getD [])).map
        fun e => (e.1, annotate e.1 e.2)).map Prod.fst =
          ((q.inner.take (min q.inner.length cfg.batchSize)).zip (reply.getD [])).map Prod.fst := by
      rw [List.map_map]
      rfl
    rw [if_pos rfl, if_pos rfl, hfst]
    exact (List.Perm.of_eq hqueue).trans List.perm_append_comm

def custody : Custody (machine cfg) Signature Annotation where
  given := given
  held := FallbackQueue.inner
  lines := Effect.sent
  closed := closed cfg
  lost := lost cfg
  lines_nil := rfl
  lines_append := Effect.sent_append
  step q i := by
    cases i with
    | push sig => simp [machine, given, closed, lost, FallbackQueue.push]
    | drain reply =>
      have hnone : q.inner ++ given (.drain reply) = q.inner := List.append_nil q.inner
      rw [hnone]
      exact drain_perm cfg q reply
  written q i := by
    cases i with
    | push sig => rfl
    | drain reply => exact drain_sent cfg q reply

variable {cfg q}

theorem ownLine_of_closed {i : Input} {c : Signature × Annotation} (h : c ∈ closed cfg q i) :
    ∃ reply, i = .drain reply ∧ OwnLine cfg q reply c.1 c.2 := by
  cases i with
  | push sig => cases h
  | drain reply =>
    refine ⟨reply, rfl, ?_⟩
    unfold closed at h
    dsimp only at h
    split at h
    · obtain ⟨e, he, rfl⟩ := List.mem_map.mp h
      cases reply with
      | none => simp at he
      | some statuses =>
        obtain ⟨k, hk⟩ := List.mem_iff_getElem?.mp he
        obtain ⟨hsig, hstatus⟩ := List.getElem?_zip_eq_some.mp hk
        exact ⟨statuses, k, e.2, rfl, hsig, hstatus, rfl⟩
    · cases h

theorem lost_eq_nil_iff (i : Input) : lost cfg q i = [] ↔ AnswersAll cfg q i := by
  cases i with
  | push sig => exact iff_of_true rfl trivial
  | drain reply =>
    unfold lost AnswersAll
    dsimp only
    cases cfg.annotations with
    | false => simp
    | true =>
      rw [if_pos rfl, List.drop_eq_nil_iff]
      cases reply with
      | none => simp
      | some statuses =>
        simp only [Option.getD_some, true_and, Option.some.injEq, exists_eq_left']
        refine ⟨Or.inr, fun h => h.elim (fun hnil => ?_) id⟩
        rw [hnil]
        exact Nat.zero_le _

/-- The queue loses nothing over a run iff every batch is answered in full and annotated. -/
theorem losesNothing_run_iff (cfg : RpcFallbackConfig) (is : List Input) :
    LosesNothing cfg is ↔ (machine cfg).Along (AnswersAll cfg) {} is := by
  have hlost : (machine cfg).Along (fun q i => lost cfg q i = []) {} is ↔
      (machine cfg).Along (AnswersAll cfg) {} is := by
    unfold EventMachine.Along
    simp only [lost_eq_nil_iff]
  constructor
  · intro h
    obtain ⟨closed, hperm, hlines, -⟩ := h.last
    exact hlost.mp ((custody cfg).along_of_perm rfl hperm hlines)
  · intro h pre hpre
    have hkeeps := ((custody cfg).throughout_keepsAll_iff rfl).mpr (hlost.mpr h)
    obtain ⟨closed, hperm, hlines, hown⟩ := hkeeps pre hpre
    refine ⟨closed, hperm, hlines, fun c hc => ?_⟩
    obtain ⟨before, i, after, rfl, hclosed⟩ := hown c hc
    obtain ⟨reply, rfl, hline⟩ := ownLine_of_closed hclosed
    exact ⟨before, reply, after, rfl, hline⟩

end Custody

/-! ## The three queues -/

open FanOut FanOut.StatusQueues in
/-- The queues of the fan-out bench lose nothing iff no answer is short, whatever requests fail.
That of the tick trigger bench loses a batch whose request fails as well. -/
theorem statusQueues_iff (anchor : Instant) (maxAgeSecs : ℕ) (cfg : RpcFallbackConfig)
    (finality fallback : List StatusQueues.Input) (is : List Input) :
    (FinalityTracker.worker.LosesNothing anchor finality ↔
        (FinalityTracker.worker.machine anchor).Along Worker.AnswersAll {} finality) ∧
      ((StatusQueues.RpcFallback.worker maxAgeSecs).LosesNothing anchor fallback ↔
        ((StatusQueues.RpcFallback.worker maxAgeSecs).machine anchor).Along Worker.AnswersAll {}
          fallback) ∧
      (LosesNothing cfg is ↔ (machine cfg).Along (AnswersAll cfg) {} is) :=
  ⟨FinalityTracker.worker.losesNothing_run_iff anchor finality,
    (StatusQueues.RpcFallback.worker maxAgeSecs).losesNothing_run_iff anchor fallback,
    losesNothing_run_iff cfg is⟩

/-- One entry, and an answer without a place for it. -/
def shortRun : List FanOut.StatusQueues.Input :=
  [.enqueue ⟨1, 0, 11, 0⟩, .iterate ⟨some [], 5, fun _ => 5⟩]

/-- One signature, and a request that fails. -/
def failedRun : List Input := [.push 11, .drain none]

open FanOut FanOut.StatusQueues in
theorem statusQueues_lose :
    ¬FinalityTracker.worker.LosesNothing 0 shortRun ∧
      ¬(StatusQueues.RpcFallback.worker 60).LosesNothing 0 shortRun ∧
        ¬LosesNothing ⟨100, true⟩ failedRun := by
  have hshort {υ κ : Type} (w : Worker υ κ) : ¬w.LosesNothing 0 shortRun := by
    intro h
    have hlen := (w.losesNothing_run_iff 0 shortRun).mp h [.enqueue ⟨1, 0, 11, 0⟩] _ [] rfl [] rfl
    exact absurd hlen (Nat.not_le_of_lt Nat.zero_lt_one)
  refine ⟨hshort _, hshort _, fun h => ?_⟩
  rcases (losesNothing_run_iff _ failedRun).mp h [.push 11] _ [] rfl with hnil | ⟨-, statuses, hs, -⟩
  · cases hnil
  · cases hs

end SolanaBench.TickTriggerBench.RpcFallback
