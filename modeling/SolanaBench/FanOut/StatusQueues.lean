import SolanaBench.FanOut.Matcher
import SolanaBench.Lib.Custody

/-! The finality tracker and the RPC fallback: two workers that ask for the statuses of
what is pending in batches of at most a hundred, take the answers by position, and
write a line for each entry that is decided. -/
namespace SolanaBench.FanOut.StatusQueues

open Matcher (FinalityQueueEntry)

inductive TransactionConfirmationStatus
  | processed | confirmed | finalized
  deriving DecidableEq, Repr

/-- The fields of the RPC answer that are read. -/
structure TransactionStatus where
  slot : ℕ
  confirmationStatus : Option TransactionConfirmationStatus
  deriving DecidableEq, Repr

inductive FinalStatus
  | confirmed | uncertainNoStatus
  deriving DecidableEq, Repr

/-- One iteration of a loop: the answer to the request, `none` when it fails, and the
clock as it is read after it and at the entries of the batch. -/
structure Poll where
  reply : Option (List (Option TransactionStatus))
  checkedAt : Instant
  clock : ℕ → Instant

/-- An entry arrives on the channel, or the loop goes round once. -/
inductive Input
  | enqueue (entry : FinalityQueueEntry)
  | iterate (poll : Poll)

structure State where
  channel : List FinalityQueueEntry := []
  pending : List FinalityQueueEntry := []
  deriving DecidableEq, Repr

/-- What the two loops differ in: which entries are decided, the line and the counter of
one, and the counters of a request that fails. -/
structure Worker (υ κ : Type) where
  finalStatus : Option TransactionStatus → Duration → Option FinalStatus
  update : FinalityQueueEntry → Option TransactionStatus → FinalStatus → ℕ → υ
  counter : FinalStatus → κ
  onError : List κ

namespace Worker

variable {υ κ : Type} (w : Worker υ κ) (anchor : Instant)

/-- The decision on an entry, by the age it has when the loop comes to it. -/
def decide (poll : Poll) (k : ℕ) (entry : FinalityQueueEntry)
    (statusOpt : Option TransactionStatus) : Option FinalStatus :=
  w.finalStatus statusOpt (Instant.saturatingDurationSince (poll.clock k) entry.queuedAt)

def nowNs (poll : Poll) : ℕ := Instant.saturatingDurationSince poll.checkedAt anchor % 2 ^ 64

/-- The loop over the batch and its answers from place `k` on: the entries still pending,
and the lines and counts of the others. -/
def serve (poll : Poll) : ℕ → List (FinalityQueueEntry × Option TransactionStatus) →
    List FinalityQueueEntry × List (Effect κ υ)
  | _, [] => ([], [])
  | k, (entry, statusOpt) :: rest =>
    let r := serve poll (k + 1) rest
    match w.decide poll k entry statusOpt with
    | some fs =>
      (r.1, .send (w.update entry statusOpt fs (nowNs anchor poll)) ::
        .fetchAdd (w.counter fs) 1 :: r.2)
    | none => (entry :: r.1, r.2)

/-- One iteration. The whole batch is drained when an answer comes, however long it is. -/
def iterate (st : State) (poll : Poll) : State × List (Effect κ υ) :=
  let pending := st.pending ++ st.channel
  if pending.isEmpty then ({ channel := [], pending := pending }, [])
  else
    let chunkSize := min pending.length 100
    match poll.reply with
    | some statuses =>
      let r := w.serve anchor poll 0 ((pending.take chunkSize).zip statuses)
      ({ channel := [], pending := pending.drop chunkSize ++ r.1 }, r.2)
    | none => ({ channel := [], pending := pending }, w.onError.map fun c => .fetchAdd c 1)

def machine : EventMachine State Input (Effect κ υ) where
  step st
    | .enqueue entry => ({ st with channel := st.channel ++ [entry] }, [])
    | .iterate poll => w.iterate anchor st poll

theorem machine_iterate (st : State) (poll : Poll) :
    (w.machine anchor).step st (.iterate poll) = w.iterate anchor st poll := rfl

/-! ## What becomes of an entry -/

/-- What one iteration asks for. -/
def batch (st : State) : List FinalityQueueEntry :=
  (st.pending ++ st.channel).take (min (st.pending ++ st.channel).length 100)

def given : Input → List FinalityQueueEntry
  | .enqueue entry => [entry]
  | .iterate _ => []

/-- The line is that of the entry for the status at its own place in the answer. -/
def OwnLine (st : State) (poll : Poll) (entry : FinalityQueueEntry) (line : υ) : Prop :=
  ∃ statuses k statusOpt fs, poll.reply = some statuses ∧ (batch st)[k]? = some entry ∧
    statuses[k]? = some statusOpt ∧ w.decide poll k entry statusOpt = some fs ∧
      line = w.update entry statusOpt fs (nowNs anchor poll)

/-- At every boundary each entry enqueued is still queued or has had one line of its own. -/
def LosesNothing (is : List Input) : Prop :=
  Throughout (fun pre => ∃ closed : List (FinalityQueueEntry × υ),
    let r := (w.machine anchor).run {} pre
    (pre.flatMap given).Perm (r.1.pending ++ r.1.channel ++ closed.map Prod.fst) ∧
      Effect.sent r.2 = closed.map Prod.snd ∧
        ∀ c ∈ closed, ∃ before poll after, pre = before ++ .iterate poll :: after ∧
          w.OwnLine anchor ((w.machine anchor).run {} before).1 poll c.1 c.2) is

/-- An answer, if there is one, has a place for every entry of the batch. -/
def AnswersAll (st : State) : Input → Prop
  | .enqueue _ => True
  | .iterate poll => ∀ statuses, poll.reply = some statuses →
      (batch st).length ≤ statuses.length

/-- The entries decided by the loop, each with its line. -/
def closing (poll : Poll) : ℕ → List (FinalityQueueEntry × Option TransactionStatus) →
    List (FinalityQueueEntry × υ)
  | _, [] => []
  | k, (entry, statusOpt) :: rest =>
    match w.decide poll k entry statusOpt with
    | some fs => (entry, w.update entry statusOpt fs (nowNs anchor poll)) ::
        closing poll (k + 1) rest
    | none => closing poll (k + 1) rest

variable (poll : Poll) (k : ℕ) (l : List (FinalityQueueEntry × Option TransactionStatus))

/-- The loop keeps an entry or closes it. -/
theorem serve_perm : (l.map Prod.fst).Perm
    ((w.serve anchor poll k l).1 ++ (w.closing anchor poll k l).map Prod.fst) := by
  induction l generalizing k with
  | nil => exact List.Perm.nil
  | cons e rest ih =>
    obtain ⟨entry, statusOpt⟩ := e
    have hrest := ih (k + 1)
    unfold serve closing
    cases w.decide poll k entry statusOpt with
    | some fs => exact (hrest.cons entry).trans List.perm_middle.symm
    | none => exact hrest.cons entry

theorem serve_sent : Effect.sent (w.serve anchor poll k l).2 =
    (w.closing anchor poll k l).map Prod.snd := by
  induction l generalizing k with
  | nil => rfl
  | cons e rest ih =>
    obtain ⟨entry, statusOpt⟩ := e
    unfold serve closing
    cases w.decide poll k entry statusOpt with
    | some fs => simp [ih]
    | none => exact ih (k + 1)

theorem of_mem_closing {c : FinalityQueueEntry × υ} (h : c ∈ w.closing anchor poll k l) :
    ∃ j statusOpt fs, l[j]? = some (c.1, statusOpt) ∧
      w.decide poll (k + j) c.1 statusOpt = some fs ∧
        c.2 = w.update c.1 statusOpt fs (nowNs anchor poll) := by
  induction l generalizing k with
  | nil => cases h
  | cons e rest ih =>
    obtain ⟨entry, statusOpt⟩ := e
    have hrest (hc : c ∈ w.closing anchor poll (k + 1) rest) : ∃ j statusOpt' fs,
        ((entry, statusOpt) :: rest)[j]? = some (c.1, statusOpt') ∧
          w.decide poll (k + j) c.1 statusOpt' = some fs ∧
            c.2 = w.update c.1 statusOpt' fs (nowNs anchor poll) := by
      obtain ⟨j, statusOpt', fs, hj, hfs, hline⟩ := ih (k + 1) hc
      exact ⟨j + 1, statusOpt', fs, hj, by rwa [show k + (j + 1) = k + 1 + j by omega], hline⟩
    unfold closing at h
    cases hd : w.decide poll k entry statusOpt with
    | none =>
      rw [hd] at h
      exact hrest h
    | some fs =>
      rw [hd] at h
      rcases List.mem_cons.mp h with rfl | h
      · exact ⟨0, statusOpt, fs, rfl, hd, rfl⟩
      · exact hrest h

/-- The entries that a step closes. -/
def closed (st : State) : Input → List (FinalityQueueEntry × υ)
  | .enqueue _ => []
  | .iterate poll => w.closing anchor poll 0 ((batch st).zip (poll.reply.getD []))

/-- The entries of a batch past the end of its answer. -/
def lost (st : State) : Input → List FinalityQueueEntry
  | .enqueue _ => []
  | .iterate poll => (poll.reply.map fun statuses => (batch st).drop statuses.length).getD []

theorem closed_answered (st : State) {statuses : List (Option TransactionStatus)}
    (h : poll.reply = some statuses) : w.closed anchor st (.iterate poll) =
      w.closing anchor poll 0 ((batch st).zip statuses) := by
  simp [closed, h]

theorem closed_failed (st : State) (h : poll.reply = none) :
    w.closed anchor st (.iterate poll) = [] := by
  simp [closed, closing, h]

theorem lost_answered {poll : Poll} (st : State) {statuses : List (Option TransactionStatus)}
    (h : poll.reply = some statuses) : lost st (.iterate poll) = (batch st).drop statuses.length := by
  simp [lost, h]

theorem lost_failed {poll : Poll} (st : State) (h : poll.reply = none) :
    lost st (.iterate poll) = [] := by
  simp [lost, h]

theorem iterate_answered (st : State) {statuses : List (Option TransactionStatus)}
    (h : poll.reply = some statuses) :
    let r := w.iterate anchor st poll
    r.1.pending ++ r.1.channel =
        (st.pending ++ st.channel).drop (min (st.pending ++ st.channel).length 100) ++
          (w.serve anchor poll 0 ((batch st).zip statuses)).1 ∧
      Effect.sent r.2 = Effect.sent (w.serve anchor poll 0 ((batch st).zip statuses)).2 := by
  unfold iterate batch
  cases hp : st.pending ++ st.channel with
  | nil => exact ⟨rfl, rfl⟩
  | cons entry rest => simp [h]

/-- A failed request leaves the queue as it was. -/
theorem iterate_failed (st : State) (h : poll.reply = none) :
    let r := w.iterate anchor st poll
    r.1.pending ++ r.1.channel = st.pending ++ st.channel ∧ Effect.sent r.2 = [] := by
  have hcounts : Effect.sent (w.onError.map fun c => (.fetchAdd c 1 : Effect κ υ)) = [] := by
    induction w.onError with
    | nil => rfl
    | cons c cs ih => exact ih
  unfold iterate
  cases hp : st.pending ++ st.channel with
  | nil => exact ⟨rfl, rfl⟩
  | cons entry rest => simp [h, hcounts]

def custody : Custody (w.machine anchor) FinalityQueueEntry υ where
  given := given
  held st := st.pending ++ st.channel
  lines := Effect.sent
  closed := w.closed anchor
  lost := lost
  lines_nil := rfl
  lines_append := Effect.sent_append
  step st i := by
    cases i with
    | enqueue entry => simp [machine, given, closed, lost]
    | iterate poll =>
      rw [machine_iterate]
      cases hreply : poll.reply with
      | none =>
        rw [w.closed_failed anchor poll st hreply, lost_failed st hreply,
          (w.iterate_failed anchor poll st hreply).1]
        simp [given]
      | some statuses =>
        have hserve := w.serve_perm anchor poll 0 ((batch st).zip statuses)
        have hqueue := queue_eq_answered (st.pending ++ st.channel)
          (min (st.pending ++ st.channel).length 100) statuses
        rw [w.closed_answered anchor poll st hreply, lost_answered st hreply,
          (w.iterate_answered anchor poll st hreply).1]
        refine List.perm_iff_count.mpr fun entry => ?_
        have hcount := List.perm_iff_count.mp hserve entry
        have hsplit := congrArg (List.count entry) hqueue
        unfold batch given at *
        simp only [List.count_append, List.append_nil] at hcount hsplit ⊢
        omega
  written st i := by
    cases i with
    | enqueue entry => rfl
    | iterate poll =>
      rw [machine_iterate]
      cases hreply : poll.reply with
      | none =>
        rw [w.closed_failed anchor poll st hreply, (w.iterate_failed anchor poll st hreply).2]
        rfl
      | some statuses =>
        rw [w.closed_answered anchor poll st hreply, (w.iterate_answered anchor poll st hreply).2,
          w.serve_sent]

/-- A line of a step is one of the entry's own. -/
theorem ownLine_of_closed {st : State} {i : Input} {c : FinalityQueueEntry × υ}
    (h : c ∈ w.closed anchor st i) :
    ∃ poll, i = .iterate poll ∧ w.OwnLine anchor st poll c.1 c.2 := by
  cases i with
  | enqueue entry => cases h
  | iterate poll =>
    refine ⟨poll, rfl, ?_⟩
    cases hreply : poll.reply with
    | none =>
      rw [w.closed_failed anchor poll st hreply] at h
      cases h
    | some statuses =>
      rw [w.closed_answered anchor poll st hreply] at h
      obtain ⟨k, statusOpt, fs, hk, hfs, hline⟩ := w.of_mem_closing anchor poll 0 _ h
      obtain ⟨hentry, hstatus⟩ := List.getElem?_zip_eq_some.mp hk
      rw [Nat.zero_add] at hfs
      exact ⟨statuses, k, statusOpt, fs, hreply, hentry, hstatus, hfs, hline⟩

theorem lost_eq_nil_iff (st : State) (i : Input) : lost st i = [] ↔ AnswersAll st i := by
  cases i with
  | enqueue entry => exact iff_of_true rfl trivial
  | iterate poll =>
    unfold AnswersAll
    cases hreply : poll.reply with
    | none =>
      rw [lost_failed st hreply]
      simp [hreply]
    | some statuses =>
      rw [lost_answered st hreply, List.drop_eq_nil_iff]
      simp [hreply]

/-- The queue loses nothing over a run iff no answer of the run is short. -/
theorem losesNothing_run_iff (is : List Input) :
    w.LosesNothing anchor is ↔ (w.machine anchor).Along AnswersAll {} is := by
  have hlost : (w.machine anchor).Along (fun st i => lost st i = []) {} is ↔
      (w.machine anchor).Along AnswersAll {} is := by
    unfold EventMachine.Along
    simp only [lost_eq_nil_iff]
  constructor
  · intro h
    obtain ⟨closed, hperm, hlines, -⟩ := h.last
    exact hlost.mp ((w.custody anchor).along_of_perm rfl hperm hlines)
  · intro h pre hpre
    have hkeeps := ((w.custody anchor).throughout_keepsAll_iff rfl).mpr (hlost.mpr h)
    obtain ⟨closed, hperm, hlines, hown⟩ := hkeeps pre hpre
    refine ⟨closed, hperm, hlines, fun c hc => ?_⟩
    obtain ⟨before, i, after, rfl, hclosed⟩ := hown c hc
    obtain ⟨poll, rfl, hline⟩ := w.ownLine_of_closed anchor hclosed
    exact ⟨before, poll, after, rfl, hline⟩

end Worker

/-! ## The two workers -/

namespace FinalityTracker

structure FinalityUpdate where
  triggerId : TriggerId
  senderId : ℕ
  txSignature : Signature
  finalStatus : FinalStatus
  finalizationSlot : Option ℕ
  finalizationCheckedAtNs : ℕ
  deriving DecidableEq, Repr

inductive Counter
  | finalityConfirmed | finalityUncertain
  deriving DecidableEq, Repr

/-- A status that is not finalized decides nothing, whatever its age. -/
def finalStatus : Option TransactionStatus → Duration → Option FinalStatus
  | some s, _ => if s.confirmationStatus = some .finalized then some .confirmed else none
  | none, elapsed => if 300_000_000_000 < elapsed then some .uncertainNoStatus else none

def worker : Worker FinalityUpdate Counter where
  finalStatus := finalStatus
  update entry statusOpt fs nowNs :=
    { triggerId := entry.triggerId
      senderId := entry.senderId
      txSignature := entry.signature
      finalStatus := fs
      finalizationSlot := statusOpt.map TransactionStatus.slot
      finalizationCheckedAtNs := nowNs }
  counter
    | .confirmed => .finalityConfirmed
    | .uncertainNoStatus => .finalityUncertain
  onError := []

end FinalityTracker

namespace RpcFallback

structure FallbackUpdate where
  triggerId : TriggerId
  senderId : ℕ
  txSignature : Signature
  finalStatus : FinalStatus
  finalizationCheckedAtNs : ℕ
  deriving DecidableEq, Repr

inductive Counter
  | rpcFallbackRecoveredLanded | rpcFallbackConfirmedMissing | rpcFallbackError
  deriving DecidableEq, Repr

def finalStatus (maxAgeSecs : ℕ) : Option TransactionStatus → Duration → Option FinalStatus
  | some _, _ => some .confirmed
  | none, elapsed => if maxAgeSecs ≤ elapsed / 1_000_000_000 then some .uncertainNoStatus else none

def worker (maxAgeSecs : ℕ) : Worker FallbackUpdate Counter where
  finalStatus := finalStatus maxAgeSecs
  update entry _ fs nowNs :=
    { triggerId := entry.triggerId
      senderId := entry.senderId
      txSignature := entry.signature
      finalStatus := fs
      finalizationCheckedAtNs := nowNs }
  counter
    | .confirmed => .rpcFallbackRecoveredLanded
    | .uncertainNoStatus => .rpcFallbackConfirmedMissing
  onError := [.rpcFallbackError]

end RpcFallback

end SolanaBench.FanOut.StatusQueues
