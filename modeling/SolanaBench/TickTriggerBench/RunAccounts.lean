import SolanaBench.TickTriggerBench.FinalRecords
import SolanaBench.TickTriggerBench.RunCustody

/-! What becomes of the transactions of a bench run. However its threads take their turns, each
request is the only one for its transaction, which was signed for its tick and is not too old;
and the request is in flight or its record on the way to the file, or in it. -/
namespace SolanaBench.TickTriggerBench

/-! ## Sendings -/

/-- What a command, its send event and its row have in common. -/
abbrev Sending := Signature × ℕ × ℕ

def SendCommand.sending (cmd : SendCommand) : Sending :=
  (cmd.tx.signature, cmd.scheduleSlot, cmd.scheduleTick)

def SendEvent.sending (ev : SendEvent) : Sending :=
  (ev.signature, ev.scheduleSlot, ev.scheduleTick)

def FinalRecord.sending (r : FinalRecord) : Sending := r.send.sending

def Row.sending (row : Row) : Sending := (row.txSignature, row.scheduleSlot, row.scheduleTick)

theorem rows_sending (cfg : ParquetWriterConfig) (records : List FinalRecord) :
    (cfg.rows records).map Row.sending = records.map FinalRecord.sending := by
  induction records using List.reverseRecOn with
  | nil => rfl
  | append_singleton records r ih =>
    unfold ParquetWriterConfig.rows at ih ⊢
    rw [List.foldl_append, List.foldl_cons, List.foldl_nil, Builders.append, List.map_append, ih,
      List.map_append]
    rfl

section

variable {deadline : Duration} {g : Signature} {is : List Input} {r : FinalRecord}

theorem finalsOf_eq_filter (g : Signature) (os : List Output) :
    finalsOf g os = (os.filterMap Bench.final?).filter fun r => decide (r.send.signature = g) := by
  induction os with
  | nil => rfl
  | cons o os ih =>
    unfold finalsOf at ih ⊢
    cases o with
    | forget sig => exact ih
    | fallback sig => exact ih
    | final r =>
      have hcons : (Output.final r :: os).filterMap Bench.final? =
          r :: os.filterMap Bench.final? := rfl
      rw [hcons, List.filter_cons, ← ih, List.filterMap_cons]
      by_cases hr : r.send.signature = g <;> simp [final?, hr]

theorem send_of_final (hnodup : ((sends is).map SendEvent.signature).Nodup)
    (h : r ∈ finalsOf g (finalizeLoop deadline is)) : r.send ∈ sends is := by
  cases hsent : sent? g is with
  | none =>
    have hstage := stage_run deadline hnodup (g := g)
    rw [finalsOf_finalizeLoop] at h
    generalize (sigMachine deadline g).run (none, none) is = run at *
    cases hstage with
    | unsent => exact absurd h List.not_mem_nil
    | waiting hs | done hs => rw [hsent] at hs; cases hs
  | some s =>
    obtain ⟨i, hi, hs⟩ := List.exists_of_findSome?_eq_some hsent
    cases i with
    | send ev now =>
      have hev : ev ∈ sends is := List.mem_filterMap.mpr ⟨_, hi, rfl⟩
      obtain ⟨r', hr', hsend, -⟩ := finals_of_sent deadline hev hnodup
      have hg : ev.signature = g := by
        by_contra hne
        simp [hne] at hs
      rw [← hg, hr'] at h
      rw [List.mem_singleton.mp h, hsend]
      exact hev
    | matched m => cases hs
    | sweep now => cases hs

/-- The records of the finalizer are those of the send events it was given. -/
theorem finals_perm (deadline : Duration) (hnodup : ((sends is).map SendEvent.signature).Nodup) :
    (((finalizeLoop deadline is).filterMap Bench.final?).map FinalRecord.send).Perm (sends is) := by
  refine List.perm_iff_count.mpr fun ev => ?_
  have hcount : List.count ev
      (((finalizeLoop deadline is).filterMap Bench.final?).map FinalRecord.send) =
        (finalsOf ev.signature (finalizeLoop deadline is)).countP fun r => r.send == ev := by
    rw [finalsOf_eq_filter, List.countP_filter, List.count, List.countP_map]
    refine List.countP_congr fun r _ => ?_
    simp only [Function.comp_apply, beq_iff_eq, Bool.and_eq_true, decide_eq_true_eq]
    exact ⟨fun h => ⟨h, congrArg SendEvent.signature h⟩, And.left⟩
  rw [hcount]
  by_cases hev : ev ∈ sends is
  · obtain ⟨r, hr, hsend, -⟩ := finals_of_sent deadline hev hnodup
    rw [hr, List.countP_singleton, if_pos (beq_iff_eq.mpr hsend),
      List.count_eq_one_of_mem hnodup.of_map hev]
  · rw [List.count_eq_zero_of_not_mem hev, List.countP_eq_zero]
    intro r hr heq
    rw [beq_iff_eq] at heq
    exact hev (heq ▸ send_of_final hnodup hr)

theorem finals_drain (s : Finalizer) : (s.drain.filterMap Bench.final?).map FinalRecord.sending =
    s.map.entries.map fun e => e.2.send.sending := by
  unfold Finalizer.drain
  induction s.map.entries with
  | nil => rfl
  | cons e es ih =>
    rw [List.flatMap_cons, List.filterMap_append, List.map_append, ih]
    unfold emitFinal PendingRecord.finish
    split <;> rfl

end

/-! ## The invariants of a run -/

namespace Bench

def lost? : Event → Option SendEvent
  | .lost ev => some ev
  | _ => none

def unrecorded? : Event → Option FinalRecord
  | .unrecorded r => some r
  | _ => none

/-- The records that did not come to the writer. -/
def unrecordedIn (os : List Event) : List FinalRecord := os.filterMap unrecorded?

/-- The records that the writer has had. -/
def State.received (st : State) : List FinalRecord :=
  st.writer.batches.flatMap Prod.fst ++ st.writer.buffer

/-- `handled` is what the finalizer was given. -/
structure Booked (cfg : Config) (os : List Event) (st : State)
    (handled : List TickTriggerBench.Input) : Prop where
  sent : ((os.filterMap sent?).map SendCommand.sending).Perm
    (st.inflight.map (fun f => f.cmd.sending) ++ (os.filterMap lost?).map SendEvent.sending ++
      st.sendEvents.map SendEvent.sending ++ (sends handled).map SendEvent.sending)
  running : st.exited = false → st.finalizer = ((finalizer cfg.deadline).run {} handled).1 ∧
    (((finalizer cfg.deadline).run {} handled).2.filterMap final?).Perm
      (st.received ++ st.finals ++ unrecordedIn os)
  closed : st.exited = true → st.finalizer = {} ∧
    ((finalizeLoop cfg.deadline handled).filterMap final?).Perm
      (st.received ++ st.finals ++ unrecordedIn os)
  batched : BatchWriter.Batched cfg.parquet.rowGroupSize st.received st.writer
  matched : ∀ ev, .matched ev ∈ handled → .seen ev ∈ os

section

variable {cfg : Config} {os es : List Event} {st st' : State}

theorem unrecordedIn_append (os es : List Event) :
    unrecordedIn (os ++ es) = unrecordedIn os ++ unrecordedIn es := List.filterMap_append

theorem unrecordedIn_map (rs : List FinalRecord) : unrecordedIn (rs.map .unrecorded) = rs := by
  unfold unrecordedIn
  rw [List.filterMap_map]
  exact List.filterMap_some

/-! ### The finalizer among the others -/

/-- What the finalizer leaves to the others, and the records for which there was no room. -/
structure Finalizes (cfg : Config) (st st' : State) (es : List Event)
    (records : List FinalRecord) : Prop where
  pool : st'.observer.pool = st.observer.pool
  pending : st'.observer.pendingSigs ⊆ st.observer.pendingSigs
  sendQueue : st'.sendQueue = st.sendQueue
  inflight : st'.inflight = st.inflight
  sendEvents : st'.sendEvents = st.sendEvents
  matchQueue : st'.matchQueue = st.matchQueue
  finalizer : st'.finalizer = st.finalizer
  exited : st'.exited = st.exited
  writer : st'.writer = st.writer
  fileOpen : st'.fileOpen = st.fileOpen
  finals : (st'.finals ++ unrecordedIn es).Perm (st.finals ++ records)
  refused : ∀ o ∈ es, ∃ r, o = .unrecorded r
  grown : st.finals.length ≤ st'.finals.length
  full : es ≠ [] → st.fileOpen = false ∨ cfg.channelCapacity ≤ st'.finals.length

theorem finalizes_run (cfg : Config) (os : List Output) (st : State) :
    Finalizes cfg st ((applying cfg).run st os).1 ((applying cfg).run st os).2
      (os.filterMap final?) := by
  induction os generalizing st with
  | nil =>
    exact ⟨rfl, subset_rfl, rfl, rfl, rfl, rfl, rfl, rfl, rfl, rfl, List.Perm.refl _,
      List.forall_mem_nil _, le_rfl, fun h => absurd rfl h⟩
  | cons o os ih =>
    have hrest := ih ((applying cfg).step st o).1
    cases o with
    | forget sig =>
      exact { hrest with
        pending := hrest.pending.trans (Finset.erase_subset sig st.observer.pendingSigs) }
    | fallback sig => exact { hrest with }
    | final r =>
      have hoffer := BoundedChannel.perm_run cfg.channelCapacity st.fileOpen st.finals [r]
      have hgrown := BoundedChannel.length_le_run cfg.channelCapacity st.fileOpen st.finals [r]
      refine { hrest with finals := ?_, refused := ?_, grown := ?_, full := ?_ }
      · have hlater := hrest.finals
        refine List.perm_iff_count.mpr fun x => ?_
        have hx := List.perm_iff_count.mp hoffer x
        have hx' := List.perm_iff_count.mp hlater x
        have hes : unrecordedIn ((applying cfg).run st (.final r :: os)).2 =
            (cfg.trySend st.fileOpen st.finals [r]).2 ++
              unrecordedIn ((applying cfg).run ((applying cfg).step st (.final r)).1 os).2 := by
          rw [EventMachine.run_cons_snd, unrecordedIn_append]
          exact congrArg (· ++ _) (unrecordedIn_map _)
        have hrs : (Output.final r :: os).filterMap final? = r :: os.filterMap final? := rfl
        rw [hes, hrs, EventMachine.run_cons_fst]
        change List.count x ((cfg.trySend st.fileOpen st.finals [r]).1 ++
          (cfg.trySend st.fileOpen st.finals [r]).2) = _ at hx
        change _ = List.count x ((cfg.trySend st.fileOpen st.finals [r]).1 ++ _) at hx'
        simp only [List.count_append, List.count_cons, List.count_nil] at hx hx' ⊢
        omega
      · intro o ho
        rcases List.mem_append.mp ho with hnow | hlater
        · obtain ⟨r', -, rfl⟩ := List.mem_map.mp hnow
          exact ⟨r', rfl⟩
        · exact hrest.refused o hlater
      · exact hgrown.trans hrest.grown
      · intro hne
        by_cases hlater : ((applying cfg).run ((applying cfg).step st (.final r)).1 os).2 = []
        · have hnow : (cfg.trySend st.fileOpen st.finals [r]).2 ≠ [] := by
            intro hnone
            refine hne ?_
            rw [EventMachine.run_cons_snd, hlater, List.append_nil]
            exact List.map_eq_nil_iff.mpr hnone
          obtain ⟨x, hx⟩ := List.exists_mem_of_ne_nil _ hnow
          exact (BoundedChannel.full_of_run hx).imp_right fun hfull => hfull.trans hrest.grown
        · exact hrest.full hlater

/-- The event is about no signing, no request and no match. -/
def Aside (o : Event) : Prop :=
  signed? o = none ∧ expired? o = none ∧ sent? o = none ∧ ∀ ev, o ≠ .seen ev

theorem aside_lost (ev : SendEvent) : Aside (.lost ev) := ⟨rfl, rfl, rfl, fun _ => nofun⟩

theorem aside_unrecorded (r : FinalRecord) : Aside (.unrecorded r) :=
  ⟨rfl, rfl, rfl, fun _ => nofun⟩

/-- The finalizer has been given one more input. -/
theorem Booked.finalize {handled : List TickTriggerBench.Input} (h : Booked cfg os st handled)
    (hrunning : st.exited = false) {i : TickTriggerBench.Input} {rest : List SendEvent}
    (hsend : st.sendEvents.map SendEvent.sending =
      (sends [i]).map SendEvent.sending ++ rest.map SendEvent.sending)
    (hmatch : ∀ ev, i = .matched ev → .seen ev ∈ os)
    (hst : Finalizes cfg { st with
        sendEvents := rest
        finalizer := ((TickTriggerBench.finalizer cfg.deadline).step st.finalizer i).1 } st' es
      (((TickTriggerBench.finalizer cfg.deadline).step st.finalizer i).2.filterMap final?)) :
    Booked cfg (os ++ es) st' (handled ++ [i]) := by
  have hreceived : st'.received = st.received := by
    unfold State.received
    rw [hst.writer]
  have hsent : es.filterMap sent? = [] := List.filterMap_eq_nil_iff.mpr fun o ho => by
    obtain ⟨r, rfl⟩ := hst.refused o ho
    rfl
  have hlost : es.filterMap lost? = [] := List.filterMap_eq_nil_iff.mpr fun o ho => by
    obtain ⟨r, rfl⟩ := hst.refused o ho
    rfl
  obtain ⟨hfinalizer, hfinals⟩ := h.running hrunning
  refine ⟨?_, fun _ => ⟨?_, ?_⟩, fun hexited => ?_, ?_, fun ev hev => ?_⟩
  · have hsends : sends (handled ++ [i]) = sends handled ++ sends [i] := List.filterMap_append
    rw [List.filterMap_append, List.filterMap_append, hsent, hlost, List.append_nil,
      List.append_nil]
    refine h.sent.trans (List.perm_iff_count.mpr fun s => ?_)
    rw [hst.inflight, hst.sendEvents, hsend, hsends]
    simp only [List.map_append, List.count_append]
    omega
  · rw [hst.finalizer, EventMachine.run_snoc_fst, ← hfinalizer]
  · rw [EventMachine.run_snoc_snd, List.filterMap_append, ← hfinalizer, hreceived,
      unrecordedIn_append]
    refine List.perm_iff_count.mpr fun r => ?_
    have hr := List.perm_iff_count.mp hfinals r
    have hr' := List.perm_iff_count.mp hst.finals r
    simp only [List.count_append] at hr hr' ⊢
    omega
  · rw [hst.exited] at hexited
    exact absurd (hrunning.symm.trans hexited) Bool.false_ne_true
  · rw [hreceived, hst.writer]
    exact h.batched
  · rcases List.mem_append.mp hev with hold | hnew
    · exact List.mem_append_left es (h.matched ev hold)
    · exact List.mem_append_left es (hmatch ev (List.mem_singleton.mp hnew).symm)

/-- The finalizer has left: what it still held goes out, and what waits for it is lost. -/
theorem Booked.exit {handled : List TickTriggerBench.Input} (h : Booked cfg os st handled)
    (hrunning : st.exited = false)
    (hst : Finalizes cfg { st with finalizer := {}, exited := true } st' es
      (st.finalizer.drain.filterMap final?)) :
    Booked cfg (os ++ (es ++ st.sendEvents.map .lost)) { st' with sendEvents := [], matchQueue := [] }
      handled := by
  have hreceived : State.received { st' with sendEvents := [], matchQueue := [] } = st.received := by
    unfold State.received
    rw [hst.writer]
  have hsent : (es ++ st.sendEvents.map Event.lost).filterMap sent? = [] :=
    List.filterMap_eq_nil_iff.mpr fun o ho => by
      rcases List.mem_append.mp ho with ho | ho
      · obtain ⟨r, rfl⟩ := hst.refused o ho
        rfl
      · obtain ⟨ev, -, rfl⟩ := List.mem_map.mp ho
        rfl
  have hlost : (es ++ st.sendEvents.map Event.lost).filterMap lost? = st.sendEvents := by
    have hes : es.filterMap lost? = [] := List.filterMap_eq_nil_iff.mpr fun o ho => by
      obtain ⟨r, rfl⟩ := hst.refused o ho
      rfl
    rw [List.filterMap_append, hes, List.nil_append, List.filterMap_map]
    exact List.filterMap_some
  have hunrecorded : unrecordedIn (st.sendEvents.map Event.lost) = [] :=
    List.filterMap_eq_nil_iff.mpr fun o ho => by
      obtain ⟨ev, -, rfl⟩ := List.mem_map.mp ho
      rfl
  obtain ⟨hfinalizer, hfinals⟩ := h.running hrunning
  refine ⟨?_, fun hopen => ?_, fun _ => ⟨hst.finalizer, ?_⟩, ?_,
    fun ev hev => List.mem_append_left _ (h.matched ev hev)⟩
  · have hall : (os ++ (es ++ st.sendEvents.map Event.lost)).filterMap sent? = os.filterMap sent? := by
      rw [List.filterMap_append, hsent, List.append_nil]
    have hmore : (os ++ (es ++ st.sendEvents.map Event.lost)).filterMap lost? =
        os.filterMap lost? ++ st.sendEvents := by
      rw [List.filterMap_append, hlost]
    rw [hall, hmore]
    refine h.sent.trans (List.perm_iff_count.mpr fun s => ?_)
    rw [hst.inflight]
    simp only [List.map_append, List.map_nil, List.count_append, List.count_nil]
    omega
  · exact absurd (hst.exited.symm.trans hopen) (by simp)
  · rw [hreceived, unrecordedIn_append, unrecordedIn_append, hunrecorded, List.append_nil]
    unfold finalizeLoop
    dsimp only
    rw [List.filterMap_append, ← hfinalizer]
    refine List.perm_iff_count.mpr fun r => ?_
    have hr := List.perm_iff_count.mp hfinals r
    have hr' := List.perm_iff_count.mp hst.finals r
    simp only [List.count_append] at hr hr' ⊢
    omega
  · rw [hreceived, hst.writer]
    exact h.batched

/-- What an iteration of the finalizer leaves alone. -/
structure Alone (os es : List Event) (st st' : State) : Prop where
  aside : ∀ o ∈ es, Aside o
  pool : st'.observer.pool = st.observer.pool
  sendQueue : st'.sendQueue = st.sendQueue
  watched : Watched (os ++ es) st'

theorem Watched.aside (h : Watched os st) (hes : ∀ o ∈ es, Aside o)
    (hpending : st'.observer.pendingSigs ⊆ st.observer.pendingSigs)
    (hmatch : ∀ ev ∈ st'.matchQueue, ev ∈ st.matchQueue) : Watched (os ++ es) st' :=
  h.append (fun _ hsig => Or.inl (hpending hsig)) (fun ev hev => absurd rfl ((hes _ hev).2.2.2 ev))
    fun ev hev => Or.inl (hmatch ev hev)

theorem Finalizes.alone {records : List FinalRecord} (h : Finalizes cfg st st' es records)
    (hwatched : Watched os st) : Alone os es st st' := by
  have haside : ∀ o ∈ es, Aside o := fun o ho => by
    obtain ⟨r, rfl⟩ := h.refused o ho
    exact aside_unrecorded r
  exact ⟨haside, h.pool, h.sendQueue,
    hwatched.aside haside h.pending fun ev hev => h.matchQueue ▸ hev⟩

/-- An iteration of the finalizer, and what it leaves alone. -/
theorem Booked.finalizerStep {handled : List TickTriggerBench.Input}
    (h : Booked cfg os st handled) (hwatched : Watched os st) (hrunning : st.exited = false)
    (i : Input) : (∃ handled, Booked cfg (os ++ (st.finalizerStep cfg i).2)
        (st.finalizerStep cfg i).1 handled) ∧
      Alone os (st.finalizerStep cfg i).2 st (st.finalizerStep cfg i).1 := by
  have hfinalize : ∀ (st₀ : State) j, Finalizes cfg { st₀ with
      finalizer := ((TickTriggerBench.finalizer cfg.deadline).step st₀.finalizer j).1 }
      (st₀.finalize cfg j).1 (st₀.finalize cfg j).2
      (((TickTriggerBench.finalizer cfg.deadline).step st₀.finalizer j).2.filterMap final?) :=
    fun st₀ j => finalizes_run cfg _ _
  have hidle : (∃ handled, Booked cfg (os ++ []) st handled) ∧ Alone os [] st st := by
    rw [List.append_nil]
    refine ⟨⟨handled, h⟩, List.forall_mem_nil _, rfl, rfl, ?_⟩
    rw [List.append_nil]
    exact hwatched
  cases i with
  | takeSend now =>
    unfold State.finalizerStep
    dsimp only
    split
    · exact hidle
    · next ev rest hevents =>
      have hst := hfinalize { st with sendEvents := rest } (.send ev now)
      have hsend : st.sendEvents.map SendEvent.sending = (sends [.send ev now]).map SendEvent.sending ++
          rest.map SendEvent.sending := by
        rw [hevents]
        rfl
      have halone := hst.alone ⟨hwatched.pending, hwatched.seen, hwatched.matched⟩
      exact ⟨⟨_, h.finalize hrunning hsend (fun m hm => (by cases hm)) hst⟩, halone.aside,
        halone.pool, halone.sendQueue, halone.watched⟩
  | takeMatch =>
    unfold State.finalizerStep
    dsimp only
    split
    · exact hidle
    · next ev rest hqueue =>
      have hst := hfinalize { st with matchQueue := rest } (.matched ev)
      have hrest : ∀ m ∈ rest, .seen m ∈ os := fun m hm =>
        hwatched.matched m (by rw [hqueue]; exact List.mem_cons_of_mem ev hm)
      have hbooked : Booked cfg os { st with matchQueue := rest } handled :=
        ⟨h.sent, h.running, h.closed, h.batched, h.matched⟩
      have halone := hst.alone ⟨hwatched.pending, hwatched.seen, hrest⟩
      refine ⟨⟨_, hbooked.finalize hrunning rfl (fun m hm => ?_) hst⟩, halone.aside, halone.pool,
        halone.sendQueue, halone.watched⟩
      obtain rfl : ev = m := TickTriggerBench.Input.matched.inj hm
      exact hwatched.matched ev (by rw [hqueue]; exact List.mem_cons_self)
  | sweep now =>
    have hst := hfinalize st (.sweep now)
    have halone := hst.alone ⟨hwatched.pending, hwatched.seen, hwatched.matched⟩
    exact ⟨⟨_, h.finalize hrunning rfl (fun m hm => by cases hm) hst⟩, halone.aside, halone.pool,
      halone.sendQueue, halone.watched⟩
  | exit =>
    have hst := finalizes_run cfg st.finalizer.drain { st with finalizer := {}, exited := true }
    have haside : ∀ o ∈ (st.finalizerStep cfg .exit).2, Aside o := fun o ho => by
      rcases List.mem_append.mp ho with ho | ho
      · obtain ⟨r, rfl⟩ := hst.refused o ho
        exact aside_unrecorded r
      · obtain ⟨ev, -, rfl⟩ := List.mem_map.mp ho
        exact aside_lost ev
    refine ⟨⟨handled, h.exit hrunning hst⟩, haside, hst.pool, hst.sendQueue, ?_⟩
    exact hwatched.aside haside hst.pending fun ev hev => absurd hev List.not_mem_nil
  | _ => exact hidle

/-! ### Requests and rows -/

/-- Steps that touch no request, no send event and no record. -/
theorem Booked.frame {handled : List TickTriggerBench.Input} (h : Booked cfg os st handled)
    (hinflight : st'.inflight = st.inflight) (hevents : st'.sendEvents = st.sendEvents)
    (hfinalizer : st'.finalizer = st.finalizer) (hexited : st'.exited = st.exited)
    (hwriter : st'.writer = st.writer) (hfinals : st'.finals = st.finals)
    (hes : ∀ o ∈ es, sent? o = none ∧ lost? o = none ∧ unrecorded? o = none) :
    Booked cfg (os ++ es) st' handled := by
  have hreceived : st'.received = st.received := by
    unfold State.received
    rw [hwriter]
  have hsent : es.filterMap sent? = [] := List.filterMap_eq_nil_iff.mpr fun o ho => (hes o ho).1
  have hlost : es.filterMap lost? = [] := List.filterMap_eq_nil_iff.mpr fun o ho => (hes o ho).2.1
  have hunrecorded : unrecordedIn es = [] :=
    List.filterMap_eq_nil_iff.mpr fun o ho => (hes o ho).2.2
  refine ⟨?_, ?_, ?_, ?_, fun ev hev => List.mem_append_left es (h.matched ev hev)⟩
  · rw [List.filterMap_append, List.filterMap_append, hsent, hlost, List.append_nil,
      List.append_nil, hinflight, hevents]
    exact h.sent
  · rw [hexited, hfinalizer, hreceived, hfinals, unrecordedIn_append, hunrecorded, List.append_nil]
    exact h.running
  · rw [hexited, hfinalizer, hreceived, hfinals, unrecordedIn_append, hunrecorded, List.append_nil]
    exact h.closed
  · rw [hreceived, hwriter]
    exact h.batched

theorem Booked.dispatch {handled : List TickTriggerBench.Input} (h : Booked cfg os st handled)
    (now sendAt : Instant) : Booked cfg (os ++ (st.dispatch cfg now sendAt).2)
      (st.dispatch cfg now sendAt).1 handled := by
  unfold State.dispatch
  split
  · rw [List.append_nil]
    exact h
  · next cmd rest _ =>
    split
    · split
      · refine h.frame rfl rfl rfl rfl rfl rfl fun o ho => ?_
        rw [List.mem_singleton.mp ho]
        exact ⟨rfl, rfl, rfl⟩
      · have hunrecorded : unrecordedIn (os ++ [Event.sent cmd now]) = unrecordedIn os := by
          rw [unrecordedIn_append]
          exact List.append_nil _
        refine ⟨?_, ?_, ?_, h.batched, fun ev hev => List.mem_append_left _ (h.matched ev hev)⟩
        · have hsent : [Event.sent cmd now].filterMap sent? = [cmd] := rfl
          have hlost : [Event.sent cmd now].filterMap lost? = [] := rfl
          refine List.perm_iff_count.mpr fun s => ?_
          have hcount := List.perm_iff_count.mp h.sent s
          simp only [List.filterMap_append, hsent, hlost, List.map_append, List.count_append,
            List.map_cons, List.map_nil, List.append_nil] at hcount ⊢
          omega
        · rw [hunrecorded]
          exact h.running
        · rw [hunrecorded]
          exact h.closed
    · rw [List.append_nil]
      exact h

/-- A request ends: its send event waits for the finalizer, or is lost. -/
theorem Booked.answer {handled : List TickTriggerBench.Input} (h : Booked cfg os st handled)
    (n : ℕ) (responseAt : Instant) (error : Option SendError) :
    Booked cfg (os ++ (st.answer cfg n responseAt error).2) (st.answer cfg n responseAt error).1
      handled := by
  unfold State.answer
  split
  · rw [List.append_nil]
    exact h
  · next f hf =>
    have hsame : (f.sendEvent responseAt error).sending = f.cmd.sending := rfl
    obtain ⟨hn, rfl⟩ := List.getElem?_eq_some_iff.mp hf
    have hflight := List.perm_iff_count.mp
      ((List.getElem_cons_eraseIdx_perm hn).map fun f => f.cmd.sending)
    have hoffer := (BoundedChannel.perm_run cfg.channelCapacity (!st.exited) st.sendEvents
      [st.inflight[n].sendEvent responseAt error]).map SendEvent.sending
    have hunrecorded : ∀ evs : List SendEvent,
        unrecordedIn (os ++ evs.map Event.lost) = unrecordedIn os := by
      intro evs
      have hnone : unrecordedIn (evs.map Event.lost) = [] :=
        List.filterMap_eq_nil_iff.mpr fun o ho => by
          obtain ⟨ev, -, rfl⟩ := List.mem_map.mp ho
          rfl
      rw [unrecordedIn_append, hnone, List.append_nil]
    refine ⟨?_, ?_, ?_, h.batched, fun ev hev => List.mem_append_left _ (h.matched ev hev)⟩
    · have hnone : ∀ evs : List SendEvent, (evs.map Event.lost).filterMap sent? = [] := fun evs =>
        List.filterMap_eq_nil_iff.mpr fun o ho => by
          obtain ⟨ev, -, rfl⟩ := List.mem_map.mp ho
          rfl
      have hlost : ∀ evs : List SendEvent, (evs.map Event.lost).filterMap lost? = evs := fun evs => by
        rw [List.filterMap_map]
        exact List.filterMap_some
      refine List.perm_iff_count.mpr fun s => ?_
      have hs := List.perm_iff_count.mp h.sent s
      have hf := hflight s
      have ho := List.perm_iff_count.mp hoffer s
      rw [List.filterMap_append, List.filterMap_append, hnone, hlost]
      unfold Config.trySend
      simp only [List.map_append, List.count_append, List.map_cons, List.map_nil, List.count_cons,
        List.count_nil, List.append_nil, hsame] at hs hf ho ⊢
      omega
    · rw [hunrecorded]
      exact h.running
    · rw [hunrecorded]
      exact h.closed

/-- The writer takes `r`, or none. -/
theorem Booked.write {handled : List TickTriggerBench.Input} (h : Booked cfg os st handled)
    {w : BatchWriter.Input FinalRecord} {rest : List FinalRecord}
    (hfinals : st.finals = w.row?.toList ++ rest) :
    Booked cfg os { st with
      finals := rest
      writer := ((parquetWriter cfg.parquet).step st.writer w).1 } handled := by
  have hstep : BatchWriter.Batched cfg.parquet.rowGroupSize (st.received ++ w.row?.toList)
      ((parquetWriter cfg.parquet).step st.writer w).1 := h.batched.step w
  have hreceived : st.received ++ w.row?.toList = State.received { st with
      finals := rest
      writer := ((parquetWriter cfg.parquet).step st.writer w).1 } := hstep.kept.symm
  have hall : st.received ++ st.finals = State.received { st with
      finals := rest
      writer := ((parquetWriter cfg.parquet).step st.writer w).1 } ++ rest := by
    rw [hfinals, ← hreceived, List.append_assoc]
  refine ⟨h.sent, fun hopen => ?_, fun hexited => ?_, ?_, h.matched⟩
  · rw [← hall]
    exact h.running hopen
  · rw [← hall]
    exact h.closed hexited
  · rw [← hreceived]
    exact hstep

/-- The writer leaves, and its channel with it. -/
theorem Booked.noFile {handled : List TickTriggerBench.Input} (h : Booked cfg os st handled) :
    Booked cfg (os ++ st.noFile.2) st.noFile.1 handled := by
  unfold State.noFile
  split
  · have hunrecorded : unrecordedIn (os ++ st.finals.map Event.unrecorded) =
        unrecordedIn os ++ st.finals := by
      rw [unrecordedIn_append, unrecordedIn_map]
    have hsent : (st.finals.map Event.unrecorded).filterMap sent? = [] :=
      List.filterMap_eq_nil_iff.mpr fun o ho => by
        obtain ⟨r, -, rfl⟩ := List.mem_map.mp ho
        rfl
    have hlost : (st.finals.map Event.unrecorded).filterMap lost? = [] :=
      List.filterMap_eq_nil_iff.mpr fun o ho => by
        obtain ⟨r, -, rfl⟩ := List.mem_map.mp ho
        rfl
    have hmoved : (st.received ++ st.finals ++ unrecordedIn os).Perm
        (st.received ++ [] ++ (unrecordedIn os ++ st.finals)) := by
      rw [List.append_nil, List.append_assoc]
      exact List.perm_append_comm.append_left st.received
    refine ⟨?_, fun hopen => ?_, fun hexited => ?_, h.batched,
      fun ev hev => List.mem_append_left _ (h.matched ev hev)⟩
    · rw [List.filterMap_append, List.filterMap_append, hsent, hlost, List.append_nil,
        List.append_nil]
      exact h.sent
    · rw [hunrecorded]
      exact (h.running hopen).imp_right fun hfinals => hfinals.trans hmoved
    · rw [hunrecorded]
      exact (h.closed hexited).imp_right fun hfinals => hfinals.trans hmoved
  · rw [List.append_nil]
    exact h

/-! ### Whole runs -/

structure Kept (cfg : Config) (os : List Event) (st : State) : Prop where
  custody : Custodial cfg os st
  watched : Watched os st
  booked : ∃ handled, Booked cfg os st handled

/-- The preparer at the pool. -/
theorem Kept.prepare (h : Kept cfg os st) {s : Preparer.State}
    (hcustody : Custodial cfg (os ++ es) (st.setPreparer s))
    (hes : ∀ o ∈ es, sent? o = none ∧ lost? o = none ∧ unrecorded? o = none ∧ ∀ ev, o ≠ .seen ev) :
    Kept cfg (os ++ es) (st.setPreparer s) := by
  obtain ⟨handled, hbooked⟩ := h.booked
  refine ⟨hcustody, h.watched.append (fun sig hsig => Or.inl hsig)
    (fun ev hev => absurd rfl ((hes _ hev).2.2.2 ev)) fun ev hev => Or.inl hev, handled, ?_⟩
  exact hbooked.frame rfl rfl rfl rfl rfl rfl fun o ho =>
    ⟨(hes o ho).1, (hes o ho).2.1, (hes o ho).2.2.1⟩

/-- Steps at neither the pool nor the queue of commands. -/
theorem Kept.aside (h : Kept cfg os st) (hpool : st'.observer.pool = st.observer.pool)
    (hqueue : st'.sendQueue = st.sendQueue) (hes : ∀ o ∈ es, Aside o)
    (hwatched : Watched (os ++ es) st') (hbooked : ∃ handled, Booked cfg (os ++ es) st' handled) :
    Kept cfg (os ++ es) st' :=
  ⟨h.custody.frame hpool hqueue fun o ho => ⟨(hes o ho).1, (hes o ho).2.1, (hes o ho).2.2.1⟩,
    hwatched, hbooked⟩

/-- Steps without an event. -/
theorem Kept.silent (h : Kept cfg os st) (hpool : st'.observer.pool = st.observer.pool)
    (hqueue : st'.sendQueue = st.sendQueue) (hwatched : Watched os st')
    (hbooked : ∃ handled, Booked cfg os st' handled) : Kept cfg (os ++ []) st' := by
  rw [← List.append_nil os] at hwatched hbooked
  exact h.aside hpool hqueue (List.forall_mem_nil _) hwatched hbooked

theorem kept_step (h : Kept cfg os st) (i : Input) :
    Kept cfg (os ++ ((machine cfg).step st i).2) ((machine cfg).step st i).1 := by
  obtain ⟨handled, hbooked⟩ := h.booked
  -- the finalizer has left its loop, or it makes one iteration
  have hfinalizer : Kept cfg (os ++ (if st.exited then (st, []) else st.finalizerStep cfg i).2)
      (if st.exited then (st, []) else st.finalizerStep cfg i).1 := by
    split
    · exact h.silent rfl rfl h.watched h.booked
    · next hrunning =>
      obtain ⟨hnext, halone⟩ :=
        hbooked.finalizerStep h.watched (Bool.eq_false_of_not_eq_true hrunning) i
      exact h.aside halone.pool halone.sendQueue halone.aside halone.watched hnext
  have hquiet : ∀ s : Preparer.State, Custodial cfg os (st.setPreparer s) →
      Kept cfg (os ++ []) (st.setPreparer s) := fun s hs =>
    h.prepare (hs.frame rfl rfl (List.forall_mem_nil _)) (List.forall_mem_nil _)
  cases i with
  | fetched blockhash =>
    exact h.silent rfl rfl ⟨h.watched.pending, h.watched.seen, h.watched.matched⟩
      ⟨handled, hbooked.sent, hbooked.running, hbooked.closed, hbooked.batched, hbooked.matched⟩
  | expire key now =>
    refine hquiet _ ?_
    unfold Preparer.State.expireKey
    split
    · exact h.custody.erase key rfl rfl
    · exact ⟨h.custody.counted, h.custody.pooled, h.custody.queued, h.custody.sent⟩
  | sign entry builtAt =>
    simp only [machine, Preparer.signEntry]
    split
    · let amount := satAddU64 cfg.preparer.amountLamports st.cycle.newSigned
      let tx := Preparer.preSign cfg.preparer amount st.cycle.blockhash builtAt
      have hkept : Kept cfg (os ++ [.signed ⟨entry, amount, tx⟩])
          (st.setPreparer (st.preparer.add entry.key tx)) := by
        refine h.prepare (h.custody.sign ⟨entry, amount, tx⟩ rfl rfl) fun o ho => ?_
        rw [List.mem_singleton.mp ho]
        exact ⟨rfl, rfl, rfl, fun _ heq => (by cases heq)⟩
      exact ⟨⟨hkept.custody.counted, hkept.custody.pooled, hkept.custody.queued,
        hkept.custody.sent⟩, ⟨hkept.watched.pending, hkept.watched.seen, hkept.watched.matched⟩,
        hkept.booked.imp fun _ hb => ⟨hb.sent, hb.running, hb.closed, hb.batched, hb.matched⟩⟩
    · exact h.silent rfl rfl ⟨h.watched.pending, h.watched.seen, h.watched.matched⟩
        ⟨handled, hbooked.sent, hbooked.running, hbooked.closed, hbooked.batched, hbooked.matched⟩
  | prune key =>
    refine hquiet _ ?_
    unfold Preparer.State.pruneKey
    split
    · exact h.custody.erase key rfl rfl
    · exact ⟨h.custody.counted, h.custody.pooled, h.custody.queued, h.custody.sent⟩
  | observe obs =>
    refine ⟨h.custody.observe obs, h.watched.observe obs, handled,
      hbooked.frame rfl rfl rfl rfl rfl rfl fun o ho => ?_⟩
    obtain ⟨ev, -, rfl⟩ := List.mem_map.mp ho
    exact ⟨rfl, rfl, rfl⟩
  | dispatch now sendAt =>
    refine ⟨h.custody.dispatch now sendAt, ?_, handled, hbooked.dispatch now sendAt⟩
    simp only [machine]
    unfold State.dispatch
    split
    · rw [List.append_nil]
      exact h.watched
    · split
      · split
        · exact h.watched.append (fun sig hsig => Or.inl hsig) (fun ev hev => by simp at hev)
            fun ev hev => Or.inl hev
        · refine h.watched.append (fun sig hsig => ?_) (fun ev hev => by simp at hev)
            fun ev hev => Or.inl hev
          rcases Finset.mem_insert.mp hsig with rfl | hold
          · exact Or.inr (List.mem_singleton_self _)
          · exact Or.inl hold
      · rw [List.append_nil]
        exact h.watched
  | answer n responseAt error =>
    have hsame : (st.answer cfg n responseAt error).1.observer = st.observer ∧
        (st.answer cfg n responseAt error).1.sendQueue = st.sendQueue ∧
          (st.answer cfg n responseAt error).1.matchQueue = st.matchQueue ∧
            ∀ o ∈ (st.answer cfg n responseAt error).2, Aside o := by
      unfold State.answer
      split
      · exact ⟨rfl, rfl, rfl, List.forall_mem_nil _⟩
      · refine ⟨rfl, rfl, rfl, fun o ho => ?_⟩
        obtain ⟨ev, -, rfl⟩ := List.mem_map.mp ho
        exact aside_lost ev
    obtain ⟨hobserver, hqueue, hmatches, haside⟩ := hsame
    refine h.aside (congrArg Observer.State.pool hobserver) hqueue haside ?_
      ⟨handled, hbooked.answer n responseAt error⟩
    exact h.watched.aside haside (congrArg Observer.State.pendingSigs hobserver).subset
      fun ev hev => hmatches ▸ hev
  | noFile =>
    have hsame : st.noFile.1.observer = st.observer ∧ st.noFile.1.sendQueue = st.sendQueue ∧
        st.noFile.1.matchQueue = st.matchQueue ∧ ∀ o ∈ st.noFile.2, Aside o := by
      unfold State.noFile
      split
      · refine ⟨rfl, rfl, rfl, fun o ho => ?_⟩
        obtain ⟨r, -, rfl⟩ := List.mem_map.mp ho
        exact aside_unrecorded r
      · exact ⟨rfl, rfl, rfl, List.forall_mem_nil _⟩
    obtain ⟨hobserver, hqueue, hmatches, haside⟩ := hsame
    refine h.aside (congrArg Observer.State.pool hobserver) hqueue haside ?_
      ⟨handled, hbooked.noFile⟩
    exact h.watched.aside haside (congrArg Observer.State.pendingSigs hobserver).subset
      fun ev hev => hmatches ▸ hev
  | takeFinal now accepted =>
    simp only [machine]
    unfold State.takeFinal
    split
    · exact h.silent rfl rfl h.watched h.booked
    · next r rest hfinals =>
      exact h.silent rfl rfl ⟨h.watched.pending, h.watched.seen, h.watched.matched⟩
        ⟨handled, hbooked.write (w := .row r now accepted) hfinals⟩
  | idle now accepted =>
    exact h.silent rfl rfl ⟨h.watched.pending, h.watched.seen, h.watched.matched⟩
      ⟨handled, hbooked.write (w := .timeout now accepted) rfl⟩
  | takeSend now => exact hfinalizer
  | takeMatch => exact hfinalizer
  | sweep now => exact hfinalizer
  | exit => exact hfinalizer

theorem kept_run (cfg : Config) (xs : List Input) :
    Kept cfg ((machine cfg).run {} xs).2 ((machine cfg).run {} xs).1 := by
  refine (machine cfg).run_rule (fun _ st os => Kept cfg os st) {} ?_ (fun _ _ _ i h => kept_step h i)
    xs
  refine ⟨⟨fun g => by simp [expiredIn, sentIn, signedIn], fun key tx htx => (by cases htx),
    fun cmd hcmd => absurd hcmd List.not_mem_nil, fun cmd now hcmd => absurd hcmd List.not_mem_nil⟩,
    ⟨fun sig hsig => absurd hsig (Finset.notMem_empty sig), EverySplit.nil,
      fun ev hev => absurd hev List.not_mem_nil⟩, [], ?_⟩
  exact ⟨List.Perm.refl _, fun _ => ⟨rfl, List.Perm.refl _⟩, fun h => absurd h Bool.false_ne_true,
    ⟨rfl, fun b hb => absurd hb List.not_mem_nil, fun b hb => absurd hb List.not_mem_nil,
      lt_of_lt_of_le Nat.zero_lt_one (Nat.le_max_right _ 1)⟩,
    fun ev hev => absurd hev List.not_mem_nil⟩

/-- All the records there will be of what the finalizer was given. -/
theorem Booked.records {handled : List TickTriggerBench.Input} (h : Booked cfg os st handled) :
    ((finalizeLoop cfg.deadline handled).filterMap final?).Perm
      (st.received ++ st.finals ++ unrecordedIn os ++ st.finalizer.drain.filterMap final?) := by
  cases hexited : st.exited with
  | false =>
    obtain ⟨hfinalizer, hfinals⟩ := h.running hexited
    unfold finalizeLoop
    dsimp only
    rw [List.filterMap_append, hfinalizer]
    exact hfinals.append_right _
  | true =>
    obtain ⟨hfinalizer, hfinals⟩ := h.closed hexited
    rw [hfinalizer]
    exact hfinals.trans (List.Perm.of_eq (List.append_nil _).symm)

theorem Booked.sends_nodup {handled : List TickTriggerBench.Input}
    (h : Booked cfg os st handled) (honce : (sentIn os).Nodup) :
    ((sends handled).map SendEvent.signature).Nodup := by
  have hperm := h.sent.map Prod.fst
  rw [List.map_append, List.map_map, List.map_map] at hperm
  exact (List.nodup_append.mp (hperm.nodup honce)).2.1

/-- What a run has to say for itself. -/
structure Accounted (cfg : Config) (os : List Event) (st : State) : Prop where
  once : (sentIn os).Nodup
  own : ∀ cmd now, .sent cmd now ∈ os → Own cfg os cmd ∧
    Instant.saturatingDurationSince now cmd.tx.builtAt ≤ cfg.blockhashMaxAge
  accounted : ((os.filterMap sent?).map SendCommand.sending).Perm
    (st.inflight.map (fun f => f.cmd.sending) ++ (os.filterMap lost?).map SendEvent.sending ++
      st.sendEvents.map SendEvent.sending ++ st.finalizer.map.entries.map (fun e => e.2.send.sending) ++
        st.finals.map FinalRecord.sending ++ (unrecordedIn os).map FinalRecord.sending ++
          (cfg.parquet.rows st.received).map Row.sending)
  batched : ∀ b ∈ st.writer.batches, b.1 ≠ [] ∧ b.1.length ≤ max cfg.parquet.rowGroupSize 1
  observed : ∀ r ∈ st.received, r.status = .observed → ∃ ev, r.matchEvent = some ev ∧
    ev.signature = r.send.signature ∧ ∃ pre post, os = pre ++ .seen ev :: post ∧
      ev.signature ∈ sentIn pre

/-- What is lost on a step was refused by a channel that is full or at whose end nobody is. -/
structure Excused (cfg : Config) (st : State) (i : Input) : Prop where
  lost : ∀ ev, .lost ev ∈ ((machine cfg).step st i).2 → ((machine cfg).step st i).1.exited = true ∨
    cfg.channelCapacity ≤ ((machine cfg).step st i).1.sendEvents.length
  unrecorded : ∀ r, .unrecorded r ∈ ((machine cfg).step st i).2 →
    ((machine cfg).step st i).1.fileOpen = false ∨
      cfg.channelCapacity ≤ ((machine cfg).step st i).1.finals.length

theorem Finalizes.excused {records : List FinalRecord} (h : Finalizes cfg st st' es records) :
    (∀ ev, .lost ev ∉ es) ∧
      ∀ r, .unrecorded r ∈ es → st'.fileOpen = false ∨ cfg.channelCapacity ≤ st'.finals.length := by
  refine ⟨fun ev hev => ?_, fun r hr => ?_⟩
  · obtain ⟨r, hr⟩ := h.refused _ hev
    cases hr
  · rw [h.fileOpen]
    exact h.full (List.ne_nil_of_mem hr)

theorem excused_finalizerStep (cfg : Config) (st : State) (i : Input) :
    (∀ ev, .lost ev ∈ (st.finalizerStep cfg i).2 → (st.finalizerStep cfg i).1.exited = true) ∧
      ∀ r, .unrecorded r ∈ (st.finalizerStep cfg i).2 →
        (st.finalizerStep cfg i).1.fileOpen = false ∨
          cfg.channelCapacity ≤ (st.finalizerStep cfg i).1.finals.length := by
  have hfinalize : ∀ (st₀ : State) j,
      (∀ ev, .lost ev ∈ (st₀.finalize cfg j).2 → (st₀.finalize cfg j).1.exited = true) ∧
        ∀ r, .unrecorded r ∈ (st₀.finalize cfg j).2 → (st₀.finalize cfg j).1.fileOpen = false ∨
          cfg.channelCapacity ≤ (st₀.finalize cfg j).1.finals.length := by
    intro st₀ j
    obtain ⟨hlost, hunrecorded⟩ := (finalizes_run cfg
      ((TickTriggerBench.finalizer cfg.deadline).step st₀.finalizer j).2 { st₀ with
        finalizer := ((TickTriggerBench.finalizer cfg.deadline).step st₀.finalizer j).1 }).excused
    exact ⟨fun ev hev => absurd hev (hlost ev), hunrecorded⟩
  have hidle : (∀ ev, Event.lost ev ∈ ([] : List Event) → st.exited = true) ∧
      ∀ r, Event.unrecorded r ∈ ([] : List Event) →
        st.fileOpen = false ∨ cfg.channelCapacity ≤ st.finals.length := ⟨fun _ => nofun, fun _ => nofun⟩
  cases i with
  | takeSend now =>
    unfold State.finalizerStep
    dsimp only
    split
    · exact hidle
    · exact hfinalize _ _
  | takeMatch =>
    unfold State.finalizerStep
    dsimp only
    split
    · exact hidle
    · exact hfinalize _ _
  | sweep now => exact hfinalize _ _
  | exit =>
    have hst := finalizes_run cfg st.finalizer.drain { st with finalizer := {}, exited := true }
    refine ⟨fun _ _ => hst.exited, fun r hr => hst.excused.2 r ?_⟩
    rcases List.mem_append.mp hr with hr | hr
    · exact hr
    · obtain ⟨ev, -, heq⟩ := List.mem_map.mp hr
      cases heq
  | _ => exact hidle

theorem excused_step (cfg : Config) (st : State) (i : Input) : Excused cfg st i := by
  have hquiet : (∀ o ∈ ((machine cfg).step st i).2, lost? o = none ∧ unrecorded? o = none) →
      Excused cfg st i := by
    intro h
    refine ⟨fun ev hev => ?_, fun r hr => ?_⟩
    · cases (h _ hev).1
    · cases (h _ hr).2
  have hfinalizer : ((machine cfg).step st i =
      if st.exited then (st, []) else st.finalizerStep cfg i) → Excused cfg st i := by
    intro hstep
    by_cases hexited : st.exited
    · rw [if_pos hexited] at hstep
      refine hquiet fun o ho => ?_
      rw [hstep] at ho
      cases ho
    · rw [if_neg hexited] at hstep
      obtain ⟨hlost, hunrecorded⟩ := excused_finalizerStep cfg st i
      refine ⟨?_, ?_⟩
      · rw [hstep]
        exact fun ev hev => Or.inl (hlost ev hev)
      · rw [hstep]
        exact hunrecorded
  cases i with
  | answer n responseAt error =>
    refine ⟨fun ev hev => ?_, fun r hr => ?_⟩
    · simp only [machine] at hev ⊢
      unfold State.answer at hev ⊢
      split at hev
      · cases hev
      · obtain ⟨ev', hev', -⟩ := List.mem_map.mp hev
        exact (BoundedChannel.full_of_run hev').imp_left fun hexited => by simpa using hexited
    · simp only [machine] at hr
      unfold State.answer at hr
      split at hr
      · cases hr
      · obtain ⟨ev', -, heq⟩ := List.mem_map.mp hr
        cases heq
  | noFile =>
    refine ⟨fun ev hev => ?_, fun r hr => ?_⟩
    · simp only [machine] at hev
      unfold State.noFile at hev
      split at hev
      · obtain ⟨r, -, heq⟩ := List.mem_map.mp hev
        cases heq
      · cases hev
    · simp only [machine] at hr ⊢
      unfold State.noFile at hr ⊢
      split at hr
      · next hfirst => rw [if_pos hfirst]; exact Or.inl rfl
      · cases hr
  | fetched blockhash => exact hquiet (List.forall_mem_nil _)
  | expire key now => exact hquiet (List.forall_mem_nil _)
  | prune key => exact hquiet (List.forall_mem_nil _)
  | takeFinal now accepted => exact hquiet (List.forall_mem_nil _)
  | idle now accepted => exact hquiet (List.forall_mem_nil _)
  | sign entry builtAt =>
    refine hquiet fun o ho => ?_
    obtain ⟨x, -, rfl⟩ := List.mem_map.mp ho
    exact ⟨rfl, rfl⟩
  | observe obs =>
    refine hquiet fun o ho => ?_
    obtain ⟨ev, -, rfl⟩ := List.mem_map.mp ho
    exact ⟨rfl, rfl⟩
  | dispatch now sendAt =>
    refine hquiet fun o ho => ?_
    simp only [machine] at ho
    unfold State.dispatch at ho
    split at ho
    · cases ho
    · split at ho
      · split at ho
        · rw [List.mem_singleton.mp ho]
          exact ⟨rfl, rfl⟩
        · rw [List.mem_singleton.mp ho]
          exact ⟨rfl, rfl⟩
      · cases ho
  | takeSend now => exact hfinalizer rfl
  | takeMatch => exact hfinalizer rfl
  | sweep now => exact hfinalizer rfl
  | exit => exact hfinalizer rfl

/-- Whatever turns the threads take, no transaction is sent twice, none but one signed for its
tick or after its blockhash is too old, and every request is in flight, on the way to a row, or
has its row, unless a channel on its way was full or closed. -/
theorem bench_accounts (cfg : Config) (xs : List Input)
    (hsigned : (signedIn ((machine cfg).run {} xs).2).Nodup) :
    Accounted cfg ((machine cfg).run {} xs).2 ((machine cfg).run {} xs).1 ∧
      (machine cfg).Along (Excused cfg) {} xs := by
  refine ⟨?_, fun pre i post _ => excused_step cfg _ i⟩
  obtain ⟨hcustody, hwatched, handled, hbooked⟩ := kept_run cfg xs
  generalize (machine cfg).run {} xs = run at *
  obtain ⟨st, os⟩ := run
  dsimp only at *
  have honce : (sentIn os).Nodup := List.nodup_iff_count_le_one.mpr fun g => by
    have hcounted := hcustody.counted g
    have hone := List.nodup_iff_count_le_one.mp hsigned g
    omega
  have hnodup := hbooked.sends_nodup honce
  have hrecords := hbooked.records
  refine ⟨honce, hcustody.sent, ?_,
    fun b hb => ⟨hbooked.batched.nonempty b hb, hbooked.batched.short b hb⟩, fun r hr hobs => ?_⟩
  · have hsends := (finals_perm cfg.deadline hnodup).map SendEvent.sending
    rw [List.map_map] at hsends
    have hall := hrecords.map FinalRecord.sending
    rw [List.map_append, List.map_append, List.map_append, finals_drain] at hall
    have hgiven := hsends.symm.trans hall
    rw [rows_sending]
    refine hbooked.sent.trans (List.perm_iff_count.mpr fun s => ?_)
    have hs := List.perm_iff_count.mp hgiven s
    simp only [List.count_append] at hs ⊢
    omega
  · have hmem : r ∈ (finalizeLoop cfg.deadline handled).filterMap final? := by
      rw [hrecords.mem_iff]
      exact List.mem_append_left _ (List.mem_append_left _ (List.mem_append_left _ hr))
    have hown : r ∈ finalsOf r.send.signature (finalizeLoop cfg.deadline handled) := by
      rw [finalsOf_eq_filter]
      exact List.mem_filter.mpr ⟨hmem, decide_eq_true rfl⟩
    have hsend := send_of_final hnodup hown
    obtain ⟨r', hr', -, hstatus, htaken, -⟩ := finals_of_sent cfg.deadline hsend hnodup
    rw [hr'] at hown
    obtain rfl := List.mem_singleton.mp hown
    have hne := matchesOf_of_delivered (hstatus.mp hobs)
    obtain ⟨ev, hev⟩ : ∃ ev, taken r.send.signature handled = some ev := by
      cases hm : matchesOf r.send.signature handled with
      | nil => exact absurd hm hne
      | cons m ms =>
        unfold taken
        rw [hm]
        cases (early r.send.signature handled).getLast? with
        | none => exact ⟨m, rfl⟩
        | some m' => exact ⟨m', rfl⟩
    have hmatch : ev ∈ matchesOf r.send.signature handled := by
      unfold taken at hev
      rcases Option.or_eq_some_iff.mp hev with hlast | ⟨-, hhead⟩
      · have hsub := early_prefix r.send.signature handled
        exact hsub.subset (List.mem_of_getLast? hlast)
      · exact List.mem_of_head? hhead
    obtain ⟨i, hi, heq⟩ := List.mem_filterMap.mp hmatch
    cases i with
    | matched m =>
      have hsig : m.signature = r.send.signature := by
        by_contra hno
        simp [hno] at heq
      obtain rfl : m = ev := by simpa [hsig] using heq
      obtain ⟨pre, post, hsplit⟩ := List.append_of_mem (hbooked.matched m hi)
      exact ⟨m, (htaken hobs).trans hev, hsig, pre, post, hsplit,
        hwatched.seen pre _ post hsplit m rfl⟩
    | send ev' now => cases heq
    | sweep now => cases heq

end

/-! A transaction for the first tick of slot 8 goes all the way to its row. -/

def sampleConfig : Config where
  preparer :=
    { schedule := [⟨8, 1⟩]
      keypair := 1
      sign := fun _ => 5
      serialize := fun _ => [] }
  deadline := 1000
  parquet := ⟨4, 100, ∅, 0⟩

def sampleEntry (slot numHashes : ℕ) (hash : Hash) (signatures : List Signature) :
    EntryObservation where
  source := .shredStream
  observedAt := hash
  slot := slot
  entryIndex := 0
  numHashes := numHashes
  entryHash := hash
  txCount := signatures.length
  signatures := signatures
  firstShredAt := none

def sampleRun : List Input :=
  [.observe (sampleEntry 7 62_500 1 []), .fetched 9, .sign ⟨8, 1⟩ 2,
    .observe (sampleEntry 8 62_500 3 []), .dispatch 4 4, .observe (sampleEntry 8 100 5 [5]),
    .takeMatch, .answer 0 6 none, .takeSend 7, .exit, .takeFinal 8 true, .idle 9 true]

theorem bench_accounts_sample :
    (Accounted sampleConfig ((machine sampleConfig).run {} sampleRun).2
        ((machine sampleConfig).run {} sampleRun).1 ∧
      (machine sampleConfig).Along (Excused sampleConfig) {} sampleRun) ∧
      sentIn ((machine sampleConfig).run {} sampleRun).2 = [5] ∧
        (sampleConfig.parquet.rows ((machine sampleConfig).run {} sampleRun).1.received).map
          Row.status = [.observed] :=
  ⟨bench_accounts sampleConfig sampleRun (by decide +kernel), by decide +kernel, by decide +kernel⟩

end Bench

end SolanaBench.TickTriggerBench
