import Mathlib.Data.Bool.Count
import SolanaBench.Lib.Streak
import SolanaBench.TxCutoff.Resolution

/-! The abort decision against the blocks of the run: the counter of failed blocks in a row reads
their verdicts in the order in which their last results come. -/
namespace SolanaBench.TxCutoff

/-- The batch that the engine sends on an input: its index and its size. -/
def Engine.batch (cfg : EngineConfig) (s : Engine) : Input → List (ℕ × ℕ)
  | .header hd => if s.running && s.samples cfg hd then [(s.blockIndex, hd.signed.length)] else []
  | .sendResult _ => []
  | .ctrlC => []

def batches (cfg : EngineConfig) (is : List Input) : List (ℕ × ℕ) :=
  (engine cfg).readings (Engine.batch cfg) (Engine.start cfg) is

def Input.answerOf? (k : ℕ) : Input → Option Bool
  | .header _ => none
  | .sendResult res => if res.blockIdx = k then some res.outcome.isAccepted else none
  | .ctrlC => none

def Input.result? : Input → Option SendResult
  | .header _ => none
  | .sendResult res => some res
  | .ctrlC => none

/-- The results of a block, in the order in which they come. -/
def answersOf (k : ℕ) (is : List Input) : List Bool := is.filterMap (Input.answerOf? k)

/-- No send of the block succeeds. -/
def allFailed (is : List Input) (b : ℕ × ℕ) : Bool := (answersOf b.1 is).all fun ok => !ok

/-- All results of the block have come. -/
def finished (is : List Input) (b : ℕ × ℕ) : Bool := decide (b.2 ≤ (answersOf b.1 is).length)

/-- The blocks with at least one send. -/
def sending (bs : List (ℕ × ℕ)) : List (ℕ × ℕ) := bs.filter fun b => decide (0 < b.2)

/-- The blocks with at least one send, in block order: have all their sends failed? -/
def verdicts (cfg : EngineConfig) (is : List Input) : List Bool :=
  (sending (batches cfg is)).map (allFailed is)

/-- Each send of the run has its result, after the block was registered. -/
structure Answers (cfg : EngineConfig) (is : List Input) : Prop where
  all : ∀ b ∈ batches cfg is, (answersOf b.1 is).length = b.2
  registered : EverySplit (fun pre i => ∀ res ∈ i.result?,
    ∃ b ∈ batches cfg pre, b.1 = res.blockIdx) is

/-- `should_abort` is true at some point. -/
def Aborts (cfg : EngineConfig) (is : List Input) : Prop :=
  ∃ pre, pre <+: is ∧ (run cfg pre).1.abort.tracker.shouldAbort

/-- Unless the run has aborted, the main loop handles the result; and if it is the last one of
its block, the earlier blocks that still wait for results have the same verdict. -/
def InTurn (cfg : EngineConfig) (is pre : List Input) (i : Input) : Prop :=
  ∀ res ∈ i.result?, ¬Aborts cfg pre → (run cfg pre).1.running ∧
    ∀ b ∈ batches cfg pre, b.1 = res.blockIdx → (answersOf b.1 pre).length + 1 = b.2 →
      ∀ b' ∈ batches cfg pre, b'.1 < b.1 → finished pre b' = false →
        allFailed is b' = allFailed is b

section

variable {cfg : EngineConfig} {is pre post : List Input} {i : Input} {res : SendResult} {k : ℕ}
  {b : ℕ × ℕ}

theorem answersOf_append : answersOf k (pre ++ post) = answersOf k pre ++ answersOf k post :=
  List.filterMap_append

theorem batches_append : batches cfg (pre ++ post) =
    batches cfg pre ++ (engine cfg).readings (Engine.batch cfg) (run cfg pre).1 post :=
  (engine cfg).readings_append ..

theorem batches_snoc : batches cfg (pre ++ [i]) =
    batches cfg pre ++ Engine.batch cfg (run cfg pre).1 i :=
  (engine cfg).readings_snoc ..

theorem run_snoc : (run cfg (pre ++ [i])).1 = ((engine cfg).step (run cfg pre).1 i).1 :=
  (engine cfg).run_snoc_fst ..

theorem aborts_snoc : Aborts cfg (pre ++ [i]) ↔
    Aborts cfg pre ∨ (run cfg (pre ++ [i])).1.abort.tracker.shouldAbort := by
  unfold Aborts
  simp only [List.prefix_concat_iff, or_and_right, exists_or, exists_eq_left, or_comm]

theorem finished_congr (h : answersOf b.1 pre = answersOf b.1 post) :
    finished pre b = finished post b := by
  unfold finished
  rw [h]

/-- The verdicts of the blocks whose results have all come, in block order. -/
def soFar (cfg : EngineConfig) (is pre : List Input) : List Bool :=
  ((sending (batches cfg pre)).filter (finished pre)).map (allFailed is)

/-- What the abort counters say of the run so far, while it has not aborted before. -/
structure Books (cfg : EngineConfig) (is pre : List Input) : Prop where
  threshold : (run cfg pre).1.abort.tracker.threshold = cfg.threshold
  consecutive : (run cfg pre).1.abort.tracker.consecutive = streak (soFar cfg is pre)
  counters : ∀ b ∈ batches cfg pre, finished pre b = false →
    (run cfg pre).1.abort.blockSendTotals.lookup b.1 =
      some ⟨(answersOf b.1 pre).length, (answersOf b.1 pre).countP id, b.2⟩
  ordered : (batches cfg pre).Pairwise fun b b' => b.1 < b'.1
  below : ∀ b ∈ batches cfg pre, b.1 < (run cfg pre).1.blockIndex
  same : (sending (batches cfg pre)).Pairwise fun b' b =>
    finished pre b' = false → finished pre b = true → allFailed is b' = allFailed is b

theorem books_nil : Books cfg is [] where
  threshold := rfl
  consecutive := rfl
  counters _ hb := by cases hb
  ordered := .nil
  below _ hb := by cases hb
  same := .nil

/-- A step that registers no block and counts no result. -/
theorem Books.keep (h : Books cfg is pre) (hbatches : batches cfg post = batches cfg pre)
    (hanswers : ∀ k, answersOf k post = answersOf k pre)
    (habort : (run cfg post).1.abort = (run cfg pre).1.abort)
    (hindex : (run cfg pre).1.blockIndex ≤ (run cfg post).1.blockIndex) :
    Books cfg is post ∧ soFar cfg is post = soFar cfg is pre := by
  have hfinished : finished post = finished pre := funext fun b => finished_congr (hanswers b.1)
  have hword : soFar cfg is post = soFar cfg is pre := by
    unfold soFar
    rw [hbatches, hfinished]
  refine ⟨⟨?_, ?_, ?_, ?_, ?_, ?_⟩, hword⟩
  · rw [habort]
    exact h.threshold
  · rw [habort, hword]
    exact h.consecutive
  · rw [habort, hbatches, hfinished]
    simp only [hanswers]
    exact h.counters
  · rw [hbatches]
    exact h.ordered
  · rw [hbatches]
    exact fun b hb => (h.below b hb).trans_le hindex
  · rw [hbatches, hfinished]
    exact h.same

theorem Answers.of_append (h : EverySplit (fun pre i => ∀ res ∈ i.result?,
    ∃ b ∈ batches cfg pre, b.1 = res.blockIdx) (pre ++ post)) (hk : answersOf k pre ≠ []) :
    ∃ b ∈ batches cfg pre, b.1 = k := by
  obtain ⟨v, hv⟩ := List.exists_mem_of_ne_nil _ hk
  obtain ⟨i, hi, hans⟩ := List.mem_filterMap.mp hv
  obtain ⟨before, after, rfl⟩ := List.append_of_mem hi
  cases i with
  | header hd => cases hans
  | ctrlC => cases hans
  | sendResult res =>
    unfold Input.answerOf? at hans
    dsimp only at hans
    split at hans
    · rename_i hres
      obtain ⟨b, hb, hidx⟩ := h before (.sendResult res) (after ++ post) (by simp) res rfl
      rw [batches_append]
      exact ⟨b, List.mem_append_left _ hb, hidx.trans hres⟩
    · cases hans

theorem sample_of_samples {s : Engine} {hd : Header} (h : s.samples cfg hd) :
    s.sample cfg hd = s.register hd := by
  unfold Engine.samples at h
  unfold Engine.sample
  cases hslot : cfg.schedule.slotMsFor s.blockIndex with
  | none => simp [hslot] at h
  | some slotMs =>
    rw [hslot, Option.any_some, Bool.and_eq_true, decide_eq_true_eq] at h
    dsimp only
    rw [if_neg (not_le.mpr h.2)]
    simp [h.1]

theorem sample_of_not_samples {s : Engine} {hd : Header} (h : ¬s.samples cfg hd) :
    (s.sample cfg hd).abort = s.abort ∧ s.blockIndex ≤ (s.sample cfg hd).blockIndex := by
  unfold Engine.samples at h
  unfold Engine.sample
  cases hslot : cfg.schedule.slotMsFor s.blockIndex with
  | none => exact ⟨rfl, Nat.le_refl _⟩
  | some slotMs =>
    rw [hslot, Option.any_some, Bool.and_eq_true, decide_eq_true_eq] at h
    dsimp only
    split
    · exact ⟨rfl, Nat.le_succ _⟩
    · rename_i hmiss
      have hrouter : cfg.routerParses = false := by
        simpa [not_le.mp hmiss] using h
      simp [hrouter]

/-- `post` is `pre` with one more batch, of the block `b`. -/
structure OneBatch (cfg : EngineConfig) (pre post : List Input) (b : ℕ × ℕ) : Prop where
  position : b.1 = (run cfg pre).1.blockIndex
  batches : batches cfg post = batches cfg pre ++ [b]
  answers : ∀ k, answersOf k post = answersOf k pre
  abort : (run cfg post).1.abort = (run cfg pre).1.abort.register b.1 b.2
  index : (run cfg post).1.blockIndex = b.1 + 1

theorem oneBatch_header {hd : Header} (hrun : (run cfg pre).1.running)
    (hsamples : (run cfg pre).1.samples cfg hd) :
    OneBatch cfg pre (pre ++ [.header hd]) ((run cfg pre).1.blockIndex, hd.signed.length) := by
  have hnext : (run cfg (pre ++ [.header hd])).1 =
      ((run cfg pre).1.resolve hd).1.register hd := by
    rw [run_snoc, Engine.step_header hrun]
    exact sample_of_samples hsamples
  refine ⟨rfl, ?_, fun k => ?_, ?_, ?_⟩
  · rw [batches_snoc]
    simp [Engine.batch, hrun, hsamples]
  · rw [answersOf_append]
    exact List.append_nil _
  · rw [hnext]
    rfl
  · rw [hnext]
    rfl

/-- A block that has just been registered waits for its results. -/
theorem unfinished_of_mem_sending {b' : ℕ × ℕ} (hnone : answersOf b.1 pre = [])
    (hb' : b' ∈ sending [b]) : finished pre b' = false := by
  obtain ⟨hb', hpos⟩ := List.mem_filter.mp hb'
  rw [List.mem_singleton.mp hb'] at hpos ⊢
  simpa [finished, hnone, Nat.pos_iff_ne_zero] using hpos

/-- A registered block leaves the verdicts so far as they are. -/
theorem Books.register (h : Books cfg is pre) (hmore : OneBatch cfg pre post b)
    (hnone : answersOf b.1 pre = []) :
    Books cfg is post ∧ soFar cfg is post = soFar cfg is pre := by
  have hfinished : finished post = finished pre :=
    funext fun b => finished_congr (hmore.answers b.1)
  have hsending : sending (batches cfg post) = sending (batches cfg pre) ++ sending [b] := by
    rw [hmore.batches]
    exact List.filter_append ..
  have hword : soFar cfg is post = soFar cfg is pre := by
    have hnil : (sending [b]).filter (finished pre) = [] :=
      List.filter_eq_nil_iff.mpr fun b' hb' => by simp [unfinished_of_mem_sending hnone hb']
    unfold soFar
    rw [hsending, hfinished, List.filter_append, hnil, List.append_nil]
  have hbelow : ∀ b' ∈ batches cfg pre, b'.1 < b.1 := fun b' hb' => by
    rw [hmore.position]
    exact h.below b' hb'
  refine ⟨⟨?_, ?_, ?_, ?_, ?_, ?_⟩, hword⟩
  · rw [hmore.abort]
    exact h.threshold
  · rw [hmore.abort, hword]
    exact h.consecutive
  · intro b' hb' hwait
    rw [hmore.batches] at hb'
    rw [hfinished] at hwait
    rw [hmore.abort, hmore.answers]
    unfold AbortLoop.register
    dsimp only
    rcases List.mem_append.mp hb' with hb' | hb'
    · rw [AList.lookup_insert_ne (hbelow b' hb').ne]
      exact h.counters b' hb' hwait
    · rw [List.mem_singleton.mp hb', hnone]
      exact AList.lookup_insert _
  · rw [hmore.batches]
    refine List.pairwise_append.mpr ⟨h.ordered, List.pairwise_singleton _ _, ?_⟩
    intro b' hb' b'' hb''
    rw [List.mem_singleton.mp hb'']
    exact hbelow b' hb'
  · intro b' hb'
    rw [hmore.batches] at hb'
    rw [hmore.index]
    refine Nat.lt_succ_of_le ?_
    rcases List.mem_append.mp hb' with hb' | hb'
    · exact (hbelow b' hb').le
    · exact le_of_eq (congrArg Prod.fst (List.mem_singleton.mp hb'))
  · rw [hsending, hfinished]
    refine List.pairwise_append.mpr ⟨h.same, ?_, fun b'' _ b' hb' _ hdone => ?_⟩
    · exact List.Pairwise.filter _ (List.pairwise_singleton _ _)
    · rw [unfinished_of_mem_sending hnone hb'] at hdone
      cases hdone

/-- A head: it registers a block, or does not touch the counters. -/
theorem Books.header (h : Books cfg is pre) (hd : Header)
    (hfresh : ∀ k, answersOf k pre ≠ [] → ∃ b ∈ batches cfg pre, b.1 = k) :
    Books cfg is (pre ++ [.header hd]) ∧
      soFar cfg is (pre ++ [.header hd]) = soFar cfg is pre := by
  by_cases hregisters : (run cfg pre).1.running ∧ (run cfg pre).1.samples cfg hd
  · refine h.register (oneBatch_header hregisters.1 hregisters.2) ?_
    by_contra hne
    obtain ⟨b, hb, hidx⟩ := hfresh _ hne
    exact (h.below b hb).ne hidx
  · have hanswers : ∀ k, answersOf k (pre ++ [.header hd]) = answersOf k pre := by
      intro k
      rw [answersOf_append]
      exact List.append_nil _
    have hbatch : Engine.batch cfg (run cfg pre).1 (.header hd) = [] :=
      if_neg (by simpa using hregisters)
    have hsame : (run cfg (pre ++ [.header hd])).1.abort = (run cfg pre).1.abort ∧
        (run cfg pre).1.blockIndex ≤ (run cfg (pre ++ [.header hd])).1.blockIndex := by
      rw [run_snoc]
      by_cases hrun : (run cfg pre).1.running
      · rw [Engine.step_header hrun]
        exact sample_of_not_samples (s := ((run cfg pre).1.resolve hd).1) fun hsamples =>
          hregisters ⟨hrun, hsamples⟩
      · simp [engine, hrun]
    exact h.keep (by rw [batches_snoc, hbatch, List.append_nil]) hanswers hsame.1 hsame.2

theorem Books.ctrlC (h : Books cfg is pre) : Books cfg is (pre ++ [.ctrlC]) ∧
    soFar cfg is (pre ++ [.ctrlC]) = soFar cfg is pre := by
  refine h.keep ?_ (fun k => ?_) ?_ ?_
  · rw [batches_snoc]
    exact List.append_nil _
  · rw [answersOf_append]
    exact List.append_nil _
  · rw [run_snoc]
    rfl
  · rw [run_snoc]
    exact Nat.le_refl _

/-- The counters of a block after one more result. -/
theorem count_open {s : AbortLoop} {c : BlockSendCounters} (ok : Bool)
    (h : s.blockSendTotals.lookup k = some c) (hopen : (c.receive ok).closed = false) :
    s.count k ok = ({ s with blockSendTotals := s.blockSendTotals.insert k (c.receive ok) }, false) := by
  unfold AbortLoop.count
  simp [h, hopen]

theorem count_closed {s : AbortLoop} {c : BlockSendCounters} (ok : Bool)
    (h : s.blockSendTotals.lookup k = some c) (hclosed : (c.receive ok).closed = true) :
    (s.count k ok).1 = ⟨s.blockSendTotals.erase k,
      s.tracker.recordBlock (c.receive ok).successes (c.receive ok).total⟩ := by
  unfold AbortLoop.count
  simp [h, hclosed]

/-- `post` is `pre` with one more result of the block `b`. -/
structure OneMore (cfg : EngineConfig) (pre post : List Input) (b : ℕ × ℕ) (ok : Bool) : Prop where
  mem : b ∈ batches cfg pre
  self : answersOf b.1 post = answersOf b.1 pre ++ [ok]
  other : ∀ k, k ≠ b.1 → answersOf k post = answersOf k pre
  batches : batches cfg post = batches cfg pre
  abort : (run cfg post).1.abort = ((run cfg pre).1.abort.count b.1 ok).1
  index : (run cfg post).1.blockIndex = (run cfg pre).1.blockIndex

theorem oneMore_sendResult (hrun : (run cfg pre).1.running) (hb : b ∈ batches cfg pre)
    (hidx : b.1 = res.blockIdx) :
    OneMore cfg pre (pre ++ [.sendResult res]) b res.outcome.isAccepted where
  mem := hb
  self := by
    rw [answersOf_append]
    simp [answersOf, Input.answerOf?, hidx]
  other k hk := by
    rw [answersOf_append]
    simp [answersOf, Input.answerOf?, ← hidx, Ne.symm hk]
  batches := by
    rw [batches_snoc]
    exact List.append_nil _
  abort := by
    rw [run_snoc, Engine.step_sendResult hrun, hidx]
    unfold Engine.onResult
    dsimp only
    split <;> rfl
  index := by
    rw [run_snoc, Engine.step_sendResult hrun]
    unfold Engine.onResult
    dsimp only
    split <;> rfl

variable {ok : Bool}

theorem OneMore.finished_other (h : OneMore cfg pre post b ok) (hbooks : Books cfg is pre)
    {x : ℕ × ℕ} (hx : x ∈ TxCutoff.batches cfg pre) (hne : x ≠ b) :
    x.1 ≠ b.1 ∧ finished post x = finished pre x := by
  have hnodup : ((TxCutoff.batches cfg pre).map Prod.fst).Nodup :=
    (List.pairwise_map.mpr hbooks.ordered).imp Nat.ne_of_lt
  have hapart : x.1 ≠ b.1 := fun heq => hne (List.inj_on_of_nodup_map hnodup hx h.mem heq)
  exact ⟨hapart, finished_congr (h.other x.1 hapart)⟩

theorem mem_of_sending {bs : List (ℕ × ℕ)} (h : b ∈ sending bs) : b ∈ bs := (List.mem_filter.mp h).1

/-- The block still waits. -/
theorem Books.waits (h : Books cfg is pre) (hmore : OneMore cfg pre post b ok)
    (hwait : (answersOf b.1 pre).length + 1 < b.2) :
    Books cfg is post ∧ soFar cfg is post = soFar cfg is pre := by
  have hopen : finished pre b = false := decide_eq_false (by omega)
  have hopen' : finished post b = false := by
    refine decide_eq_false ?_
    rw [hmore.self, List.length_append]
    exact Nat.not_le.mpr hwait
  have hfinished : ∀ x ∈ batches cfg pre, finished post x = finished pre x := by
    intro x hx
    by_cases hxb : x = b
    · rw [hxb, hopen, hopen']
    · exact (hmore.finished_other h hx hxb).2
  have hcount := count_open ok (h.counters b hmore.mem hopen) (by
    simp [BlockSendCounters.closed, BlockSendCounters.receive, hwait])
  have habort := hmore.abort.trans (congrArg Prod.fst hcount)
  have hword : soFar cfg is post = soFar cfg is pre := by
    unfold soFar
    rw [hmore.batches, List.filter_congr fun x hx => hfinished x (mem_of_sending hx)]
  refine ⟨⟨?_, ?_, ?_, ?_, ?_, ?_⟩, hword⟩
  · rw [habort]
    exact h.threshold
  · rw [habort, hword]
    exact h.consecutive
  · intro x hx hwaits
    rw [hmore.batches] at hx
    rw [habort]
    dsimp only
    by_cases hxb : x = b
    · rw [hxb, AList.lookup_insert, hmore.self]
      cases ok <;> simp [BlockSendCounters.receive]
    · obtain ⟨hapart, -⟩ := hmore.finished_other h hx hxb
      rw [AList.lookup_insert_ne hapart, hmore.other x.1 hapart]
      exact h.counters x hx (hfinished x hx ▸ hwaits)
  · rw [hmore.batches]
    exact h.ordered
  · rw [hmore.batches, hmore.index]
    exact h.below
  · rw [hmore.batches]
    refine h.same.imp_of_mem fun {x y} hx hy hxy hwaits hdone => hxy ?_ ?_
    · rwa [← hfinished x (mem_of_sending hx)]
    · rwa [← hfinished y (mem_of_sending hy)]

theorem recordBlock_consecutive (t : AbortTracker) (successfulSends : ℕ) {totalSends : ℕ}
    (h : 0 < totalSends) : (t.recordBlock successfulSends totalSends).consecutive =
      if decide (successfulSends = 0) then t.consecutive + 1 else 0 := by
  unfold AbortTracker.recordBlock
  by_cases hzero : successfulSends = 0
  · rw [if_pos ⟨h, hzero⟩, if_pos (decide_eq_true hzero)]
  · rw [if_neg fun hand => hzero hand.2, if_neg (by simpa using hzero)]

theorem all_not_eq (w : List Bool) : (w.all fun ok => !ok) = decide (w.countP id = 0) := by
  rw [Bool.eq_iff_iff, List.all_eq_true, decide_eq_true_eq, List.countP_eq_zero]
  simp

/-- After the last result of the block no other one comes. -/
theorem OneMore.whole (hmore : OneMore cfg pre post b ok)
    (hlast : (answersOf b.1 pre).length + 1 = b.2) (hpart : post <+: is)
    (hall : (answersOf b.1 is).length = b.2) : answersOf b.1 is = answersOf b.1 pre ++ [ok] := by
  obtain ⟨rest, rfl⟩ := hpart
  rw [answersOf_append, hmore.self] at hall ⊢
  have hnil : answersOf b.1 rest = [] := by
    refine List.length_eq_zero_iff.mp ?_
    simp only [List.length_append, List.length_singleton] at hall
    omega
  rw [hnil, List.append_nil]

/-- The verdict of the block comes after those of the blocks that were finished before. -/
theorem Books.soFar_finishes (h : Books cfg is pre) (hmore : OneMore cfg pre post b ok)
    (hpos : 0 < b.2) (hopen : finished pre b = false) (hdone : finished post b = true) :
    soFar cfg is post = soFar cfg is pre ++ [allFailed is b] := by
  have hother : ∀ x ∈ sending (batches cfg pre), x ≠ b → finished post x = finished pre x :=
    fun x hx hne => (hmore.finished_other h (mem_of_sending hx) hne).2
  have hmem : b ∈ sending (batches cfg pre) :=
    List.mem_filter.mpr ⟨hmore.mem, decide_eq_true hpos⟩
  have hordered := h.ordered.filter fun b => decide (0 < b.2)
  have hsame := h.same
  unfold soFar
  rw [hmore.batches]
  change (sending (batches cfg pre)).Pairwise _ at hordered
  obtain ⟨before, after, hsplit⟩ := List.append_of_mem hmem
  rw [hsplit] at hordered hsame hother ⊢
  obtain ⟨-, hordered, hbefore⟩ := List.pairwise_append.mp hordered
  have hsame' : ∀ x ∈ after, finished pre x = true → allFailed is b = allFailed is x :=
    fun x hx => List.rel_of_pairwise_cons (List.pairwise_append.mp hsame).2.1 hx hopen
  refine map_filter_insert (finished post) hopen hdone (fun x hx => ?_) (fun x hx => ?_)
    fun x hx hc => (hsame' x hx hc).symm
  · exact hother x (List.mem_append_left _ hx) fun heq =>
      absurd (hbefore x hx b List.mem_cons_self) (heq ▸ lt_irrefl _)
  · exact hother x (by simp [hx]) fun heq =>
      absurd (List.rel_of_pairwise_cons hordered hx) (heq ▸ lt_irrefl _)

/-- The block is finished, and its verdict counted. -/
theorem Books.finishes (h : Books cfg is pre) (hmore : OneMore cfg pre post b ok)
    (hlast : (answersOf b.1 pre).length + 1 = b.2) (hpart : post <+: is)
    (hall : (answersOf b.1 is).length = b.2)
    (hturn : ∀ b' ∈ batches cfg pre, b'.1 < b.1 → finished pre b' = false →
      allFailed is b' = allFailed is b) :
    Books cfg is post ∧ soFar cfg is post = soFar cfg is pre ++ [allFailed is b] := by
  have hpos : 0 < b.2 := by omega
  have hopen : finished pre b = false := decide_eq_false (by omega)
  have hdone : finished post b = true := by
    refine decide_eq_true ?_
    rw [hmore.self, List.length_append, List.length_singleton]
    exact hlast.ge
  have hwhole := hmore.whole hlast hpart hall
  have hcount := count_closed ok (h.counters b hmore.mem hopen) (by
    simp [BlockSendCounters.closed, BlockSendCounters.receive, hlast, hpos])
  have habort := hmore.abort.trans hcount
  have hverdict : allFailed is b =
      decide ((if ok then (answersOf b.1 pre).countP id + 1 else (answersOf b.1 pre).countP id) = 0) := by
    unfold allFailed
    rw [hwhole, all_not_eq, List.countP_append]
    cases ok <;> simp
  have hwaiting : ∀ x, finished post x = false → x ≠ b := by
    rintro x hwaits rfl
    rw [hdone] at hwaits
    cases hwaits
  have hother : ∀ x ∈ sending (batches cfg pre), x ≠ b → finished post x = finished pre x :=
    fun x hx hne => (hmore.finished_other h (mem_of_sending hx) hne).2
  have hword := h.soFar_finishes hmore hpos hopen hdone
  refine ⟨⟨?_, ?_, ?_, ?_, ?_, ?_⟩, hword⟩
  · rw [habort]
    unfold AbortTracker.recordBlock
    split <;> exact h.threshold
  · rw [habort, hword, streak_snoc, ← h.consecutive, hverdict]
    exact recordBlock_consecutive _ _ hpos
  · intro x hx hwaits
    rw [hmore.batches] at hx
    obtain ⟨hapart, hsame⟩ := hmore.finished_other h hx (hwaiting x hwaits)
    rw [habort, hmore.other x.1 hapart]
    exact (AList.lookup_erase_ne hapart).trans (h.counters x hx (hsame ▸ hwaits))
  · rw [hmore.batches]
    exact h.ordered
  · rw [hmore.batches, hmore.index]
    exact h.below
  · rw [hmore.batches]
    have hpairs := (h.ordered.filter fun b => decide (0 < b.2)).and h.same
    refine hpairs.imp_of_mem fun {x y} hx hy hxy hwaits hfin => ?_
    rw [hother x hx (hwaiting x hwaits)] at hwaits
    by_cases hyb : y = b
    · rw [hyb] at hxy ⊢
      exact hturn x (mem_of_sending hx) hxy.1 hwaits
    · rw [hother y hy hyb] at hfin
      exact hxy.2 hwaits hfin

/-- One step of a run that has not aborted. -/
theorem Books.step (h : Books cfg is pre) (hanswers : Answers cfg is) (hno : ¬Aborts cfg pre)
    (hpart : pre ++ [i] <+: is) (hturn : InTurn cfg is pre i) : Books cfg is (pre ++ [i]) ∧
      (soFar cfg is (pre ++ [i]) = soFar cfg is pre ∨
        ∃ v, soFar cfg is (pre ++ [i]) = soFar cfg is pre ++ [v]) := by
  obtain ⟨rest, hrest⟩ := hpart
  have hsplit : is = pre ++ i :: rest := by simp [← hrest]
  cases i with
  | header hd =>
    obtain ⟨hnext, hword⟩ := h.header hd fun k => Answers.of_append (hsplit ▸ hanswers.registered)
    exact ⟨hnext, Or.inl hword⟩
  | ctrlC => exact ⟨h.ctrlC.1, Or.inl h.ctrlC.2⟩
  | sendResult res =>
    obtain ⟨hrun, hsame⟩ := hturn res rfl hno
    obtain ⟨b, hb, hidx⟩ := hanswers.registered pre (.sendResult res) rest hsplit res rfl
    have hmore := oneMore_sendResult hrun hb hidx
    have hall : (answersOf b.1 is).length = b.2 := by
      refine hanswers.all b ?_
      rw [hsplit, batches_append]
      exact List.mem_append_left _ hb
    have hle : (answersOf b.1 pre).length + 1 ≤ b.2 := by
      rw [← hall, ← hrest, answersOf_append, hmore.self]
      simp
    rcases hle.lt_or_eq with hlt | hlast
    · obtain ⟨hnext, hword⟩ := h.waits hmore hlt
      exact ⟨hnext, Or.inl hword⟩
    · obtain ⟨hnext, hword⟩ := h.finishes hmore hlast ⟨rest, hrest⟩ hall (hsame b hb hidx hlast)
      exact ⟨hnext, Or.inr ⟨_, hword⟩⟩

/-- While the run has not aborted the books are right; when it aborts there are enough failed
blocks in a row. -/
theorem books_run (hthreshold : 0 < cfg.threshold) (hanswers : Answers cfg is)
    (hturn : EverySplit (InTurn cfg is) is) (hpart : pre <+: is) :
    (¬Aborts cfg pre ∧ Books cfg is pre ∧ ∀ p, p <+: soFar cfg is pre → streak p < cfg.threshold) ∨
      Aborts cfg pre ∧ ∃ p, p <+: verdicts cfg is ∧ cfg.threshold ≤ streak p := by
  induction pre using List.reverseRecOn with
  | nil =>
    refine Or.inl ⟨?_, books_nil, fun p hp => ?_⟩
    · rintro ⟨pre, hpre, habort⟩
      rw [List.prefix_nil.mp hpre] at habort
      exact absurd (of_decide_eq_true habort) (Nat.not_le.mpr hthreshold)
    · rw [List.prefix_nil.mp hp]
      exact hthreshold
  | append_singleton pre i ih =>
    rcases ih ((List.prefix_append pre [i]).trans hpart) with ⟨hno, hbooks, hquiet⟩ | ⟨hyes, hrow⟩
    · have hi : InTurn cfg is pre i := by
        obtain ⟨rest, hrest⟩ := hpart
        exact hturn pre i rest (by simp [← hrest])
      obtain ⟨hnext, hword⟩ := hbooks.step hanswers hno hpart hi
      by_cases habort : (run cfg (pre ++ [i])).1.abort.tracker.shouldAbort
      · refine Or.inr ⟨aborts_snoc.mpr (Or.inr habort), ?_⟩
        have hstreak : cfg.threshold ≤ streak (soFar cfg is (pre ++ [i])) := by
          rw [← hnext.consecutive, ← hnext.threshold]
          exact of_decide_eq_true habort
        obtain ⟨p, hp, hle⟩ := exists_streak_of_filter hnext.same hthreshold hstreak
        refine ⟨p, hp.trans ?_, hle⟩
        obtain ⟨rest, rfl⟩ := hpart
        unfold verdicts sending
        rw [@batches_append cfg (pre ++ [i]) rest, List.filter_append, List.map_append]
        exact List.prefix_append _ _
      · refine Or.inl ⟨fun h => (aborts_snoc.mp h).elim hno habort, hnext, fun p hp => ?_⟩
        have hlt : streak (soFar cfg is (pre ++ [i])) < cfg.threshold := by
          rw [← hnext.consecutive, ← hnext.threshold]
          exact Nat.not_le.mp fun hle => habort (decide_eq_true hle)
        rcases hword with hsame | ⟨v, hsnoc⟩
        · exact hquiet p (hsame ▸ hp)
        · rw [hsnoc] at hp hlt
          rcases List.prefix_concat_iff.mp hp with rfl | hp
          · exact hlt
          · exact hquiet p hp
    · exact Or.inr ⟨aborts_snoc.mpr (Or.inl hyes), hrow⟩

end

/-- Where the main loop handles the results up to an abort, and no block finishes before an
earlier one with the other verdict, the run aborts iff enough blocks in a row fail. -/
theorem aborts_iff (cfg : EngineConfig) (is : List Input) (hthreshold : 0 < cfg.threshold)
    (hanswers : Answers cfg is) (hturn : EverySplit (InTurn cfg is) is) :
    Aborts cfg is ↔ List.replicate cfg.threshold true <:+: verdicts cfg is := by
  rw [← exists_streak_iff]
  rcases books_run hthreshold hanswers hturn (List.prefix_refl is) with
    ⟨hno, -, hquiet⟩ | ⟨hyes, hrow⟩
  · refine iff_of_false hno ?_
    rintro ⟨p, hp, hle⟩
    refine absurd hle (Nat.not_le.mpr (hquiet p ?_))
    have hall : (sending (batches cfg is)).filter (finished is) = sending (batches cfg is) :=
      List.filter_eq_self.mpr fun b hb =>
        decide_eq_true (hanswers.all b (mem_of_sending hb)).ge
    unfold soFar
    rw [hall]
    exact hp
  · exact iff_of_true hyes hrow

def abortConfig : EngineConfig where
  lookahead := 2
  threshold := 2
  schedule := ⟨⟨0, 1, 1, 5⟩, Nat.zero_le 1, Nat.one_pos, by decide⟩
  routerParses := true

/-- Each block has one send. -/
def abortHeader (n : ℕ) : Input := .header ⟨n, n, 1, some [], 0, [⟨"w", n, n⟩]⟩

def abortResult (k : ℕ) (outcome : SendOutcome) : Input :=
  .sendResult ⟨"w", k + 1, k, k + 1, k + 1, 0, 0, k, 1000, 1000, 0, 0, outcome⟩

def failure : SendOutcome := .rejected (-32000) "nonce too low"

/-- Two failed blocks, each finished before the next one starts. -/
def failingInOrder : List Input :=
  [abortHeader 1, abortResult 0 failure, abortHeader 2, abortResult 1 failure]

theorem aborts_iff_failingInOrder : Aborts abortConfig failingInOrder := by
  have hanswers : Answers abortConfig failingInOrder := by
    refine ⟨by decide, ?_⟩
    rw [EverySplit.iff_forall_take]
    decide
  have hturn : EverySplit (fun pre i => ∀ res ∈ i.result?, (run abortConfig pre).1.running ∧
      ∀ b ∈ batches abortConfig pre, b.1 = res.blockIdx → (answersOf b.1 pre).length + 1 = b.2 →
        ∀ b' ∈ batches abortConfig pre, b'.1 < b.1 → finished pre b' = false →
          allFailed failingInOrder b' = allFailed failingInOrder b) failingInOrder := by
    rw [EverySplit.iff_forall_take]
    decide
  exact (aborts_iff abortConfig failingInOrder (by decide) hanswers
    fun pre i post hsplit res hres _ => hturn pre i post hsplit res hres).mpr (by decide)

/-- The block between two failed ones is not finished when they are. -/
def failingAround : List Input :=
  [abortHeader 1, abortHeader 2, abortHeader 3, abortResult 0 failure, abortResult 2 failure,
    abortResult 1 .accepted]

theorem late_success_aborts : ¬∀ (cfg : EngineConfig) (is : List Input), 0 < cfg.threshold →
    Answers cfg is →
      (Aborts cfg is ↔ List.replicate cfg.threshold true <:+: verdicts cfg is) := by
  intro h
  have hanswers : Answers abortConfig failingAround := by
    refine ⟨by decide, ?_⟩
    rw [EverySplit.iff_forall_take]
    decide
  have haborts : Aborts abortConfig failingAround :=
    ⟨failingAround.take 5, List.take_prefix 5 _, by decide⟩
  exact absurd ((h abortConfig failingAround (by decide) hanswers).mp haborts) (by decide)

end SolanaBench.TxCutoff
