import SolanaBench.EntryComparator.Correlator
import SolanaBench.Lib.BatchWriter

/-! The Parquet writer of the entry comparator: it collects the records in builders and writes
them in row groups. The columns are the fields of the record, and a batch that the file refuses
is logged and dropped. -/
namespace SolanaBench.EntryComparator.Writer

structure WriterConfig where
  rowGroupSize : ℕ
  flushInterval : Duration

abbrev State := BatchWriter.State DiffRecord

abbrev Input := BatchWriter.Input DiffRecord

/-- `run_loop` up to the end of the channel. -/
def machine (cfg : WriterConfig) : EventMachine State Input Empty :=
  BatchWriter.machine cfg.rowGroupSize cfg.flushInterval

/-- `run_loop` from `start` on until the channel is disconnected; `last` says whether the file
takes the batch that is left then. -/
def runLoop (cfg : WriterConfig) (start : Instant) (ws : List Input) (last : Bool) : State :=
  BatchWriter.close ((machine cfg).run { lastFlush := start } ws).1 last

/-- What the writer received. -/
def received (ws : List Input) : List DiffRecord := ws.filterMap BatchWriter.Input.row?

theorem batched_runLoop (cfg : WriterConfig) (start : Instant) (ws : List Input) (last : Bool) :
    BatchWriter.Batched cfg.rowGroupSize (received ws) (runLoop cfg start ws last) ∧
      (runLoop cfg start ws last).buffer = [] :=
  BatchWriter.batched_close (BatchWriter.batched_run cfg.rowGroupSize cfg.flushInterval start ws) last

/-- When the loop was last woken up. -/
def lastTime (start : Instant) (ws : List Input) : Instant :=
  (BatchWriter.times start ws).getLast (List.cons_ne_nil _ _)

/-- The rows that are in no batch yet. -/
def waiting (cfg : WriterConfig) (start : Instant) (ws : List Input) : List (DiffRecord × Instant) :=
  (BatchWriter.arrivals ws).drop ((machine cfg).run { lastFlush := start } ws).1.handed

/-- What the writer does with its rows, whatever the file takes. -/
structure Lawful (cfg : WriterConfig) (start : Instant) (ws : List Input) (last : Bool) : Prop where
  whole : (runLoop cfg start ws last).batches.flatMap Prod.fst = received ws
  sizes : ∀ b ∈ (runLoop cfg start ws last).batches,
    b.1 ≠ [] ∧ b.1.length ≤ max cfg.rowGroupSize 1
  taken : (BatchWriter.written (runLoop cfg start ws last)).Sublist (received ws)
  prompt : ∀ pre, pre <+: ws → ∀ a ∈ waiting cfg start pre,
    Instant.saturatingDurationSince (lastTime start pre) a.2 ≤ cfg.flushInterval

/-- Every row is in one batch, in order, and no batch is empty or longer than a row group. After
no iteration of the loop has a row waited longer than the flush interval. -/
theorem writer_lawful (cfg : WriterConfig) (start : Instant) (ws : List Input) (last : Bool)
    (hclock : (BatchWriter.times start ws).Pairwise (· ≤ ·)) : Lawful cfg start ws last := by
  obtain ⟨hbatched, hbuffer⟩ := batched_runLoop cfg start ws last
  refine ⟨?_, fun b hb => ⟨hbatched.nonempty b hb, hbatched.short b hb⟩,
    BatchWriter.written_sublist hbatched, fun pre hpre => ?_⟩
  · have hkept := hbatched.kept
    rw [hbuffer, List.append_nil] at hkept
    exact hkept
  · have hsub : (BatchWriter.times start pre).Sublist (BatchWriter.times start ws) :=
      ((hpre.sublist.map _).cons_cons start)
    exact (BatchWriter.fresh_run cfg.rowGroupSize cfg.flushInterval start pre
      (hclock.sublist hsub)).waits

def sampleRecord : DiffRecord where
  slot := 7
  entryIndex := 0
  numHashes := 12500
  source := .ysOnly
  ysObservedNs := some 1
  ssFirstShredNs := none
  ssFecCompleteNs := none
  ysHash := some 10
  ssHash := none
  ysTxCount := some 0
  ssTxCount := none
  hashMatch := false
  sigSetMatch := none
  leaderPubkey := none
  ysSignatures := []
  ssSignatures := []

/-- The second row comes when the first has waited too long, and the batch of both is refused. -/
def sampleInputs : List Input := [.row sampleRecord 1 true, .row sampleRecord 9 false]

theorem writer_lawful_sample : Lawful ⟨4, 5⟩ 0 sampleInputs true ∧
    (runLoop ⟨4, 5⟩ 0 sampleInputs true).batches.map Prod.snd = [false] :=
  ⟨writer_lawful ⟨4, 5⟩ 0 sampleInputs true (by decide), by decide +kernel⟩

end SolanaBench.EntryComparator.Writer
