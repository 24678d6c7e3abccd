import SolanaBench.TickTrigger.PohOrder
import SolanaBench.TickTrigger.PohReorder

/-! Reordering is transparent: a run over complete slots that is disturbed by no early
seal, no timeout and no full buffer emits of each slot what it emits when the entries
of the slot arrive alone and in order. -/
namespace SolanaBench.TickTrigger.PohSupervisor

/-- The arrivals of slot `k`, in order. -/
def arrivalsOf (k : ℕ) (is : List Input) : List MergedEntry :=
  is.filterMap fun
    | .arrival m _ => if m.observation.slot = k then some m else none
    | .sweep _ => none

/-- How long the gap before the first buffered entry has been waited for. -/
def gapAge (now : Instant) (s : PohSlot) : Option Duration :=
  s.pending.firstKeyValue.map fun e => now.saturatingDurationSince e.2.bufferedAt

/-- The input, after `pre`, meets a buffer with room, gaps that are `young`, and seals
no slot that waits for an entry. -/
def Undisturbed (cfg : Config) (young : Duration → Prop) (E : ℕ → List MergedEntry)
    (pre : List Input) : Input → Prop
  | .arrival m _ =>
    let s := (((machine cfg).run {} pre).1.slots.get? m.observation.slot).getD {}
    s.nextExpectedIdx < m.observation.entryIndex → s.pending.size < cfg.maxPendingPerSlot
  | .sweep now =>
    let st := ((machine cfg).run {} pre).1
    ∀ e ∈ st.slots.entries, (∀ age ∈ gapAge now e.2, young age) ∧
      (lagsBehind cfg st.maxSlot e.1 = true → ∀ m ∈ E e.1, m ∈ arrivalsOf e.1 pre)

instance (cfg : Config) (young : Duration → Prop) [DecidablePred young]
    (E : ℕ → List MergedEntry) (pre : List Input) (i : Input) :
    Decidable (Undisturbed cfg young E pre i) :=
  match i with
  | .arrival _ _ => inferInstanceAs (Decidable (_ → _))
  | .sweep _ => inferInstanceAs (Decidable (∀ e ∈ _, _ ∧ _))

/-- The inputs are an interleaved permutation of the complete lists `E`, undisturbed. -/
structure Reordering (cfg : Config) (young : Duration → Prop) (E : ℕ → List MergedEntry)
    (is : List Input) : Prop where
  complete : ∀ k, Complete k (E k)
  perm : ∀ k, (arrivalsOf k is).Perm (E k)
  undisturbed : EverySplit (Undisturbed cfg young E) is

/-- The entries arrive alone and in index order. -/
def alone (E : List MergedEntry) (clock : ℕ → Instant) : List Input :=
  E.mapIdx fun i m => .arrival m (clock i)

/-- No slot shows that its entries were reordered. -/
def Transparent (cfg : Config) (E : ℕ → List MergedEntry) (is : List Input) (now : Instant) :
    Prop :=
  (∀ k clock now', (eventsOf k (runLoop cfg is now)).map OrderedEvent.view =
    (runLoop cfg (alone (E k) clock) now').map OrderedEvent.view) ∧
  missingsIn (runLoop cfg is now) = []

/-! ## One slot along a run -/

/-- What the slot sends in all. -/
def inOrderViews (k : ℕ) (E : List MergedEntry) : List View :=
  let r := inOrder.run {} E
  if E = [] then [] else r.2 ++ [.terminal (terminalEvent r.1 k)]

/-- Where slot `k` stands after the arrivals `A`, with `vs` sent so far. -/
inductive Progress (k : ℕ) (E A : List MergedEntry) : Option PohSlot → List View → Prop
  | unseen (hA : A = []) : Progress k E A none []
  | active (s vs j) (hu : s.sealed = false) (hA : A ≠ []) (h : Reordered E A j s vs)
      (hw : Waiting E A j) : Progress k E A (some s) vs
  | closed (o) (hA : A ≠ []) (ho : ∀ s, o = some s → s.sealed = true) (hall : ∀ m ∈ E, m ∈ A) :
      Progress k E A o (inOrderViews k E)

section Slot

variable {cfg : Config} {now : Instant} {k : ℕ} {E A : List MergedEntry} {s : PohSlot}
  {vs : List View} {P : MergedEntry → Prop}

theorem view_terminalEvent (s : PohSlot) (k : ℕ) :
    (terminalEvent s k).view = .terminal (terminalEvent s k) := by
  unfold terminalEvent
  split_ifs <;> rfl

/-- Sealing a slot with an empty buffer sends the terminal event alone. -/
theorem sealSlot_of_pending_nil (cfg : Config) (k : ℕ) (now : Instant)
    (hp : s.pending.entries = []) :
    (sealSlot cfg s k now).1 = { s with sealed := true } ∧
      Effect.sent (sealSlot cfg s k now).2 = [terminalEvent s k] := by
  have hlast := SortedMap.lastKeyValue_eq_none.mpr hp
  have hslot : (sealSlot cfg s k now).1 = { s with sealed := true } := by
    unfold sealSlot
    rw [hlast]
  rw [sent_sealSlot, hslot, hlast]
  exact ⟨rfl, rfl⟩

/-- Phase A leaves a slot alone whose gaps are young. -/
theorem sweepGaps_of_young (hr : Resting P s)
    (hyoung : ∀ age ∈ gapAge now s, age < cfg.entryTimeout) :
    ifUnsealed (fun s => (sweepGaps cfg k now).exec s) s = (s, []) := by
  unfold ifUnsealed
  split_ifs
  · rfl
  · refine (sweepGaps cfg k now).exec_of_none ?_
    simp only [sweepGaps]
    cases he : s.pending.firstKeyValue with
    | none => rfl
    | some e =>
      have hgap := hr.beyondNext e (SortedMap.firstKeyValue_mem he)
      have hage := hyoung _ (by rw [gapAge, he]; rfl)
      dsimp only
      rw [if_neg hgap.ne', if_neg (not_le.mpr hage)]

theorem sweepSlot_sealed (hu : s.sealed = true) (maxSlot : ℕ) :
    sweepSlot cfg k maxSlot now s = (s, []) := by
  unfold sweepSlot
  rw [ifUnsealed_sealed hu]
  dsimp only
  rw [ifUnsealed_sealed hu]
  split_ifs <;> rfl

/-- All entries have arrived, so the views are those of the whole list. -/
theorem Reordered.views_closed {j : ℕ} (h : Reordered E A j s vs) (hw : Waiting E A j)
    (hA : A ≠ []) (hsub : ∀ m ∈ A, m ∈ E) (hall : ∀ m ∈ E, m ∈ A) :
    vs ++ [(terminalEvent s k).view] = inOrderViews k E := by
  obtain ⟨rfl, -⟩ := h.finished hw hall
  obtain ⟨m, hm⟩ := List.exists_mem_of_ne_nil A hA
  have hne : E ≠ [] := List.ne_nil_of_mem (hsub m hm)
  have hrun : inOrderAt E E.length = inOrder.run {} E := by
    unfold inOrderAt
    rw [List.take_length]
  have hviews := h.views
  have hterm := h.agrees.terminalEvent k
  rw [hrun] at hviews hterm
  unfold inOrderViews
  rw [if_neg hne, view_terminalEvent, hterm, hviews]

/-- A sweep seals the slot in its final state or leaves it alone. -/
theorem Progress.sweep {o : Option PohSlot} (h : Progress k E A o vs) (cfg : Config)
    (maxSlot : ℕ) (now : Instant)
    (hsub : ∀ m ∈ A, m ∈ E) (hr : ∀ s, o = some s → Resting P s)
    (hyoung : ∀ s, o = some s → ∀ age ∈ gapAge now s, age < cfg.entryTimeout)
    (hlag : ∀ s, o = some s → lagsBehind cfg maxSlot k = true → ∀ m ∈ E, m ∈ A) :
    Progress k E A ((o.map fun s => (sweepSlot cfg k maxSlot now s).1).filter (keeps cfg k maxSlot))
      (vs ++ ((o.map fun s => Effect.sent (sweepSlot cfg k maxSlot now s).2).getD []).map
        OrderedEvent.view) := by
  cases h with
  | unseen hA => exact .unseen hA
  | active s _ j hu hA h hw =>
    have hgaps : ifUnsealed (fun s => (sweepGaps cfg k now).exec s) s = (s, []) :=
      sweepGaps_of_young (hr s rfl) (hyoung s rfl)
    by_cases hl : lagsBehind cfg maxSlot k = true
    · have hall := hlag s rfl hl
      obtain ⟨hslot, hsent⟩ := sealSlot_of_pending_nil cfg k now (h.finished hw hall).2
      have hsweep : sweepSlot cfg k maxSlot now s = sealSlot cfg s k now := by
        unfold sweepSlot
        rw [hgaps]
        dsimp only
        rw [if_pos hl, ifUnsealed_unsealed hu]
        rfl
      have hviews := h.views_closed (k := k) hw hA hsub hall
      simp only [Option.map_some, Option.getD_some, hsweep, hsent, hslot, List.map_singleton, hviews]
      refine .closed _ hA (fun t ht => ?_) hall
      rw [← Option.some.inj (Option.filter_eq_some_iff.mp ht).1]
    · have hsweep : sweepSlot cfg k maxSlot now s = (s, []) := by
        unfold sweepSlot
        rw [hgaps]
        dsimp only
        rw [if_neg hl]
      have hkeep : keeps cfg k maxSlot s = true := by simp [keeps, hu]
      simp only [Option.map_some, Option.getD_some, hsweep, Effect.sent_nil, List.map_nil,
        List.append_nil]
      rw [Option.filter_some_pos hkeep]
      exact .active s _ j hu hA h hw
  | closed _ hA ho hall =>
    have hquiet : ((o.map fun s => Effect.sent (sweepSlot cfg k maxSlot now s).2).getD []) = [] := by
      cases o with
      | none => rfl
      | some s =>
        rw [Option.map_some, sweepSlot_sealed (ho s rfl)]
        rfl
    rw [hquiet, List.map_nil, List.append_nil]
    refine .closed _ hA (fun t ht => ?_) hall
    obtain ⟨s, hs, hst⟩ := Option.map_eq_some_iff.mp (Option.filter_eq_some_iff.mp ht).1
    rw [sweepSlot_sealed (ho s hs)] at hst
    rw [← hst]
    exact ho s hs

/-- A new arrival of the slot finds it unsealed and keeps its entries in order. -/
theorem Progress.arrival {o : Option PohSlot} {m : MergedEntry} (hE : Complete k E)
    (h : Progress k E A o vs) (hm : m ∈ E) (hnew : m ∉ A) (hr : Resting P (o.getD {})) (hP : P m)
    (hroom : (o.getD {}).nextExpectedIdx < m.observation.entryIndex →
      (o.getD {}).pending.size < cfg.maxPendingPerSlot) :
    Progress k E (A ++ [m]) (some (processSlot cfg (o.getD {}) m now).1)
      (vs ++ (Effect.sent (processSlot cfg (o.getD {}) m now).2).map OrderedEvent.view) := by
  have hsealed := (processSlot_trace (Q := fun _ _ => True) (k := k) cfg now hr hP
    fun _ => trivial).2.2
  have hopen : (o.getD {}).sealed = false ∧
      ∃ j, Reordered E A j (o.getD {}) vs ∧ Waiting E A j := by
    cases h with
    | unseen hA =>
      subst hA
      exact ⟨rfl, 0, reordered_new E, fun _ _ => List.not_mem_nil⟩
    | active s _ j hu hA h hw => exact ⟨hu, j, h, hw⟩
    | closed _ hA ho hall => exact absurd (hall m hm) hnew
  obtain ⟨hu, j, hj, hw⟩ := hopen
  obtain ⟨j', hj', hw'⟩ := hj.arrival now hE hw hu hm hnew hroom
  exact .active _ _ j' (hsealed.trans hu) (by simp) hj' hw'

end Slot

/-! ## Whole runs -/

/-- A run that is on its way to bring in the complete lists `E`. -/
structure Feeds (cfg : Config) (E : ℕ → List MergedEntry) (is : List Input) : Prop where
  complete : ∀ k, Complete k (E k)
  nodup : ∀ k, (arrivalsOf k is).Nodup
  mem : ∀ k, ∀ m ∈ arrivalsOf k is, m ∈ E k
  undisturbed : EverySplit (Undisturbed cfg (· < cfg.entryTimeout) E) is

section Runs

variable {cfg : Config} {E : ℕ → List MergedEntry} {is : List Input} {k : ℕ}

@[simp] theorem arrivalsOf_append (k : ℕ) (is js : List Input) :
    arrivalsOf k (is ++ js) = arrivalsOf k is ++ arrivalsOf k js := List.filterMap_append

@[simp] theorem arrivalsOf_sweep (k : ℕ) (now : Instant) : arrivalsOf k [.sweep now] = [] := rfl

theorem arrivalsOf_arrival (k : ℕ) (m : MergedEntry) (now : Instant) :
    arrivalsOf k [.arrival m now] = if m.observation.slot = k then [m] else [] := by
  unfold arrivalsOf
  by_cases h : m.observation.slot = k <;> simp [h]

theorem Reordering.feeds (h : Reordering cfg (· < cfg.entryTimeout) E is) : Feeds cfg E is where
  complete := h.complete
  nodup k := (h.perm k).nodup_iff.mpr (h.complete k).nodup
  mem k _ hm := (h.perm k).mem_iff.mp hm
  undisturbed := h.undisturbed

theorem Feeds.of_append {js : List Input} (h : Feeds cfg E (is ++ js)) : Feeds cfg E is where
  complete := h.complete
  nodup k := by
    have hn := h.nodup k
    rw [arrivalsOf_append] at hn
    exact hn.of_append_left
  mem k m hm := h.mem k m (by
    rw [arrivalsOf_append]
    exact List.mem_append_left _ hm)
  undisturbed := h.undisturbed.of_append

/-- The run lemma: every slot makes progress on its own list. -/
theorem progress_run (h : Feeds cfg E is) (k : ℕ) :
    Progress k (E k) (arrivalsOf k is) (((machine cfg).run {} is).1.slots.get? k)
      ((eventsOf k (Effect.sent ((machine cfg).run {} is).2)).map OrderedEvent.view) := by
  induction is using List.reverseRecOn with
  | nil => exact .unseen rfl
  | append_singleton is i ih =>
    have hpre := ih h.of_append
    have hkept := kept_run cfg is
    have hi := (EverySplit.snoc_iff.mp h.undisturbed).2
    have hnd := h.nodup k
    have hmem := h.mem k
    rw [arrivalsOf_append] at hnd hmem ⊢
    rw [EventMachine.run_snoc_fst, EventMachine.run_snoc_snd, Effect.sent_append,
      eventsOf_append, List.map_append]
    generalize hst : ((machine cfg).run {} is).1 = st at *
    cases i with
    | sweep now =>
      have hout := eventsOf_sweep cfg now hkept.resting k
      have hslot : (sweep cfg st now).1.slots.get? k = _ := get?_sweep cfg now k
      have hstep : (machine cfg).step st (.sweep now) = sweep cfg st now := rfl
      rw [arrivalsOf_sweep, List.append_nil] at hmem ⊢
      have hquiet : ∀ s, st.slots.get? k = some s → (∀ age ∈ gapAge now s, age < cfg.entryTimeout) ∧
          (lagsBehind cfg st.maxSlot k = true → ∀ m ∈ E k, m ∈ arrivalsOf k is) := by
        intro s hs
        simp only [Undisturbed, hst] at hi
        exact hi _ (SortedMap.get?_eq_some_iff.mp hs)
      rw [hstep, hout, hslot]
      exact hpre.sweep cfg st.maxSlot now hmem (hkept.resting k) (fun s hs => (hquiet s hs).1)
        (fun s hs => (hquiet s hs).2)
    | arrival m now =>
      obtain ⟨hr, -⟩ := hkept.getD m.observation.slot
      obtain ⟨htr, -, -⟩ := processSlot_trace (Q := fun _ _ => True) (k := m.observation.slot) cfg now
        hr ⟨rfl, trivial⟩ fun _ => trivial
      have hslots := slots_arrival cfg st m now
      have hout : ((machine cfg).step st (.arrival m now)).2 =
          (processSlot cfg ((st.slots.get? m.observation.slot).getD {}) m now).2 := rfl
      rw [arrivalsOf_arrival] at hnd hmem ⊢
      rw [hslots, hout]
      by_cases hk : m.observation.slot = k
      · subst hk
        rw [if_pos rfl] at hnd hmem ⊢
        have hnew : m ∉ arrivalsOf m.observation.slot is := fun hold =>
          List.disjoint_of_nodup_append hnd hold (List.mem_singleton.mpr rfl)
        have hroom := hi
        simp only [Undisturbed, hst] at hroom
        rw [SortedMap.get?_insert_self, eventsOf_eq_self (trace_slot htr)]
        exact hpre.arrival (h.complete _) (hmem m (by simp)) hnew hr ⟨rfl, trivial⟩ hroom
      · have hne : k ≠ m.observation.slot := fun h => hk h.symm
        rw [if_neg hk, List.append_nil, SortedMap.get?_insert_of_ne hne,
          eventsOf_eq_nil hk (trace_slot htr), List.map_nil, List.append_nil]
        exact hpre

/-- With everything in, the shutdown completes the views of the slot. -/
theorem views_runLoop (h : Reordering cfg (· < cfg.entryTimeout) E is) (now : Instant) (k : ℕ) :
    (eventsOf k (runLoop cfg is now)).map OrderedEvent.view = inOrderViews k (E k) := by
  have hpre := progress_run h.feeds k
  have hkept := kept_run cfg is
  have hsub := h.feeds.mem k
  have hall : ∀ m ∈ E k, m ∈ arrivalsOf k is := fun m hm => (h.perm k).mem_iff.mpr hm
  unfold runLoop
  dsimp only
  generalize ((machine cfg).run {} is).2 = os at *
  generalize ((machine cfg).run {} is).1 = st at *
  -- no gap is left to time out
  have hyoung : ∀ s, st.slots.get? k = some s → ∀ age ∈ gapAge now s, age < cfg.entryTimeout := by
    intro s hs age hage
    have hp : s.pending.firstKeyValue = none := by
      rw [hs] at hpre
      generalize (eventsOf k (Effect.sent os)).map OrderedEvent.view = vs at hpre
      cases hpre with
      | active _ _ j hu hA h hw => exact SortedMap.firstKeyValue_eq_none.mpr (h.finished hw hall).2
      | closed _ hA ho _ =>
        exact SortedMap.firstKeyValue_eq_none.mpr (hkept.sealedEmpty k s hs (ho s rfl))
    rw [gapAge, hp] at hage
    cases hage
  have hswept := hpre.sweep cfg st.maxSlot now hsub (hkept.resting k) hyoung fun _ _ _ => hall
  rw [Effect.sent_append, eventsOf_append, eventsOf_shutdown cfg now hkept.resting, ← List.append_assoc,
    List.map_append, List.map_append, eventsOf_sweep cfg now hkept.resting]
  rw [← get?_sweep] at hswept
  generalize (eventsOf k (Effect.sent os)).map OrderedEvent.view ++ _ = vs at *
  generalize (PohSupervisor.sweep cfg st now).1.slots.get? k = o at *
  cases hswept with
  | unseen hA =>
    have hnil : E k = [] := List.eq_nil_iff_forall_not_mem.mpr fun m hm => by
      have hm' := hall m hm
      rw [hA] at hm'
      exact List.not_mem_nil hm'
    simp [inOrderViews, hnil]
  | active s _ j hu hA h hw =>
    obtain ⟨-, hsent⟩ := sealSlot_of_pending_nil cfg k now (h.finished hw hall).2
    rw [Option.map_some, ifUnsealed_unsealed hu, hsent]
    exact h.views_closed hw hA hsub hall
  | closed _ hA ho _ =>
    cases o with
    | none => simp
    | some s =>
      rw [Option.map_some, ifUnsealed_sealed (ho s rfl)]
      simp

/-! ## The entries of one slot, alone and in order -/

/-- The lists of a run in which only slot `k` gets entries. -/
def only (k : ℕ) (E : List MergedEntry) : ℕ → List MergedEntry :=
  Function.update (fun _ => []) k E

variable {F : List MergedEntry} {m : MergedEntry}

theorem alone_snoc (F : List MergedEntry) (m : MergedEntry) (clock : ℕ → Instant) :
    alone (F ++ [m]) clock = alone F clock ++ [.arrival m (clock F.length)] := by
  simp [alone, List.mapIdx_append]

theorem Complete.of_append {G : List MergedEntry} (h : Complete k (F ++ G)) : Complete k F := by
  intro i m hm
  refine h i m ?_
  rw [List.getElem?_append_left (List.getElem?_eq_some_iff.mp hm).1]
  exact hm

theorem Complete.last (h : Complete k (F ++ [m])) :
    m.observation.slot = k ∧ m.observation.entryIndex.val = F.length :=
  h F.length m (by simp)

theorem complete_only (h : Complete k F) (j : ℕ) : Complete j (only k F j) := by
  unfold only
  by_cases hj : j = k
  · subst hj
    rw [Function.update_self]
    exact h
  · rw [Function.update_of_ne hj]
    intro i m hm
    simp at hm

theorem arrivalsOf_alone (h : Complete k F) (clock : ℕ → Instant) (j : ℕ) :
    arrivalsOf j (alone F clock) = only k F j := by
  induction F using List.reverseRecOn with
  | nil => by_cases hj : j = k <;> simp [only, hj, alone, arrivalsOf]
  | append_singleton F m ih =>
    have hslot := h.last.1
    rw [alone_snoc, arrivalsOf_append, ih h.of_append, arrivalsOf_arrival, hslot]
    unfold only
    by_cases hj : j = k
    · subst hj
      simp
    · have hkj : ¬k = j := fun h => hj h.symm
      simp [hj, hkj]

/-- Without sweeps a slot stays open once it has an entry. -/
theorem alone_open (cfg : Config) (h : Complete k F) (clock : ℕ → Instant) :
    let o := ((machine cfg).run {} (alone F clock)).1.slots.get? k
    (o = none → F = []) ∧ ∀ s, o = some s → s.sealed = false := by
  induction F using List.reverseRecOn with
  | nil => exact ⟨fun _ => rfl, fun s hs => by simp [alone] at hs⟩
  | append_singleton F m ih =>
    have hslot := h.last.1
    have hopen := (ih h.of_append).2
    obtain ⟨hr, -⟩ := (kept_run cfg (alone F clock)).getD k
    have hsealed := (processSlot_trace (Q := fun _ _ => True) (k := k) cfg (clock F.length) hr
      (m := m) ⟨hslot, trivial⟩ fun _ => trivial).2.2
    have hget : ((machine cfg).run {} (alone (F ++ [m]) clock)).1.slots.get? k =
        some (processSlot cfg ((((machine cfg).run {} (alone F clock)).1.slots.get? k).getD {}) m
          (clock F.length)).1 := by
      rw [alone_snoc, EventMachine.run_append_fst, ← hslot]
      exact SortedMap.get?_insert_self _ _
    intro o
    have ho : o = _ := hget
    refine ⟨fun hnone => ?_, fun s hs => ?_⟩
    · rw [ho] at hnone
      cases hnone
    · rw [ho] at hs
      rw [← Option.some.inj hs, hsealed]
      cases hcur : ((machine cfg).run {} (alone F clock)).1.slots.get? k with
      | none => rfl
      | some t => exact hopen t hcur

/-- Entries in order never wait, so nothing disturbs them. -/
theorem undisturbed_alone (cfg : Config) (young : Duration → Prop) (h : Complete k F)
    (clock : ℕ → Instant) (E : ℕ → List MergedEntry) :
    EverySplit (Undisturbed cfg young E) (alone F clock) := by
  induction F using List.reverseRecOn generalizing young E with
  | nil => exact EverySplit.nil
  | append_singleton F m ih =>
    have hF := h.of_append
    obtain ⟨hslot, hidx⟩ := h.last
    have hfeeds : Feeds cfg (only k F) (alone F clock) := by
      refine ⟨complete_only hF, fun j => ?_, fun j x hx => ?_, ih _ hF _⟩
      · rw [arrivalsOf_alone hF]
        exact (complete_only hF j).nodup
      · rw [arrivalsOf_alone hF] at hx
        exact hx
    have hprog := progress_run hfeeds k
    obtain ⟨hnone, hopen⟩ := alone_open cfg hF clock
    rw [alone_snoc]
    refine (ih young hF E).snoc ?_
    intro hlt
    rw [hslot] at hlt
    generalize hs : (((machine cfg).run {} (alone F clock)).1.slots.get? k).getD {} = s at hlt
    rw [arrivalsOf_alone hF] at hprog
    have hFk : only k F k = F := Function.update_self ..
    rw [hFk] at hprog
    have hnext : s.nextExpectedIdx.val = F.length % 2 ^ 32 := by
      generalize ((machine cfg).run {} (alone F clock)).1.slots.get? k = o at *
      generalize (eventsOf k _).map OrderedEvent.view = vs at hprog
      cases hprog with
      | unseen hA =>
        rw [← hs, hA]
        rfl
      | active t _ j hu hA h hw =>
        rw [← hs, ← (h.finished hw fun _ hm => hm).1]
        exact h.next_val
      | closed _ hA ho hall =>
        cases o with
        | none => exact absurd (hnone rfl) hA
        | some t => exact absurd (ho t rfl) (by simp [hopen t rfl])
    have hmax := m.observation.entryIndex.isLt
    have hlt' := Fin.lt_def.mp hlt
    rw [hnext, Nat.mod_eq_of_lt (by omega), hidx] at hlt'
    exact absurd hlt' (lt_irrefl _)

theorem reordering_alone (cfg : Config) (young : Duration → Prop) (h : Complete k F)
    (clock : ℕ → Instant) : Reordering cfg young (only k F) (alone F clock) where
  complete := complete_only h
  perm j := by rw [arrivalsOf_alone h]
  undisturbed := undisturbed_alone cfg young h clock _

theorem views_alone (cfg : Config) (h : Complete k F) (clock : ℕ → Instant) (now : Instant) :
    (runLoop cfg (alone F clock) now).map OrderedEvent.view = inOrderViews k F := by
  have hviews := views_runLoop (reordering_alone cfg (· < cfg.entryTimeout) h clock) now
  have hown : ∀ e ∈ runLoop cfg (alone F clock) now, e.slot = k := by
    intro e he
    by_contra hne
    have hother := hviews e.slot
    have hnil : only k F e.slot = [] := Function.update_of_ne hne ..
    have hmem : e ∈ eventsOf e.slot (runLoop cfg (alone F clock) now) :=
      List.mem_filter.mpr ⟨he, by simp⟩
    rw [hnil] at hother
    have hempty := List.map_eq_nil_iff.mp (hother.trans (by simp [inOrderViews]))
    rw [hempty] at hmem
    exact List.not_mem_nil hmem
  have hk := hviews k
  have hFk : only k F k = F := Function.update_self ..
  rw [eventsOf_eq_self hown, hFk] at hk
  exact hk

/-! ## Transparency -/

theorem inOrderViews_ne_missing {v : View} (hv : v ∈ inOrderViews k F) (i : U32) :
    v ≠ .missing i := by
  have hrun : ∀ v ∈ (inOrder.run {} F).2, v ≠ .missing i :=
    inOrder.run_rule (fun _ _ vs => ∀ v ∈ vs, v ≠ .missing i) {} (by simp) (by
      intro _ s vs m hvs v hv
      rcases List.mem_append.mp hv with hv | hv
      · exact hvs v hv
      · rw [List.mem_singleton.mp hv]
        exact View.noConfusion) F
  unfold inOrderViews at hv
  dsimp only at hv
  split_ifs at hv
  · exact absurd hv List.not_mem_nil
  · rcases List.mem_append.mp hv with hv | hv
    · exact hrun v hv
    · rw [List.mem_singleton.mp hv]
      exact View.noConfusion

/-- Arrivals in any order and interleaving give, for each slot, what its entries give alone
and in order, if no gap reaches `entry_timeout`. -/
theorem reordering_transparent (cfg : Config) (E : ℕ → List MergedEntry) (is : List Input)
    (now : Instant) (h : Reordering cfg (· < cfg.entryTimeout) E is) :
    Transparent cfg E is now := by
  refine ⟨fun k clock now' => ?_, List.eq_nil_iff_forall_not_mem.mpr fun x hx => ?_⟩
  · rw [views_runLoop h, views_alone cfg (h.complete k)]
  · obtain ⟨e, he, hex⟩ := List.mem_filterMap.mp hx
    cases e with
    | missing y =>
      have hmem : OrderedEvent.missing y ∈ eventsOf y.slot (runLoop cfg is now) :=
        List.mem_filter.mpr ⟨he, by simp [OrderedEvent.slot]⟩
      have hview := List.mem_map_of_mem (f := OrderedEvent.view) hmem
      rw [views_runLoop h] at hview
      exact inOrderViews_ne_missing hview y.entryIndex rfl
    | entry y => cases hex
    | slotComplete c => cases hex
    | slotIncomplete c => cases hex

end Runs

/-! Two slots whose entries arrive interleaved, with a sweep while slot 7 waits for entry 0. -/

def sampleSlots (k : ℕ) : List MergedEntry :=
  if k = 7 then [sampleEntry 7 0 3 10, sampleEntry 7 1 0 11]
  else if k = 8 then [sampleEntry 8 0 0 20]
  else []

def sampleArrivals (sweepAt : Instant) : List Input :=
  [.arrival (sampleEntry 7 1 0 11) 0, .arrival (sampleEntry 8 0 0 20) 1, .sweep sweepAt,
    .arrival (sampleEntry 7 0 3 10) (sweepAt + 1)]

theorem complete_sampleSlots (k : ℕ) : Complete k (sampleSlots k) := by
  intro i m hm
  unfold sampleSlots at hm
  split_ifs at hm with h7 h8
  · subst h7
    match i with
    | 0 => cases hm; exact ⟨rfl, rfl⟩
    | 1 => cases hm; exact ⟨rfl, rfl⟩
    | i + 2 => simp at hm
  · subst h8
    match i with
    | 0 => cases hm; exact ⟨rfl, rfl⟩
    | i + 1 => simp at hm
  · simp at hm

theorem perm_sampleArrivals (sweepAt : Instant) (k : ℕ) :
    (arrivalsOf k (sampleArrivals sweepAt)).Perm (sampleSlots k) := by
  by_cases h7 : k = 7
  · subst h7
    exact List.Perm.swap _ _ _
  · by_cases h8 : k = 8
    · subst h8
      exact List.Perm.refl _
    · have h7' : ¬7 = k := fun h => h7 h.symm
      have h8' : ¬8 = k := fun h => h8 h.symm
      simp [arrivalsOf, sampleArrivals, sampleSlots, sampleEntry, h7, h8, h7', h8']

theorem reordering_transparent_sample :
    Transparent defaultConfig sampleSlots (sampleArrivals 100000000) 300000000 :=
  reordering_transparent defaultConfig sampleSlots _ 300000000
    ⟨complete_sampleSlots, perm_sampleArrivals 100000000, by decide +kernel⟩

/-- A gap that is exactly `entry_timeout` old is given up already. -/
theorem gap_at_timeout_given_up :
    ¬∀ (cfg : Config) (E : ℕ → List MergedEntry) (is : List Input) (now : Instant),
      Reordering cfg (· ≤ cfg.entryTimeout) E is → Transparent cfg E is now := by
  intro h
  have hmissing := (h defaultConfig sampleSlots (sampleArrivals 150000000) 300000000
    ⟨complete_sampleSlots, perm_sampleArrivals 150000000, by decide +kernel⟩).2
  revert hmissing
  decide +kernel

end SolanaBench.TickTrigger.PohSupervisor
