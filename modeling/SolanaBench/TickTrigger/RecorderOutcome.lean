import SolanaBench.TickTrigger.RecorderAttempt

/-! What decides the outcome of a recorded attempt. When its registration is
served first, it leaves one row, and the first of its error reply and its match
to be served decides the outcome. -/
namespace SolanaBench.TickTrigger.Recorder

open TriggerEngine (MatchEvent)

/-- An event that ends the attempt, and how. -/
def terminal (reg : RegisterEvent) : Input → Option FinalOutcome
  | .send s =>
    if s.key = reg.key ∧ s.outcome.error.isSome then some .sendError else none
  | .matched m _ _ => if m.signature = reg.signature then some .landed else none
  | _ => none

/-- The first event that ends the attempt. -/
def decided (is : List Input) (reg : RegisterEvent) : Option FinalOutcome :=
  is.findSome? (terminal reg)

def outcome (is : List Input) (reg : RegisterEvent) : FinalOutcome :=
  (decided is reg).getD .unknownPending

/-- Attempts have keys and signatures of their own. -/
structure Distinct (is : List Input) : Prop where
  keys : ((registrations is).map RegisterEvent.key).Nodup
  signatures : ((registrations is).map RegisterEvent.signature).Nodup

instance (is : List Input) : Decidable (Distinct is) :=
  decidable_of_iff (((registrations is).map RegisterEvent.key).Nodup ∧
    ((registrations is).map RegisterEvent.signature).Nodup)
    ⟨fun h => ⟨h.1, h.2⟩, fun h => ⟨h.1, h.2⟩⟩

/-- A send or a match is served after the registration of its attempt, and no
deadline has passed at a sweep. -/
def InOrder (cfg : RecorderConfig) (pre : List Input) : Input → Prop
  | .register _ => True
  | .send s => ∃ reg ∈ registrations pre, reg.key = s.key
  | .matched m _ _ => ∃ reg ∈ registrations pre, reg.signature = m.signature
  | .sweep now => ∀ reg ∈ registrations pre, now < reg.triggerObservedAt + cfg.deadline

instance (cfg : RecorderConfig) (pre : List Input) : ∀ i, Decidable (InOrder cfg pre i)
  | .register _ => inferInstanceAs (Decidable True)
  | .send s => inferInstanceAs (Decidable (∃ reg ∈ registrations pre, reg.key = s.key))
  | .matched m _ _ =>
    inferInstanceAs (Decidable (∃ reg ∈ registrations pre, reg.signature = m.signature))
  | .sweep now =>
    inferInstanceAs
      (Decidable (∀ reg ∈ registrations pre, now < reg.triggerObservedAt + cfg.deadline))

abbrev RegisteredFirst (cfg : RecorderConfig) (is : List Input) : Prop :=
  EverySplit (InOrder cfg) is

variable {cfg : RecorderConfig} {is : List Input} {i : Input}

/-- Only a registered attempt is ended by an input in order. -/
theorem InOrder.registered (h : InOrder cfg is i) {reg' : RegisterEvent}
    (ht : terminal reg' i ≠ none) :
    ∃ reg ∈ registrations is, reg.key = reg'.key ∨ reg.signature = reg'.signature := by
  cases i with
  | register _ => exact absurd rfl ht
  | send s =>
    obtain ⟨reg, hreg, hk⟩ := h
    have hs : s.key = reg'.key := by
      by_contra hne
      apply ht
      simp [terminal, hne]
    exact ⟨reg, hreg, Or.inl (hk.trans hs)⟩
  | matched m _ _ =>
    obtain ⟨reg, hreg, hsig⟩ := h
    have hs : m.signature = reg'.signature := by
      by_contra hne
      apply ht
      simp [terminal, hne]
    exact ⟨reg, hreg, Or.inr (hsig.trans hs)⟩
  | sweep _ => exact absurd rfl ht

theorem Distinct.unshared {before after : List Input} {reg : RegisterEvent}
    (h : Distinct (before ++ .register reg :: after)) : Unshared reg (before ++ after) := by
  obtain ⟨hkeys, hsigs⟩ := h
  have hsplit : registrations (before ++ .register reg :: after) =
      registrations before ++ reg :: registrations after := List.filterMap_append
  rw [hsplit, List.map_append, List.map_cons, List.nodup_middle, ← List.map_append] at hkeys hsigs
  intro reg' hreg'
  have hmem : reg' ∈ registrations before ++ registrations after := by
    rwa [registrations, List.filterMap_append] at hreg'
  exact ⟨fun hk => (List.nodup_cons.mp hkeys).1 (hk ▸ List.mem_map_of_mem hmem),
    fun hs => (List.nodup_cons.mp hsigs).1 (hs ▸ List.mem_map_of_mem hmem)⟩

/-- An input in order closes the attempt exactly when it is terminal for it. -/
theorem InOrder.ending_eq {reg : RegisterEvent} (h : InOrder cfg is i)
    (hr : reg ∈ registrations is) : ending cfg reg i = terminal reg i := by
  cases i with
  | register _ => rfl
  | send _ => rfl
  | matched _ _ _ => rfl
  | sweep now => exact if_neg (Nat.not_le_of_lt (h reg hr))

theorem exists_split_of_registered {reg : RegisterEvent} (hr : reg ∈ registrations is) :
    ∃ before after, is = before ++ .register reg :: after := by
  obtain ⟨i, hi, hreg⟩ := List.mem_filterMap.mp hr
  cases i with
  | register reg' =>
    obtain rfl : reg' = reg := Option.some.inj hreg
    exact List.append_of_mem hi
  | send _ => cases hreg
  | matched _ _ _ => cases hreg
  | sweep _ => cases hreg

/-- In order, what decides the outcome is what closes the attempt. -/
theorem outcome_eq_closedAs {before after : List Input} {reg : RegisterEvent}
    (hd : Distinct (before ++ .register reg :: after))
    (hf : RegisteredFirst cfg (before ++ .register reg :: after)) :
    outcome (before ++ .register reg :: after) reg = closedAs cfg reg after := by
  have hown := hd.unshared
  -- before its registration no input in order is about the attempt
  have hbefore : before.findSome? (terminal reg) = none := by
    refine List.findSome?_eq_none_iff.mpr fun i hi => ?_
    by_contra hne
    obtain ⟨pre, post, rfl⟩ := List.append_of_mem hi
    obtain ⟨reg', hreg', hsame⟩ := (hf.of_append pre i post rfl).registered hne
    obtain ⟨hkey, hsig⟩ := hown reg' (by
      rw [registrations, List.append_assoc, List.filterMap_append]
      exact List.mem_append_left _ hreg')
    exact hsame.elim hkey hsig
  have hafter : after.findSome? (terminal reg) = after.findSome? (ending cfg reg) := by
    rw [← List.head?_filterMap, ← List.head?_filterMap]
    refine congrArg List.head? (List.filterMap_congr fun i hi => ?_)
    obtain ⟨pre, post, rfl⟩ := List.append_of_mem hi
    have ho := hf (before ++ .register reg :: pre) i post (by simp)
    exact (ho.ending_eq (List.mem_filterMap.mpr ⟨.register reg, by simp, rfl⟩)).symm
  have hself : terminal reg (.register reg) = none := rfl
  unfold outcome decided closedAs
  rw [List.findSome?_append, hbefore, List.findSome?_cons, hself, hafter]
  rfl

/-- Every attempt leaves one row. Its outcome is decided by the first of its error
reply and its match, and it is pending when neither was served. -/
theorem row_of_registered (cfg : RecorderConfig) (is : List Input) (hd : Distinct is)
    (hf : RegisteredFirst cfg is) {reg : RegisterEvent} (hr : reg ∈ registrations is) :
    ∃ row, rowsOf reg.key (runLoop cfg is).2 = [row] ∧ row.txSignature = reg.signature ∧
      row.finalOutcome = outcome is reg := by
  obtain ⟨before, after, rfl⟩ := exists_split_of_registered hr
  rw [outcome_eq_closedAs hd hf]
  exact row_of_attempt cfg reg hd.unshared

/-! One attempt whose reply times out although its transaction lands. -/

def sampleConfig : RecorderConfig where
  runId := "run"
  anchor := 0
  deadline := 60_000_000_000
  nonceMode := false
  computeNextDurableNonce := id

def sampleRegister : RegisterEvent where
  triggerId := TriggerEngine.TriggerId.fromSlotTick 7 3
  senderId := 1
  senderName := "helius"
  endpointUrl := "endpoint"
  protocol := "http"
  signature := 11
  slot := 7
  tick := 3
  triggerObservedAt := 2_000
  preparedAt := 1_000
  blockhash := 5
  nonceId := none

def sampleError : SendEvent where
  triggerId := TriggerEngine.TriggerId.fromSlotTick 7 3
  senderId := 1
  outcome := ⟨3_000, none, 11, none, none, none, none, some "timeout", none⟩

def sampleMatch : MatchEvent := ⟨11, 9_000, 8, 0, 1, .shredStream⟩

def errorFirst : List Input :=
  [.register sampleRegister, .send sampleError, .matched sampleMatch ⟨∅, 64⟩ 9_000]

def matchFirst : List Input :=
  [.register sampleRegister, .matched sampleMatch ⟨∅, 64⟩ 9_000, .send sampleError]

theorem row_of_registered_errorFirst :
    Distinct errorFirst ∧ RegisteredFirst sampleConfig errorFirst ∧
      ∃ row, rowsOf sampleRegister.key (runLoop sampleConfig errorFirst).2 = [row] ∧
        row.txSignature = sampleRegister.signature ∧
        row.finalOutcome = outcome errorFirst sampleRegister :=
  have hd : Distinct errorFirst := by decide
  have hf : RegisteredFirst sampleConfig errorFirst := by decide +kernel
  ⟨hd, hf, row_of_registered sampleConfig errorFirst hd hf (by decide)⟩

/-- The same three events, both times after the registration: the match is delivered,
yet the outcome depends on which of the two channels is served first. -/
theorem outcome_depends_on_order :
    (rowsOf sampleRegister.key (runLoop sampleConfig errorFirst).2).map
        TriggerRecord.finalOutcome = [.sendError] ∧
      (rowsOf sampleRegister.key (runLoop sampleConfig matchFirst).2).map
        TriggerRecord.finalOutcome = [.landed] := by
  decide +kernel

end SolanaBench.TickTrigger.Recorder
