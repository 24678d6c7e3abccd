import Mathlib.Data.List.TakeWhile
import SolanaBench.Lib.AListEach
import SolanaBench.Lib.Projection
import SolanaBench.Lib.Splits
import SolanaBench.TickTriggerBench.Finalizer

/-! The final record of a send event. A match that comes after it completes it, the first one;
of the matches that come before it the last one is kept. -/
namespace SolanaBench.TickTriggerBench

/-! ## What is sent, matched and recorded -/

def Input.send? : Input → Option SendEvent
  | .send ev _ => some ev
  | _ => none

def sends (is : List Input) : List SendEvent := is.filterMap Input.send?

/-- The send event of `g` and when it was taken. -/
def sent? (g : Signature) (is : List Input) : Option (SendEvent × Instant) :=
  is.findSome? fun
    | .send ev now => if ev.signature = g then some (ev, now) else none
    | _ => none

def matchesOf (g : Signature) (is : List Input) : List MatchEvent :=
  is.filterMap fun
    | .matched ev => if ev.signature = g then some ev else none
    | _ => none

/-- The matches of `g` that came before its send event. -/
def early (g : Signature) (is : List Input) : List MatchEvent :=
  matchesOf g (is.takeWhile fun i => decide ((i.send?.map SendEvent.signature) ≠ some g))

def final? (g : Signature) : Output → Option FinalRecord
  | .final r => if r.send.signature = g then some r else none
  | _ => none

def finalsOf (g : Signature) (os : List Output) : List FinalRecord := os.filterMap (final? g)

/-- It is a sweep past the deadline of `g`. -/
def expires (deadline : Duration) (g : Signature) (pre : List Input) : Input → Bool
  | .sweep now => (sent? g pre).any fun s =>
      decide (Instant.saturatingDurationSince now s.2 > deadline)
  | _ => false

def Expired (deadline : Duration) (g : Signature) (is : List Input) : Prop :=
  SomeSplit (fun pre i => expires deadline g pre i) is

/-- A match of `g` was delivered before its deadline passed. -/
def Delivered (deadline : Duration) (g : Signature) (is : List Input) : Prop :=
  SomeSplit (fun pre i => matchesOf g [i] ≠ [] ∧ ¬Expired deadline g pre) is

structure IsFinal (deadline : Duration) (is : List Input) (ev : SendEvent) (r : FinalRecord) :
    Prop where
  send : r.send = ev
  observed : r.status = .observed ↔ Delivered deadline ev.signature is
  first : r.status = .observed → r.matchEvent = (matchesOf ev.signature is).head?

/-- Each send event has one final record. -/
def Finalized (deadline : Duration) (is : List Input) : Prop :=
  ∀ ev ∈ sends is, ∃ r, finalsOf ev.signature (finalizeLoop deadline is) = [r] ∧
    IsFinal deadline is ev r

/-! ## The finalizer at one signature -/

/-- What it holds of `g`: the pending record and the early match. -/
abbrev Held := Option PendingRecord × Option MatchEvent

def PendingRecord.record (p : PendingRecord) (status : Status) : FinalRecord :=
  ⟨p.send, p.matchEvent, status⟩

def PendingRecord.given (p : PendingRecord) : FinalRecord :=
  p.record (if p.matchEvent.isSome then .observed else .unknownPending)

def sigMachine (deadline : Duration) (g : Signature) : EventMachine Held Input FinalRecord where
  step h
    | .send ev now =>
      if ev.signature = g then
        let p := h.1.getD ⟨ev, h.2, now⟩
        if h.2.isSome then ((none, none), [p.record .observed]) else ((some p, none), [])
      else (h, [])
    | .matched ev =>
      if ev.signature = g then
        match h.1 with
        | some p => ((none, h.2), [{ p with matchEvent := some ev }.record .observed])
        | none => ((none, some ev), [])
      else (h, [])
    | .sweep now =>
      ((h.1.filter fun p => !Finalizer.stale now deadline p, h.2),
        ((h.1.filter fun p => Finalizer.stale now deadline p).toList.map PendingRecord.given))

section

variable {deadline : Duration} {g : Signature} {s : Finalizer} {p : PendingRecord}

theorem finalsOf_append (g : Signature) (os ps : List Output) :
    finalsOf g (os ++ ps) = finalsOf g os ++ finalsOf g ps := List.filterMap_append

theorem finalsOf_complete (sig : Signature) (p : PendingRecord) : finalsOf g (p.complete sig) =
    if p.send.signature = g then [p.record .observed] else [] := by
  unfold PendingRecord.complete PendingRecord.finish
  by_cases h : p.send.signature = g <;> simp [finalsOf, List.filterMap_cons, final?, PendingRecord.record, h]

theorem finalsOf_emitFinal (sig : Signature) (p : PendingRecord) : finalsOf g (emitFinal sig p) =
    if p.send.signature = g then [p.given] else [] := by
  unfold emitFinal PendingRecord.finish PendingRecord.given
  by_cases h : p.send.signature = g <;> cases hm : p.matchEvent <;>
    simp [finalsOf, List.filterMap_cons, final?, PendingRecord.record, h, hm]

/-- Each record is filed under the signature of its send event. -/
def WellKeyed (s : Finalizer) : Prop :=
  ∀ sig, ∀ p ∈ s.map.lookup sig, p.send.signature = sig

theorem WellKeyed.erase {early : AList fun _ : Signature => MatchEvent} (h : WellKeyed s)
    (sig : Signature) : WellKeyed ⟨s.map.erase sig, early⟩ := AList.Each.erase h sig

theorem WellKeyed.insert {early : AList fun _ : Signature => MatchEvent} (h : WellKeyed s)
    (sig : Signature) (hp : p.send.signature = sig) : WellKeyed ⟨s.map.insert sig p, early⟩ :=
  AList.Each.insert h hp

theorem onSend_sig (h : WellKeyed s) (g : Signature) (ev : SendEvent) (now : Instant) :
    WellKeyed (s.onSend ev now).1 ∧
      ((s.onSend ev now).1.map.lookup g, (s.onSend ev now).1.earlyMatches.lookup g) =
        ((sigMachine deadline g).step (s.map.lookup g, s.earlyMatches.lookup g) (.send ev now)).1 ∧
      finalsOf g (s.onSend ev now).2 =
        ((sigMachine deadline g).step (s.map.lookup g, s.earlyMatches.lookup g) (.send ev now)).2 := by
  have hkey : ((s.map.lookup ev.signature).getD
      ⟨ev, s.earlyMatches.lookup ev.signature, now⟩).send.signature = ev.signature := by
    cases hp : s.map.lookup ev.signature with
    | none => rfl
    | some p => exact h _ p hp
  unfold Finalizer.onSend sigMachine
  dsimp only
  by_cases hg : ev.signature = g
  · subst hg
    rw [if_pos rfl]
    split
    · refine ⟨h.erase _, ?_, ?_⟩
      · rw [AList.lookup_erase, AList.lookup_erase]
      · rw [finalsOf_complete, if_pos hkey]
    · refine ⟨h.insert _ hkey, ?_, rfl⟩
      rw [AList.lookup_insert, AList.lookup_erase]
  · rw [if_neg hg]
    split
    · refine ⟨h.erase _, ?_, ?_⟩
      · rw [AList.lookup_erase_ne (Ne.symm hg), AList.lookup_erase_ne (Ne.symm hg)]
      · rw [finalsOf_complete, if_neg fun hp => hg (hkey.symm.trans hp)]
    · refine ⟨h.insert _ hkey, ?_, rfl⟩
      rw [AList.lookup_insert_ne (Ne.symm hg), AList.lookup_erase_ne (Ne.symm hg)]

theorem onMatch_sig (h : WellKeyed s) (g : Signature) (ev : MatchEvent) :
    WellKeyed (s.onMatch ev).1 ∧
      ((s.onMatch ev).1.map.lookup g, (s.onMatch ev).1.earlyMatches.lookup g) =
        ((sigMachine deadline g).step (s.map.lookup g, s.earlyMatches.lookup g) (.matched ev)).1 ∧
      finalsOf g (s.onMatch ev).2 =
        ((sigMachine deadline g).step (s.map.lookup g, s.earlyMatches.lookup g) (.matched ev)).2 := by
  unfold Finalizer.onMatch sigMachine
  dsimp only
  by_cases hg : ev.signature = g
  · subst hg
    rw [if_pos rfl]
    cases hp : s.map.lookup ev.signature with
    | none =>
      refine ⟨h, ?_, rfl⟩
      rw [AList.lookup_insert, hp]
    | some p =>
      refine ⟨h.erase _, ?_, ?_⟩
      · rw [AList.lookup_erase]
      · rw [finalsOf_complete, if_pos (h _ p hp)]
  · rw [if_neg hg]
    cases hp : s.map.lookup ev.signature with
    | none =>
      refine ⟨h, ?_, rfl⟩
      rw [AList.lookup_insert_ne (Ne.symm hg)]
    | some p =>
      refine ⟨h.erase _, ?_, ?_⟩
      · rw [AList.lookup_erase_ne (Ne.symm hg)]
      · rw [finalsOf_complete, if_neg fun heq => hg ((h _ p hp).symm.trans heq)]

/-- What a walk over all pending records gives out of `g`. -/
theorem finalsOf_walk (h : WellKeyed s) (g : Signature) (keep : PendingRecord → Bool) :
    finalsOf g (s.map.entries.flatMap fun e => if keep e.2 then emitFinal e.1 e.2 else []) =
      ((s.map.lookup g).filter keep).toList.map PendingRecord.given := by
  have hkey : ∀ e ∈ s.map.entries, e.2.send.signature = e.1 :=
    fun e he => h e.1 e.2 (AList.mem_lookup_iff.mpr he)
  have hview := AList.filterMap_flatMap_entries s.map
    (fun sig p => if keep p then emitFinal sig p else []) (final? g) g fun e he hne => by
      split
      · exact (finalsOf_emitFinal _ _).trans (if_neg fun heq => hne ((hkey e he).symm.trans heq))
      · rfl
  refine hview.trans ?_
  cases hp : s.map.lookup g with
  | none => rfl
  | some p =>
    have hemit := (finalsOf_emitFinal (g := g) g p).trans (if_pos (h g p hp))
    cases hk : keep p
    · simp [Option.filter, hk]
    · simpa [Option.filter, hk, finalsOf] using hemit

theorem finalizer_shows (deadline : Duration) (g : Signature) :
    (finalizer deadline).Shows (sigMachine deadline g)
      (fun s h => WellKeyed s ∧ (s.map.lookup g, s.earlyMatches.lookup g) = h) some
      (final? g) id where
  skip _ _ _ hi := by cases hi
  serve s h i j hi hR := by
    obtain rfl := Option.some.inj hi
    obtain ⟨hkeyed, rfl⟩ := hR
    rw [List.map_id]
    cases i with
    | send ev now =>
      obtain ⟨hnext, hlookup, hout⟩ := onSend_sig hkeyed g ev now
      exact ⟨⟨hnext, hlookup⟩, hout⟩
    | matched ev =>
      obtain ⟨hnext, hlookup, hout⟩ := onMatch_sig hkeyed g ev
      exact ⟨⟨hnext, hlookup⟩, hout⟩
    | sweep now =>
      have hlookup : ∀ sig, (s.sweep now deadline).1.map.lookup sig =
          (s.map.lookup sig).filter fun p => !Finalizer.stale now deadline p :=
        fun sig => AList.lookup_retain ..
      refine ⟨⟨fun sig p hp => ?_, ?_⟩, finalsOf_walk hkeyed g _⟩
      · have hp' : p ∈ (s.sweep now deadline).1.map.lookup sig := hp
        rw [hlookup] at hp'
        exact hkeyed sig p (Option.eq_some_of_filter_eq_some hp')
      · exact Prod.ext (hlookup g) rfl

/-- The final records of a signature are those of its own machine, with the one still pending
at the end. -/
theorem finalsOf_finalizeLoop (deadline : Duration) (g : Signature) (is : List Input) :
    finalsOf g (finalizeLoop deadline is) = ((sigMachine deadline g).run (none, none) is).2 ++
      ((sigMachine deadline g).run (none, none) is).1.1.toList.map PendingRecord.given := by
  have hempty : WellKeyed {} := fun _ _ hp => by cases hp
  obtain ⟨⟨hkeyed, hlookup⟩, hout⟩ := (finalizer_shows deadline g).run
    (t := (none, none)) ⟨hempty, rfl⟩ is
  rw [List.filterMap_some] at hlookup hout
  rw [List.map_id] at hout
  have hdrain := finalsOf_walk hkeyed g fun _ => true
  simp only [if_true] at hdrain
  unfold finalizeLoop Finalizer.drain
  rw [finalsOf_append, hdrain]
  refine congrArg₂ (· ++ ·) hout ?_
  rw [← congrArg Prod.fst hlookup]
  cases AList.lookup g _ <;> rfl

end
/-! ## The stages of a signature -/

/-- The match that an observed record carries. -/
def taken (g : Signature) (is : List Input) : Option MatchEvent :=
  (early g is).getLast?.or (matchesOf g is).head?

inductive Stage (deadline : Duration) (g : Signature) (is : List Input) :
    Held × List FinalRecord → Prop
  | unsent (hsent : sent? g is = none) : Stage deadline g is ((none, (matchesOf g is).getLast?), [])
  | waiting {ev : SendEvent} {t : Instant} (hsent : sent? g is = some (ev, t))
      (hnone : matchesOf g is = []) (hopen : ¬Expired deadline g is) :
      Stage deadline g is ((some ⟨ev, none, t⟩, none), [])
  | done {ev : SendEvent} {t : Instant} {e : Option MatchEvent} {r : FinalRecord}
      (hsent : sent? g is = some (ev, t)) (hsend : r.send = ev)
      (hobserved : r.status = .observed ↔ Delivered deadline g is)
      (htaken : r.status = .observed → matchesOf g is ≠ [] ∧ r.matchEvent = taken g is)
      (hearly : early g is ≠ [] → r.status = .observed)
      (hexpired : r.status ≠ .observed → Expired deadline g is) :
      Stage deadline g is ((none, e), [r])

section

variable {deadline : Duration} {g : Signature} {is : List Input} {i : Input} {ev : SendEvent}
  {now t : Instant}

theorem sent?_snoc (g : Signature) (is : List Input) (i : Input) :
    sent? g (is ++ [i]) = (sent? g is).or (sent? g [i]) := List.findSome?_append

theorem sent?_send (h : ev.signature = g) : sent? g [.send ev now] = some (ev, now) := by
  simp [sent?, h]

theorem matchesOf_snoc (g : Signature) (is : List Input) (i : Input) :
    matchesOf g (is ++ [i]) = matchesOf g is ++ matchesOf g [i] := List.filterMap_append

theorem sent?_eq_none_iff : sent? g is = none ↔
    ∀ i ∈ is, i.send?.map SendEvent.signature ≠ some g := by
  unfold sent?
  rw [List.findSome?_eq_none_iff]
  refine forall₂_congr fun i _ => ?_
  cases i <;> simp [Input.send?]

/-- After the send event no match is early. -/
theorem early_snoc (h : (sent? g is).isSome) (i : Input) : early g (is ++ [i]) = early g is := by
  have hstop : (is.takeWhile fun i => decide ((i.send?.map SendEvent.signature) ≠ some g)).length ≠
      is.length := by
    intro hlen
    have hall := List.takeWhile_eq_self_iff.mp ((List.takeWhile_prefix _).eq_of_length hlen)
    rw [sent?_eq_none_iff.mpr fun i hi => of_decide_eq_true (hall i hi)] at h
    cases h
  unfold early
  rw [List.takeWhile_append, if_neg hstop]

theorem early_send (h : sent? g is = none) (hg : ev.signature = g) (now : Instant) :
    early g (is ++ [.send ev now]) = matchesOf g is := by
  have hall : ∀ i ∈ is, decide (i.send?.map SendEvent.signature ≠ some g) = true :=
    fun i hi => decide_eq_true (sent?_eq_none_iff.mp h i hi)
  unfold early
  rw [List.takeWhile_append_of_pos hall, List.takeWhile_cons_of_neg]
  · rw [List.append_nil]
  · simp [Input.send?, hg]

theorem early_prefix (g : Signature) (is : List Input) : early g is <+: matchesOf g is :=
  (List.takeWhile_prefix _).filterMap _

theorem expired_snoc : Expired deadline g (is ++ [i]) ↔
    Expired deadline g is ∨ expires deadline g is i := SomeSplit.snoc_iff

theorem delivered_snoc : Delivered deadline g (is ++ [i]) ↔
    Delivered deadline g is ∨ matchesOf g [i] ≠ [] ∧ ¬Expired deadline g is := SomeSplit.snoc_iff

theorem not_expired_of_unsent (h : sent? g is = none) : ¬Expired deadline g is := by
  induction is using List.reverseRecOn with
  | nil => exact SomeSplit.not_nil
  | append_singleton is i ih =>
    rw [sent?_snoc, Option.or_eq_none_iff] at h
    rw [expired_snoc]
    rintro (hold | hi)
    · exact ih h.1 hold
    · cases i <;> simp [expires, h.1] at hi

theorem matchesOf_of_delivered (h : Delivered deadline g is) : matchesOf g is ≠ [] := by
  obtain ⟨pre, i, post, rfl, hi, -⟩ := h
  have hsplit : pre ++ i :: post = pre ++ ([i] ++ post) := by simp
  unfold matchesOf at hi ⊢
  rw [hsplit, List.filterMap_append, List.filterMap_append]
  exact List.append_ne_nil_of_right_ne_nil _ (List.append_ne_nil_of_left_ne_nil hi _)

theorem delivered_of_unsent (h : sent? g is = none) (hm : matchesOf g is ≠ []) :
    Delivered deadline g is := by
  induction is using List.reverseRecOn with
  | nil => exact absurd rfl hm
  | append_singleton is i ih =>
    rw [sent?_snoc, Option.or_eq_none_iff] at h
    rw [delivered_snoc]
    by_cases hi : matchesOf g [i] = []
    · rw [matchesOf_snoc, hi, List.append_nil] at hm
      exact Or.inl (ih h.1 hm)
    · exact Or.inr ⟨hi, not_expired_of_unsent h.1⟩

/-! ## One step -/

/-- Neither the send event nor a match of `g`, nor its expiry. -/
theorem Stage.skip {h : Held} {rs : List FinalRecord} (hstage : Stage deadline g is (h, rs))
    (hsent : sent? g [i] = none) (hmatch : matchesOf g [i] = [])
    (hexp : h.1 ≠ none → ¬expires deadline g is i) : Stage deadline g (is ++ [i]) (h, rs) := by
  have hsent' : sent? g (is ++ [i]) = sent? g is := by rw [sent?_snoc, hsent, Option.or_none]
  have hmatch' : matchesOf g (is ++ [i]) = matchesOf g is := by
    rw [matchesOf_snoc, hmatch, List.append_nil]
  have hdelivered : Delivered deadline g (is ++ [i]) ↔ Delivered deadline g is := by
    rw [delivered_snoc]
    simp [hmatch]
  cases hstage with
  | unsent hs =>
    rw [← hmatch']
    exact .unsent (hsent'.trans hs)
  | waiting hs hnone hopen =>
    refine .waiting (hsent'.trans hs) (hmatch'.trans hnone) ?_
    rw [expired_snoc]
    exact not_or.mpr ⟨hopen, hexp (by simp)⟩
  | done hs hsend hobserved htaken hearly hexpired =>
    have hsame := early_snoc (by rw [hs]; rfl) i
    refine .done (hsent'.trans hs) hsend (hobserved.trans hdelivered.symm) ?_ ?_ ?_
    · unfold taken
      rw [hsame, hmatch']
      exact htaken
    · rw [hsame]
      exact hearly
    · exact fun hne => expired_snoc.mpr (Or.inl (hexpired hne))

theorem Stage.send {h : Held} {rs : List FinalRecord} (hstage : Stage deadline g is (h, rs))
    (hg : ev.signature = g) (hfresh : sent? g is = none) (now : Instant) :
    Stage deadline g (is ++ [.send ev now])
      (((sigMachine deadline g).step h (.send ev now)).1,
        rs ++ ((sigMachine deadline g).step h (.send ev now)).2) := by
  have hsent : sent? g (is ++ [.send ev now]) = some (ev, now) := by
    rw [sent?_snoc, hfresh, sent?_send hg]
    rfl
  have hmatch : matchesOf g (is ++ [.send ev now]) = matchesOf g is := by
    rw [matchesOf_snoc]
    exact List.append_nil _
  cases hstage with
  | waiting hs | done hs => rw [hfresh] at hs; cases hs
  | unsent =>
    have hearly := early_send hfresh hg now
    cases hlast : (matchesOf g is).getLast? with
    | none =>
      have hexp : ¬Expired deadline g (is ++ [.send ev now]) := by
        rw [expired_snoc]
        exact not_or.mpr ⟨not_expired_of_unsent hfresh, Bool.false_ne_true⟩
      simpa [sigMachine, hg] using
        Stage.waiting hsent (hmatch.trans (List.getLast?_eq_none_iff.mp hlast)) hexp
    | some m =>
      have hne : matchesOf g is ≠ [] := by
        intro hnil
        rw [hnil] at hlast
        cases hlast
      have hdone : Stage deadline g (is ++ [.send ev now])
          ((none, none), [(⟨ev, some m, .observed⟩ : FinalRecord)]) := by
        refine .done hsent rfl (iff_of_true rfl ?_) (fun _ => ⟨hmatch.symm ▸ hne, ?_⟩)
          (fun _ => rfl) (fun hno => absurd rfl hno)
        · exact delivered_snoc.mpr (Or.inl (delivered_of_unsent hfresh hne))
        · rw [taken, hearly, hlast]
          rfl
      simpa [sigMachine, hg, PendingRecord.record] using hdone

theorem Stage.matched {h : Held} {rs : List FinalRecord} {m : MatchEvent}
    (hstage : Stage deadline g is (h, rs)) (hg : m.signature = g) :
    Stage deadline g (is ++ [.matched m]) (((sigMachine deadline g).step h (.matched m)).1,
      rs ++ ((sigMachine deadline g).step h (.matched m)).2) := by
  have hsent : sent? g (is ++ [.matched m]) = sent? g is := by
    rw [sent?_snoc]
    exact Option.or_none
  have hnew : matchesOf g [.matched m] = [m] := by simp [matchesOf, hg]
  have hmatch := matchesOf_snoc g is (.matched m)
  rw [hnew] at hmatch
  have hne : matchesOf g (is ++ [.matched m]) ≠ [] := by
    rw [hmatch]
    simp
  have hdelivered : Delivered deadline g (is ++ [.matched m]) ↔
      Delivered deadline g is ∨ ¬Expired deadline g is := by
    rw [delivered_snoc, hnew]
    simp
  cases hstage with
  | unsent hs =>
    have hstage' : Stage deadline g (is ++ [.matched m]) _ := .unsent (hsent.trans hs)
    rw [hmatch] at hstage'
    simpa [sigMachine, hg] using hstage'
  | @waiting ev t hs hnone hopen =>
    have hsame := early_snoc (by rw [hs]; rfl) (.matched m)
    have hearly : early g is = [] := List.prefix_nil.mp (hnone ▸ early_prefix g is)
    have hdone : Stage deadline g (is ++ [.matched m])
        ((none, none), [(⟨ev, some m, .observed⟩ : FinalRecord)]) := by
      refine .done (hsent.trans hs) rfl (iff_of_true rfl (hdelivered.mpr (Or.inr hopen)))
        (fun _ => ⟨hne, ?_⟩) (fun _ => rfl) (fun hno => absurd rfl hno)
      rw [taken, hsame, hearly, hmatch, hnone]
      rfl
    simpa [sigMachine, hg, PendingRecord.record] using hdone
  | @done ev t e r hs hsend hobserved htaken hearly hexpired =>
    have hsame := early_snoc (by rw [hs]; rfl) (.matched m)
    have hdone : Stage deadline g (is ++ [.matched m]) ((none, some m), [r]) := by
      refine .done (hsent.trans hs) hsend ?_ (fun hobs => ⟨hne, ?_⟩) (hsame ▸ hearly) fun hno =>
        expired_snoc.mpr (Or.inl (hexpired hno))
      · rw [hdelivered, hobserved]
        refine (or_iff_left_of_imp fun hopen => ?_).symm
        by_contra hnot
        exact hopen (hexpired fun hobs => hnot (hobserved.mp hobs))
      · obtain ⟨hold, heq⟩ := htaken hobs
        rw [heq, taken, taken, hsame, hmatch, List.head?_append_of_ne_nil _ hold]
    simpa [sigMachine, hg] using hdone

theorem Stage.sweep {h : Held} {rs : List FinalRecord} (hstage : Stage deadline g is (h, rs))
    (now : Instant) : Stage deadline g (is ++ [.sweep now])
      (((sigMachine deadline g).step h (.sweep now)).1,
        rs ++ ((sigMachine deadline g).step h (.sweep now)).2) := by
  have hskip := hstage.skip (i := .sweep now) rfl rfl
  cases hstage with
  | unsent hs => simpa [sigMachine] using hskip fun hne => absurd rfl hne
  | done hs => simpa [sigMachine] using hskip fun hne => absurd rfl hne
  | @waiting ev t hs hnone hopen =>
    have hexp : expires deadline g is (.sweep now) =
        Finalizer.stale now deadline ⟨ev, none, t⟩ := by simp [expires, hs, Finalizer.stale]
    cases hstale : Finalizer.stale now deadline ⟨ev, none, t⟩
    · rw [hexp, hstale] at hskip
      simpa [sigMachine, Option.filter, hstale] using hskip fun _ => Bool.false_ne_true
    · have hsame := early_snoc (by rw [hs]; rfl) (.sweep now)
      have hearly : early g is = [] := List.prefix_nil.mp (hnone ▸ early_prefix g is)
      have hnever : ¬Delivered deadline g (is ++ [.sweep now]) := by
        intro hd
        refine matchesOf_of_delivered hd ?_
        rw [matchesOf_snoc, hnone]
        rfl
      have hdone : Stage deadline g (is ++ [.sweep now])
          ((none, none), [(⟨ev, none, .unknownPending⟩ : FinalRecord)]) := by
        have hunknown : (⟨ev, none, .unknownPending⟩ : FinalRecord).status ≠ .observed := by simp
        refine .done (t := t) ?_ rfl (iff_of_false hunknown hnever) (fun hobs => absurd hobs hunknown)
          (fun hne => absurd (hsame.trans hearly) hne) fun _ => ?_
        · rw [sent?_snoc, hs]
          rfl
        · exact expired_snoc.mpr (Or.inr (hexp.trans hstale))
      simpa [sigMachine, Option.filter, hstale, PendingRecord.given, PendingRecord.record] using hdone

/-! ## Whole runs -/

variable (deadline) in
/-- A signature that is sent once goes through its stages. -/
theorem stage_run (h : ((sends is).map SendEvent.signature).Nodup) :
    Stage deadline g is ((sigMachine deadline g).run (none, none) is) := by
  induction is using List.reverseRecOn with
  | nil => exact .unsent rfl
  | append_singleton is i ih =>
    unfold sends at h ih
    rw [List.filterMap_append, List.map_append, List.nodup_append] at h
    obtain ⟨hold, -, hfresh⟩ := h
    have hstage := ih hold
    rw [EventMachine.run_snoc]
    cases i with
    | send ev now =>
      by_cases hg : ev.signature = g
      · refine hstage.send hg (sent?_eq_none_iff.mpr fun j hj hsame => ?_) now
        obtain ⟨ev', hev', hsig⟩ := Option.map_eq_some_iff.mp hsame
        exact hfresh g (List.mem_map.mpr ⟨ev', List.mem_filterMap.mpr ⟨j, hj, hev'⟩, hsig⟩) g
          (by simp [Input.send?, hg]) rfl
      · have hskip := hstage.skip (i := .send ev now) (by simp [sent?, hg]) rfl
          fun _ => Bool.false_ne_true
        simpa [sigMachine, hg] using hskip
    | matched m =>
      by_cases hg : m.signature = g
      · exact hstage.matched hg
      · have hskip := hstage.skip (i := .matched m) rfl (by simp [matchesOf, hg])
          fun _ => Bool.false_ne_true
        simpa [sigMachine, hg] using hskip
    | sweep now => exact hstage.sweep now

theorem sent?_of_mem (h : ev ∈ sends is) (hnodup : ((sends is).map SendEvent.signature).Nodup) :
    ∃ t, sent? ev.signature is = some (ev, t) := by
  obtain ⟨i, hi, hev⟩ := List.mem_filterMap.mp h
  cases hs : sent? ev.signature is with
  | none => exact absurd (by rw [hev]; rfl) (sent?_eq_none_iff.mp hs i hi)
  | some s =>
    obtain ⟨before, j, after, rfl, hj, -⟩ := List.findSome?_eq_some_iff.mp hs
    cases j with
    | send ev' now =>
      by_cases hsig : ev'.signature = ev.signature
      · have hsame : ev' = ev := by
          refine List.inj_on_of_nodup_map hnodup ?_ h hsig
          exact List.mem_filterMap.mpr ⟨.send ev' now, by simp, rfl⟩
        obtain rfl : (ev', now) = s := by simpa [hsig] using hj
        exact ⟨now, by rw [hsame]⟩
      · simp [hsig] at hj
    | matched m => simp at hj
    | sweep now => simp at hj

variable (deadline) in
/-- The one record of a send event: observed if a match was delivered in time, with the match
that was taken. -/
theorem finals_of_sent (hev : ev ∈ sends is)
    (hnodup : ((sends is).map SendEvent.signature).Nodup) :
    ∃ r, finalsOf ev.signature (finalizeLoop deadline is) = [r] ∧ r.send = ev ∧
      (r.status = .observed ↔ Delivered deadline ev.signature is) ∧
      (r.status = .observed → r.matchEvent = taken ev.signature is) ∧
      (early ev.signature is ≠ [] → r.status = .observed) := by
  obtain ⟨t, hsent⟩ := sent?_of_mem hev hnodup
  have hstage := stage_run deadline hnodup (g := ev.signature)
  rw [finalsOf_finalizeLoop]
  generalize (sigMachine deadline ev.signature).run (none, none) is = run at *
  cases hstage with
  | unsent hs => rw [hsent] at hs; cases hs
  | waiting hs hnone hopen =>
    rw [hsent] at hs
    cases hs
    have hearly : early ev.signature is = [] := List.prefix_nil.mp (hnone ▸ early_prefix _ is)
    have hunknown : (⟨ev, none, t⟩ : PendingRecord).given.status ≠ .observed := by
      simp [PendingRecord.given, PendingRecord.record]
    refine ⟨_, rfl, rfl, ?_, fun hobs => absurd hobs hunknown, fun hne => absurd hearly hne⟩
    exact iff_of_false hunknown fun hd => matchesOf_of_delivered hd hnone
  | done hs hsend hobserved htaken hearly hexpired =>
    rw [hsent] at hs
    cases hs
    exact ⟨_, rfl, hsend, hobserved, fun hobs => (htaken hobs).2, hearly⟩

end

/-- Each send event has one final record, observed if and only if a match was delivered in
time and with the first match, iff the last match that comes before a send event is also the
first. -/
theorem finalized_iff (deadline : Duration) (is : List Input)
    (hnodup : ((sends is).map SendEvent.signature).Nodup) :
    Finalized deadline is ↔
      ∀ ev ∈ sends is, (early ev.signature is).getLast? = (early ev.signature is).head? := by
  refine forall₂_congr fun ev hev => ?_
  obtain ⟨r, hr, hsend, hobserved, htaken, hearly⟩ := finals_of_sent deadline hev hnodup
  have hhead : early ev.signature is ≠ [] →
      (matchesOf ev.signature is).head? = (early ev.signature is).head? := by
    intro hne
    obtain ⟨rest, hrest⟩ := early_prefix ev.signature is
    rw [← hrest, List.head?_append_of_ne_nil _ hne]
  constructor
  · rintro ⟨r', hr', hfinal⟩
    obtain rfl : r = r' := by simpa [hr] using hr'
    by_cases hnil : early ev.signature is = []
    · rw [hnil]
      rfl
    · have hobs := hearly hnil
      have hlast : taken ev.signature is = (early ev.signature is).getLast? := by
        rw [taken, List.getLast?_eq_some_getLast hnil]
        rfl
      rw [← hlast, ← htaken hobs, hfinal.first hobs, hhead hnil]
  · intro hsame
    refine ⟨r, hr, hsend, hobserved, fun hobs => ?_⟩
    rw [htaken hobs, taken, hsame]
    by_cases hnil : early ev.signature is = []
    · rw [hnil]
      rfl
    · rw [hhead hnil, List.head?_eq_some_head hnil]
      rfl

def matchAt (sig : Signature) (t : Instant) : MatchEvent := ⟨sig, t, 7, 0, none, none⟩

def sendAt (sig : Signature) (t : Instant) : SendEvent := ⟨sig, 7, 1, 0, t, t, none⟩

/-- A match that comes after the send event. -/
theorem finalized_iff_late_match :
    Finalized 1000 [.send (sendAt 5 1) 1, .matched (matchAt 5 2)] ↔
      ∀ ev ∈ sends [.send (sendAt 5 1) 1, .matched (matchAt 5 2)],
        (early ev.signature [.send (sendAt 5 1) 1, .matched (matchAt 5 2)]).getLast? =
          (early ev.signature [.send (sendAt 5 1) 1, .matched (matchAt 5 2)]).head? :=
  finalized_iff 1000 _ (by decide)

/-- Two matches come before the send event, which is recorded with the second. -/
theorem early_match_overwritten : ¬∀ (deadline : Duration) (is : List Input),
    ((sends is).map SendEvent.signature).Nodup → Finalized deadline is := by
  intro h
  have hfinal := h 1000 [.matched (matchAt 5 1), .matched (matchAt 5 2), .send (sendAt 5 1) 3]
    (by decide) (sendAt 5 1) (by decide)
  have hone : finalsOf 5 (finalizeLoop 1000
      [.matched (matchAt 5 1), .matched (matchAt 5 2), .send (sendAt 5 1) 3]) =
      [⟨sendAt 5 1, some (matchAt 5 2), .observed⟩] := by decide +kernel
  obtain ⟨r, hr, hfinal⟩ := hfinal
  have hlast : r = ⟨sendAt 5 1, some (matchAt 5 2), .observed⟩ :=
    (List.singleton_inj.mp (hone.symm.trans hr)).symm
  have hfirst := hfinal.first (by rw [hlast])
  rw [hlast] at hfirst
  revert hfirst
  decide

end SolanaBench.TickTriggerBench
