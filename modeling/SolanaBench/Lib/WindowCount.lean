import Mathlib.Data.Finset.Insert
import SolanaBench.Lib.EventMachine
import SolanaBench.Lib.FilterSum

/-!
# Numbering windows by their weight

Items have weights, and some may close a window. A counter takes in each item once and
closes a window when a closing item completes exactly the weight of one. It does not know
which items are missing, so a number is right just if what is missing before the item weighs
as much as what came ahead of it.
-/

/-- What a counter goes by: the weight of a window, and of each item its key, its weight and
whether it may close a window. -/
structure WindowRule (α κ : Type*) where
  size : ℕ
  key : α → κ
  weight : α → ℕ
  closes : α → Bool

/-- How many windows are closed, the weight taken in since, the weight taken in at all, and
the keys of the items taken in. -/
@[ext] structure WindowCount (κ : Type*) where
  closed : ℕ := 0
  weight : ℕ := 0
  total : ℕ := 0
  seen : Finset κ := ∅
  deriving DecidableEq

namespace WindowRule

open FilterSum

variable {α κ : Type*} [DecidableEq κ] (R : WindowRule α κ)

/-- The counter after an item, and the number of the window it closes. -/
def take (c : WindowCount κ) (x : α) : WindowCount κ × Option ℕ :=
  if R.key x ∈ c.seen then (c, none)
  else if R.closes x && decide (c.weight + R.weight x = R.size) then
    (⟨c.closed + 1, 0, c.total + R.weight x, insert (R.key x) c.seen⟩, some (c.closed + 1))
  else (⟨c.closed, c.weight + R.weight x, c.total + R.weight x, insert (R.key x) c.seen⟩, none)

/-- The item is new and completes a window. -/
def Completes (c : WindowCount κ) (x : α) : Prop :=
  R.key x ∉ c.seen ∧ R.closes x ∧ c.weight + R.weight x = R.size

instance (c : WindowCount κ) (x : α) : Decidable (R.Completes c x) := inferInstanceAs (Decidable (_ ∧ _))

section

variable {R} {c : WindowCount κ} {x : α} {l before after : List α} {n k : ℕ}

theorem take_of_mem (h : R.key x ∈ c.seen) : R.take c x = (c, none) := if_pos h

theorem take_of_completes (h : R.Completes c x) : R.take c x =
    (⟨c.closed + 1, 0, c.total + R.weight x, insert (R.key x) c.seen⟩, some (c.closed + 1)) := by
  obtain ⟨hnew, hcloses, hsize⟩ := h
  simp [take, hnew, hcloses, hsize]

theorem take_of_not_completes (hnew : R.key x ∉ c.seen) (h : ¬R.Completes c x) : R.take c x =
    (⟨c.closed, c.weight + R.weight x, c.total + R.weight x, insert (R.key x) c.seen⟩, none) := by
  have hnot : (R.closes x && decide (c.weight + R.weight x = R.size)) = false := by
    refine Bool.eq_false_iff.mpr fun hboth => h ⟨hnew, ?_⟩
    simpa using hboth
  simp [take, hnew, hnot]

theorem total_take (hnew : R.key x ∉ c.seen) : (R.take c x).1.total = c.total + R.weight x := by
  by_cases hcompletes : R.Completes c x
  · rw [take_of_completes hcompletes]
  · rw [take_of_not_completes hnew hcompletes]

theorem take_eq_some_iff : (R.take c x).2 = some n ↔ R.Completes c x ∧ n = c.closed + 1 := by
  by_cases hmem : R.key x ∈ c.seen
  · rw [take_of_mem hmem]
    exact iff_of_false nofun fun h => h.1.1 hmem
  · by_cases hcompletes : R.Completes c x
    · rw [take_of_completes hcompletes]
      simp [hcompletes, eq_comm]
    · rw [take_of_not_completes hmem hcompletes]
      exact iff_of_false nofun fun h => hcompletes h.1

/-- The weight of the items of a list that were taken in. -/
def came (R : WindowRule α κ) (c : WindowCount κ) (l : List α) : ℕ :=
  doneSum R.weight (fun y => decide (R.key y ∈ c.seen)) l

/-- The weight of the items of a list that were not. -/
def missing (R : WindowRule α κ) (c : WindowCount κ) (l : List α) : ℕ :=
  doneSum R.weight (fun y => decide (R.key y ∉ c.seen)) l

theorem came_add_missing (c : WindowCount κ) (l : List α) :
    R.came c l + R.missing c l = (l.map R.weight).sum := by
  unfold came missing doneSum
  induction l with
  | nil => rfl
  | cons y l ih =>
    by_cases hy : R.key y ∈ c.seen
    · simp only [List.filter_cons, hy, decide_true, if_true, List.map_cons, List.sum_cons, not_true,
        decide_false, Bool.false_eq_true, if_false]
      omega
    · simp only [List.filter_cons, hy, decide_true, if_true, List.map_cons, List.sum_cons, not_false_eq_true,
        decide_false, Bool.false_eq_true, if_false]
      omega

/-- The counter has taken in nothing but items of the list, each once. -/
structure Weighed (R : WindowRule α κ) (l : List α) (c : WindowCount κ) : Prop where
  windows : c.total = R.size * c.closed + c.weight
  items : c.total = R.came c l

theorem weighed_start (R : WindowRule α κ) (l : List α) : Weighed R l ({} : WindowCount κ) where
  windows := rfl
  items := by simp [came, doneSum]

/-- Taking in another item of the list. -/
theorem Weighed.take (h : Weighed R l c) (hnodup : (l.map R.key).Nodup) (hx : x ∈ l) :
    Weighed R l (R.take c x).1 := by
  by_cases hmem : R.key x ∈ c.seen
  · rw [take_of_mem hmem]
    exact h
  · obtain ⟨before, after, rfl⟩ := List.append_of_mem hx
    have hother : ∀ y ∈ before ++ after, R.key y ≠ R.key x := by
      rw [List.map_append, List.map_cons] at hnodup
      intro y hy heq
      obtain ⟨hnotin, -⟩ := List.nodup_cons.mp (List.nodup_middle.mp hnodup)
      rw [← List.map_append, ← heq] at hnotin
      exact hnotin (List.mem_map_of_mem hy)
    have hsum : ∀ c' : WindowCount κ, c'.seen = insert (R.key x) c.seen →
        R.came c' (before ++ x :: after) = R.weight x + R.came c (before ++ x :: after) := by
      intro c' hseen
      refine doneSum_finish (by simpa using hmem) (by simp [hseen]) ?_ ?_
      · intro y hy
        simp [hseen, hother y (List.mem_append_left _ hy)]
      · intro y hy
        simp [hseen, hother y (List.mem_append_right _ hy)]
    have hwindows := h.windows
    have hitems := h.items
    by_cases hcompletes : R.Completes c x
    · have hsize := hcompletes.2.2
      rw [take_of_completes hcompletes]
      refine ⟨?_, ?_⟩
      · change c.total + R.weight x = R.size * (c.closed + 1) + 0
        rw [Nat.mul_succ]
        omega
      · rw [hsum _ rfl, ← hitems]
        exact Nat.add_comm ..
    · rw [take_of_not_completes hmem hcompletes]
      refine ⟨?_, ?_⟩
      · change c.total + R.weight x = R.size * c.closed + (c.weight + R.weight x)
        omega
      · rw [hsum _ rfl, ← hitems]
        exact Nat.add_comm ..

/-- The number an item gets is that of its place, up to what is missing before it and what came
ahead of it. -/
theorem Weighed.number_eq_iff (h : Weighed R (before ++ x :: after) c) (hsize : 0 < R.size)
    (hplace : (before.map R.weight).sum + R.weight x = R.size * k) (hx : R.Completes c x) :
    c.closed + 1 = k ↔ R.missing c before = R.came c after := by
  obtain ⟨hnew, -, hweight⟩ := hx
  have hbefore := came_add_missing (R := R) c before
  have htotal : c.total = R.came c before + R.came c after := by
    rw [h.items]
    have hskip : R.came c (x :: after) = R.came c after := by
      unfold came doneSum
      rw [List.filter_cons_of_neg (by simpa using hnew)]
    rw [← hskip]
    exact doneSum_append ..
  have hwindows := h.windows
  have hnumber : R.size * (c.closed + 1) + R.missing c before = R.size * k + R.came c after := by
    rw [Nat.mul_succ]
    omega
  constructor
  · rintro rfl
    omega
  · intro heq
    exact Nat.eq_of_mul_eq_mul_left hsize (by omega)

/-! ## Streams in order -/

/-- The counter fed with items: each window is reported with the item that closes it, its number
and the weight taken in so far. -/
def machine (R : WindowRule α κ) : EventMachine (WindowCount κ) α (α × ℕ × ℕ) where
  step c x := ((R.take c x).1, (R.take c x).2.toList.map fun n => (x, n, (R.take c x).1.total))

theorem mem_seen_take (y : α) : R.key y ∈ (R.take c x).1.seen ↔ R.key y = R.key x ∨ R.key y ∈ c.seen := by
  by_cases hmem : R.key x ∈ c.seen
  · rw [take_of_mem hmem]
    exact ⟨Or.inr, fun h => h.elim (fun heq => heq ▸ hmem) id⟩
  · by_cases hcompletes : R.Completes c x
    · rw [take_of_completes hcompletes]
      exact Finset.mem_insert
    · rw [take_of_not_completes hmem hcompletes]
      exact Finset.mem_insert

theorem mem_seen_run (l : List α) (c : WindowCount κ) (y : α) :
    R.key y ∈ (R.machine.run c l).1.seen ↔ R.key y ∈ l.map R.key ∨ R.key y ∈ c.seen := by
  induction l generalizing c with
  | nil => simp
  | cons x l ih =>
    rw [EventMachine.run_cons_fst, ih, List.map_cons, List.mem_cons]
    change _ ∨ R.key y ∈ (R.take c x).1.seen ↔ _
    rw [mem_seen_take, or_left_comm, or_assoc]

/-- `d` is the stream `l` in its order, with items of it that come again. -/
inductive Repeats : List α → List α → Prop
  | nil : Repeats [] []
  | next {l d : List α} (h : Repeats l d) (x : α) : Repeats (l ++ [x]) (d ++ [x])
  | again {l d : List α} (h : Repeats l d) {x : α} (hx : x ∈ l) : Repeats l (d ++ [x])

omit [DecidableEq κ] in
theorem Repeats.refl (l : List α) : Repeats l l := by
  induction l using List.reverseRecOn with
  | nil => exact .nil
  | append_singleton l x ih => exact .next ih x

omit [DecidableEq κ] in
theorem Repeats.mem {d : List α} (h : Repeats l d) : ∀ y ∈ d, y ∈ l := by
  induction h with
  | nil => exact fun y hy => hy
  | next h x ih =>
    intro y hy
    rcases List.mem_append.mp hy with hold | hlast
    · exact List.mem_append_left _ (ih y hold)
    · exact List.mem_append_right _ hlast
  | again h hx ih =>
    intro y hy
    rcases List.mem_append.mp hy with hold | hlast
    · exact ih y hold
    · rw [List.mem_singleton.mp hlast]
      exact hx

omit [DecidableEq κ] in
/-- What has come up to some point is a part of the stream up to some point. -/
theorem Repeats.of_append {d d' : List α} (h : Repeats l (d ++ d')) :
    ∃ l', l' <+: l ∧ Repeats l' d := by
  induction d' using List.reverseRecOn generalizing l with
  | nil => exact ⟨l, List.prefix_refl l, by rwa [List.append_nil] at h⟩
  | append_singleton d' y ih =>
    generalize hall : d ++ (d' ++ [y]) = all at h
    rw [← List.append_assoc] at hall
    cases h with
    | nil => simp at hall
    | @next l _ h x =>
      obtain ⟨rfl, -⟩ := List.append_inj' hall rfl
      obtain ⟨l', hl', hd⟩ := ih h
      exact ⟨l', hl'.trans (List.prefix_append l [x]), hd⟩
    | again h hx =>
      obtain ⟨rfl, -⟩ := List.append_inj' hall rfl
      exact ih h

/-- What comes again changes nothing. -/
theorem run_repeats {d : List α} (h : Repeats l d) :
    R.machine.run {} d = R.machine.run ({} : WindowCount κ) l := by
  induction h with
  | nil => rfl
  | next h x ih => rw [EventMachine.run_snoc, EventMachine.run_snoc, ih]
  | @again l d h x hx ih =>
    have hmem : R.key x ∈ (R.machine.run ({} : WindowCount κ) l).1.seen :=
      (mem_seen_run l {} x).mpr (Or.inl (List.mem_map_of_mem hx))
    rw [EventMachine.run_snoc, ih]
    unfold machine at hmem ⊢
    dsimp only
    rw [take_of_mem hmem]
    simp

/-- Items that together make up one window, the last one closing it. -/
structure Window (R : WindowRule α κ) where
  body : List α
  close : α
  body_closes : ∀ y ∈ body, R.closes y = false
  close_closes : R.closes close = true
  weight_eq : (body.map R.weight).sum + R.weight close = R.size

def Window.items (w : Window R) : List α := w.body ++ [w.close]

omit [DecidableEq κ] in
theorem Window.sum_items (w : Window R) : (w.items.map R.weight).sum = R.size := by
  rw [← w.weight_eq]
  simp [Window.items]

/-- New items that do not close anything are only weighed. -/
theorem run_body (l : List α) (c : WindowCount κ) (hcloses : ∀ y ∈ l, R.closes y = false)
    (hnew : ∀ y ∈ l, R.key y ∉ c.seen) (hnodup : (l.map R.key).Nodup) :
    (R.machine.run c l).2 = [] ∧ (R.machine.run c l).1.closed = c.closed ∧
      (R.machine.run c l).1.weight = c.weight + (l.map R.weight).sum ∧
        (R.machine.run c l).1.total = c.total + (l.map R.weight).sum := by
  induction l generalizing c with
  | nil => simp
  | cons x l ih =>
    obtain ⟨hx, hl⟩ := List.nodup_cons.mp hnodup
    have hnot : ¬R.Completes c x := fun h =>
      Bool.false_ne_true ((hcloses x List.mem_cons_self).symm.trans h.2.1)
    have hstep := take_of_not_completes (hnew x List.mem_cons_self) hnot
    have hnext := ih (R.take c x).1 (fun y hy => hcloses y (List.mem_cons_of_mem x hy)) (by
      intro y hy
      rw [mem_seen_take, not_or]
      exact ⟨fun heq => hx (heq ▸ List.mem_map_of_mem hy), hnew y (List.mem_cons_of_mem x hy)⟩) hl
    rw [EventMachine.run_cons]
    change (_ ++ (R.machine.run (R.take c x).1 l).2 = [] ∧ (R.machine.run (R.take c x).1 l).1.closed = _ ∧
      (R.machine.run (R.take c x).1 l).1.weight = _ ∧ (R.machine.run (R.take c x).1 l).1.total = _)
    obtain ⟨hout, hclosed, hweight, htotal⟩ := hnext
    rw [hout, hclosed, hweight, htotal, List.map_cons, List.sum_cons]
    simp only [machine, hstep, Option.toList_none, List.map_nil, List.append_nil, true_and]
    omega

/-- A window that comes whole, after whole windows, is numbered on. -/
theorem run_window (w : Window R) (c : WindowCount κ) (hstart : c.weight = 0)
    (hnew : ∀ y ∈ w.items, R.key y ∉ c.seen) (hnodup : (w.items.map R.key).Nodup) :
    (R.machine.run c w.items).2 = [(w.close, c.closed + 1, c.total + R.size)] ∧
      (R.machine.run c w.items).1.closed = c.closed + 1 ∧
        (R.machine.run c w.items).1.weight = 0 ∧
          (R.machine.run c w.items).1.total = c.total + R.size := by
  unfold Window.items at hnew hnodup ⊢
  rw [List.map_append, List.nodup_append] at hnodup
  obtain ⟨hbody, -, hdisjoint⟩ := hnodup
  obtain ⟨hout, hclosed, hweight, htotal⟩ := run_body w.body c w.body_closes
    (fun y hy => hnew y (List.mem_append_left _ hy)) hbody
  have hsize := w.weight_eq
  have hcompletes : R.Completes (R.machine.run c w.body).1 w.close := by
    refine ⟨?_, w.close_closes, by omega⟩
    rw [mem_seen_run, not_or]
    exact ⟨fun hmem => hdisjoint _ hmem _ (by simp) rfl, hnew _ (by simp)⟩
  have hstep := take_of_completes hcompletes
  rw [EventMachine.run_snoc, hout]
  simp only [machine] at hstep hclosed htotal ⊢
  rw [hstep, hclosed, htotal]
  refine ⟨?_, rfl, rfl, ?_⟩
  · rw [Option.toList_some, List.map_singleton, List.nil_append]
    dsimp only
    rw [Nat.add_assoc, hsize]
  · dsimp only
    rw [Nat.add_assoc, hsize]

/-- Whole windows that come in order are numbered in order. -/
theorem run_windows (ws : List (Window R)) (c : WindowCount κ) (hstart : c.weight = 0)
    (hnew : ∀ y ∈ ws.flatMap Window.items, R.key y ∉ c.seen)
    (hnodup : ((ws.flatMap Window.items).map R.key).Nodup) :
    (R.machine.run c (ws.flatMap Window.items)).2 = ws.zipIdx.map fun w =>
      (w.1.close, c.closed + w.2 + 1, c.total + R.size * (w.2 + 1)) := by
  induction ws generalizing c with
  | nil => rfl
  | cons w ws ih =>
    rw [List.flatMap_cons] at hnew hnodup ⊢
    rw [List.map_append, List.nodup_append] at hnodup
    obtain ⟨hw, hws, hdisjoint⟩ := hnodup
    obtain ⟨hout, hclosed, hweight, htotal⟩ := run_window w c hstart
      (fun y hy => hnew y (List.mem_append_left _ hy)) hw
    have hnext := ih (R.machine.run c w.items).1 hweight (by
      intro y hy
      rw [mem_seen_run, not_or]
      exact ⟨fun hmem => hdisjoint _ hmem _ (List.mem_map_of_mem hy) rfl,
        hnew y (List.mem_append_right _ hy)⟩) hws
    rw [EventMachine.run_append_snd, hout, hnext, hclosed, htotal, List.zipIdx_cons, List.map_cons,
      List.zipIdx_succ, List.map_map]
    simp only [List.singleton_append, Nat.add_zero, Nat.zero_add, Nat.mul_one, List.cons.injEq, true_and]
    refine List.map_congr_left fun w' _ => ?_
    simp only [Function.comp_apply, Prod.mk.injEq, true_and]
    constructor
    · omega
    · rw [Nat.mul_succ R.size (w'.2 + 1)]
      omega

/-- Whole windows that break off anywhere leave less than a window open. -/
theorem weight_run_lt (hsize : 0 < R.size) (ws : List (Window R)) (c : WindowCount κ)
    (hstart : c.weight = 0) (hclose : ∀ w ∈ ws, 0 < R.weight w.close)
    (hnew : ∀ y ∈ ws.flatMap Window.items, R.key y ∉ c.seen)
    (hnodup : ((ws.flatMap Window.items).map R.key).Nodup) {l : List α}
    (hl : l <+: ws.flatMap Window.items) : (R.machine.run c l).1.weight < R.size := by
  induction ws generalizing c l with
  | nil =>
    rw [List.prefix_nil.mp hl]
    exact hstart.trans_lt hsize
  | cons w ws ih =>
    rw [List.flatMap_cons] at hnew hnodup hl
    rw [List.map_append, List.nodup_append] at hnodup
    obtain ⟨hw, hws, hdisjoint⟩ := hnodup
    have hneww := fun y hy => hnew y (List.mem_append_left _ hy)
    obtain ⟨-, -, hzero, -⟩ := run_window w c hstart hneww hw
    obtain ⟨rest, hsplit⟩ := hl
    rcases List.append_eq_append_iff.mp hsplit with ⟨more, hitems, -⟩ | ⟨later, rfl, hlater⟩
    · rcases List.eq_nil_or_concat more with rfl | ⟨more, x, rfl⟩
      · rw [List.append_nil] at hitems
        rw [← hitems, hzero]
        exact hsize
      · -- before the closing item
        rw [List.concat_eq_append, ← List.append_assoc] at hitems
        obtain ⟨hbody, -⟩ := List.append_inj' hitems rfl
        have hmem : ∀ y ∈ l, y ∈ w.body := fun y hy => hbody ▸ List.mem_append_left _ hy
        have hsum := w.weight_eq
        have hlast := hclose w List.mem_cons_self
        rw [hbody, List.map_append, List.sum_append] at hsum
        obtain ⟨-, -, hweight, -⟩ := run_body l c (fun y hy => w.body_closes y (hmem y hy))
          (fun y hy => hneww y (List.mem_append_left _ (hmem y hy))) (by
            rw [Window.items, hbody, List.append_assoc, List.map_append] at hw
            exact (List.nodup_append.mp hw).1)
        omega
    · rw [EventMachine.run_append_fst]
      refine ih _ hzero (fun w' hw' => hclose w' (List.mem_cons_of_mem w hw')) ?_ hws ⟨rest, hlater.symm⟩
      intro y hy
      rw [mem_seen_run, not_or]
      exact ⟨fun hmem => hdisjoint _ hmem _ (List.mem_map_of_mem hy) rfl,
        hnew y (List.mem_append_right _ hy)⟩

end
end WindowRule
