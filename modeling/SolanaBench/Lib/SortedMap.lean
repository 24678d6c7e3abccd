import Mathlib.Data.List.Pairwise
import Mathlib.Data.List.Nodup
import Mathlib.Data.List.Sort
import Mathlib.Order.Basic
import Mathlib.Algebra.GroupWithZero.Nat
import Mathlib.Algebra.Order.Group.Nat
import Mathlib.Algebra.Order.BigOperators.Group.List
import SolanaBench.Lib.Splits

/-!
# Ordered maps as strictly sorted association lists

The list carries the proof that its keys increase, so every lemma about lookups,
first keys and traversals holds without side conditions. All operations are
structural and evaluate in the kernel.
-/

structure SortedMap (κ ν : Type*) [LinearOrder κ] where
  entries : List (κ × ν)
  sorted : entries.Pairwise (fun a b => a.1 < b.1)

namespace SortedMap

variable {κ ν ε : Type*} [LinearOrder κ]

def empty : SortedMap κ ν := ⟨[], List.Pairwise.nil⟩

instance : EmptyCollection (SortedMap κ ν) := ⟨empty⟩
instance : Inhabited (SortedMap κ ν) := ⟨∅⟩

def get? (m : SortedMap κ ν) (k : κ) : Option ν :=
  (m.entries.find? (fun e => decide (e.1 = k))).map Prod.snd

def keys (m : SortedMap κ ν) : List κ := m.entries.map Prod.fst

def size (m : SortedMap κ ν) : ℕ := m.entries.length

def firstKeyValue (m : SortedMap κ ν) : Option (κ × ν) := m.entries.head?

def lastKeyValue (m : SortedMap κ ν) : Option (κ × ν) := m.entries.getLast?

/-- Sorted insertion that replaces an entry with the same key. -/
def insertEntry (k : κ) (v : ν) : List (κ × ν) → List (κ × ν)
  | [] => [(k, v)]
  | e :: es =>
    if k < e.1 then (k, v) :: e :: es
    else if k = e.1 then (k, v) :: es
    else e :: insertEntry k v es

theorem mem_insertEntry {k : κ} {v : ν} {x : κ × ν} {es : List (κ × ν)}
    (hs : es.Pairwise (fun a b => a.1 < b.1)) :
    x ∈ insertEntry k v es ↔ x = (k, v) ∨ x ∈ es ∧ x.1 ≠ k := by
  induction es with
  | nil => simp [insertEntry]
  | cons e es ih =>
    have he : ∀ y ∈ es, e.1 < y.1 := (List.pairwise_cons.mp hs).1
    have ih := ih (List.pairwise_cons.mp hs).2
    unfold insertEntry
    split_ifs with h1 h2
    · simp only [List.mem_cons]
      constructor
      · rintro (rfl | rfl | hx)
        · exact Or.inl rfl
        · exact Or.inr ⟨Or.inl rfl, h1.ne'⟩
        · exact Or.inr ⟨Or.inr hx, (h1.trans (he x hx)).ne'⟩
      · rintro (rfl | ⟨hx, -⟩)
        · exact Or.inl rfl
        · exact Or.inr hx
    · simp only [List.mem_cons]
      constructor
      · rintro (rfl | hx)
        · exact Or.inl rfl
        · exact Or.inr ⟨Or.inr hx, fun hk => absurd (he x hx) (by rw [hk, h2]; exact lt_irrefl _)⟩
      · rintro (rfl | ⟨rfl | hx, hk⟩)
        · exact Or.inl rfl
        · exact absurd h2.symm hk
        · exact Or.inr hx
    · simp only [List.mem_cons, ih]
      constructor
      · rintro (rfl | rfl | ⟨hx, hk⟩)
        · exact Or.inr ⟨Or.inl rfl, fun hk => h2 hk.symm⟩
        · exact Or.inl rfl
        · exact Or.inr ⟨Or.inr hx, hk⟩
      · rintro (rfl | ⟨rfl | hx, hk⟩)
        · exact Or.inr (Or.inl rfl)
        · exact Or.inl rfl
        · exact Or.inr (Or.inr ⟨hx, hk⟩)

theorem sorted_insertEntry (k : κ) (v : ν) {es : List (κ × ν)}
    (hs : es.Pairwise (fun a b => a.1 < b.1)) :
    (insertEntry k v es).Pairwise (fun a b => a.1 < b.1) := by
  induction es with
  | nil => simp [insertEntry]
  | cons e es ih =>
    obtain ⟨he, hes⟩ := List.pairwise_cons.mp hs
    unfold insertEntry
    split_ifs with h1 h2
    · refine List.pairwise_cons.mpr ⟨fun y hy => ?_, hs⟩
      rcases List.mem_cons.mp hy with rfl | hy
      · exact h1
      · exact h1.trans (he y hy)
    · exact List.pairwise_cons.mpr ⟨fun y hy => by simpa [h2] using he y hy, hes⟩
    · refine List.pairwise_cons.mpr ⟨fun y hy => ?_, ih hes⟩
      rcases (mem_insertEntry hes).mp hy with rfl | ⟨hy, -⟩
      · exact lt_of_le_of_ne (not_lt.mp h1) (Ne.symm h2)
      · exact he y hy

def insert (m : SortedMap κ ν) (k : κ) (v : ν) : SortedMap κ ν :=
  ⟨insertEntry k v m.entries, sorted_insertEntry k v m.sorted⟩

def retain (p : κ → ν → Bool) (m : SortedMap κ ν) : SortedMap κ ν :=
  ⟨m.entries.filter (fun e => p e.1 e.2), m.sorted.filter _⟩

def erase (m : SortedMap κ ν) (k : κ) : SortedMap κ ν := m.retain (fun j _ => decide (j ≠ k))

def popFirst (m : SortedMap κ ν) : SortedMap κ ν := ⟨m.entries.tail, m.sorted.tail⟩

/-- Remove leading entries as long as their keys meet `p`. -/
def dropWhile (p : κ → Bool) (m : SortedMap κ ν) : SortedMap κ ν :=
  ⟨m.entries.dropWhile fun e => p e.1, m.sorted.sublist (List.dropWhile_sublist _)⟩

variable (m : SortedMap κ ν)

@[simp] theorem entries_popFirst : m.popFirst.entries = m.entries.tail := rfl

@[simp] theorem entries_retain (p : κ → ν → Bool) :
    (m.retain p).entries = m.entries.filter (fun e => p e.1 e.2) := rfl

theorem mem_insert {k : κ} {v : ν} {x : κ × ν} :
    x ∈ (m.insert k v).entries ↔ x = (k, v) ∨ x ∈ m.entries ∧ x.1 ≠ k :=
  mem_insertEntry m.sorted

/-! ## Lookups -/

variable {m}

/-- Strict sortedness makes the entry of a key unique. -/
theorem eq_of_mem_entries {k : κ} {v w : ν} (hv : (k, v) ∈ m.entries)
    (hw : (k, w) ∈ m.entries) : v = w := by
  by_contra hne
  have hp : m.entries.Pairwise (fun a b => a.1 ≠ b.1) := m.sorted.imp fun h => h.ne
  have hs : Std.Symm (fun a b : κ × ν => a.1 ≠ b.1) := ⟨fun _ _ h => h.symm⟩
  exact hp.forall hv hw (by simpa using hne) rfl

theorem get?_eq_some_iff {k : κ} {v : ν} : m.get? k = some v ↔ (k, v) ∈ m.entries := by
  unfold get?
  constructor
  · intro h
    obtain ⟨⟨j, w⟩, hf, rfl⟩ := Option.map_eq_some_iff.mp h
    have hk := List.find?_some hf
    have hm := List.mem_of_find?_eq_some hf
    simp only [decide_eq_true_eq] at hk
    subst hk
    exact hm
  · intro h
    cases hf : m.entries.find? (fun e => decide (e.1 = k)) with
    | none => exact absurd (List.find?_eq_none.mp hf _ h) (by simp)
    | some e =>
      obtain ⟨j, w⟩ := e
      have hk := List.find?_some hf
      have hm := List.mem_of_find?_eq_some hf
      simp only [decide_eq_true_eq] at hk
      subst hk
      simp [eq_of_mem_entries hm h]

@[simp] theorem get?_empty (k : κ) : (∅ : SortedMap κ ν).get? k = none := rfl

theorem get?_insert (k j : κ) (v : ν) :
    (m.insert k v).get? j = if j = k then some v else m.get? j := by
  refine Option.ext fun w => ?_
  split_ifs with h
  · subst h
    rw [get?_eq_some_iff, mem_insert]
    simp [eq_comm]
  · rw [get?_eq_some_iff, get?_eq_some_iff, mem_insert]
    simp [h]

@[simp] theorem get?_insert_self (k : κ) (v : ν) : (m.insert k v).get? k = some v := by
  simp [get?_insert]

theorem get?_insert_of_ne {k j : κ} (h : j ≠ k) (v : ν) :
    (m.insert k v).get? j = m.get? j := by simp [get?_insert, h]

theorem isSome_get?_insert {k j : κ} {v : ν} (h : (m.get? j).isSome) :
    ((m.insert k v).get? j).isSome := by
  rw [get?_insert]
  split
  · rfl
  · exact h

theorem get?_retain (p : κ → ν → Bool) (k : κ) :
    (m.retain p).get? k = (m.get? k).filter (p k) := by
  refine Option.ext fun v => ?_
  rw [get?_eq_some_iff, Option.filter_eq_some_iff, get?_eq_some_iff]
  simp

/-- The value of a key, with a default, after the map is filtered by key or not. -/
theorem getD_retain (b : Prop) [Decidable b] (p : κ → Bool) (k : κ) (d : ν) :
    ((if b then m.retain fun j _ => p j else m).get? k).getD d =
      if b ∧ ¬p k then d else (m.get? k).getD d := by
  by_cases hb : b
  · rw [if_pos hb, get?_retain]
    cases m.get? k <;> cases p k <;> simp [hb, Option.filter]
  · simp [hb]

theorem get?_erase (k j : κ) : (m.erase k).get? j = if j = k then none else m.get? j := by
  rw [erase, get?_retain]
  split_ifs with h
  · cases m.get? j <;> simp [h]
  · cases m.get? j <;> simp [h]

theorem mem_keys_iff {k : κ} : k ∈ m.keys ↔ ∃ v, m.get? k = some v := by
  simp [keys, get?_eq_some_iff]

theorem keys_nodup : m.keys.Nodup :=
  List.pairwise_map.mpr (m.sorted.imp fun h => h.ne)

theorem keys_sorted : m.keys.Pairwise (· < ·) := List.pairwise_map.mpr m.sorted

/-- What is left after removing leading entries was there before. -/
theorem get?_of_dropWhile {p : κ → Bool} {k : κ} {v : ν} (h : (m.dropWhile p).get? k = some v) :
    m.get? k = some v := by
  rw [get?_eq_some_iff] at h ⊢
  exact (List.dropWhile_sublist _).subset h

/-- Where `p` holds up to some key, the leading entries that meet it are all that do. -/
theorem dropWhile_eq_retain {p : κ → Bool} (hp : ∀ j k, j < k → p k → p j) :
    m.dropWhile p = m.retain fun k _ => !p k := by
  have hentries : m.entries.dropWhile (fun e => p e.1) = m.entries.filter fun e => !p e.1 :=
    dropWhile_eq_filter_iff.mpr (m.sorted.imp fun hlt => hp _ _ hlt)
  simp [dropWhile, retain, hentries]

/-! ## First and last entries -/

theorem firstKeyValue_eq_none : m.firstKeyValue = none ↔ m.entries = [] := by
  simp [firstKeyValue]

theorem entries_of_firstKeyValue {e : κ × ν} (h : m.firstKeyValue = some e) :
    m.entries = e :: m.popFirst.entries := by
  unfold firstKeyValue at h
  cases he : m.entries with
  | nil => simp [he] at h
  | cons x xs =>
    simp only [he, List.head?_cons, Option.some.injEq] at h
    simp [he, h]

theorem firstKeyValue_mem {e : κ × ν} (h : m.firstKeyValue = some e) : e ∈ m.entries := by
  rw [entries_of_firstKeyValue h]
  exact List.mem_cons_self

theorem firstKeyValue_lt {e : κ × ν} (h : m.firstKeyValue = some e) :
    ∀ x ∈ m.popFirst.entries, e.1 < x.1 := by
  have hs := m.sorted
  rw [entries_of_firstKeyValue h] at hs
  exact (List.pairwise_cons.mp hs).1

theorem firstKeyValue_le {e : κ × ν} (h : m.firstKeyValue = some e) :
    ∀ x ∈ m.entries, e.1 ≤ x.1 := by
  intro x hx
  rw [entries_of_firstKeyValue h] at hx
  rcases List.mem_cons.mp hx with rfl | hx
  · exact le_rfl
  · exact (firstKeyValue_lt h x hx).le

theorem mem_popFirst {x : κ × ν} (h : x ∈ m.popFirst.entries) : x ∈ m.entries :=
  List.mem_of_mem_tail h

theorem size_popFirst {e : κ × ν} (h : m.firstKeyValue = some e) :
    m.size = m.popFirst.size + 1 := by
  unfold size
  rw [entries_of_firstKeyValue h]
  rfl

theorem lastKeyValue_eq_none : m.lastKeyValue = none ↔ m.entries = [] := by
  simp [lastKeyValue]

theorem le_lastKeyValue {e : κ × ν} (h : m.lastKeyValue = some e) :
    ∀ x ∈ m.entries, x.1 ≤ e.1 := by
  obtain ⟨ys, hys⟩ := List.getLast?_eq_some_iff.mp h
  intro x hx
  have hs := m.sorted
  rw [hys] at hs hx
  rcases List.mem_append.mp hx with hx | hx
  · exact ((List.pairwise_append.mp hs).2.2 x hx e (by simp)).le
  · simp only [List.mem_singleton] at hx
    rw [hx]

theorem lastKeyValue_popFirst {e : κ × ν} (hne : m.popFirst.entries ≠ [])
    (h : m.lastKeyValue = some e) : m.popFirst.lastKeyValue = some e := by
  obtain ⟨es, hs⟩ := m
  cases es with
  | nil => cases h
  | cons x es =>
    have hes : es ≠ [] := hne
    have hcons : (x :: es).getLast? = es.getLast? := List.getLast?_cons_of_ne_nil hes
    exact hcons.symm.trans h

/-! ## Visiting a list of keys

`forEach f ks` is the loop `for k in ks { if let Some(v) = map.get_mut(k) { f(k, v) } }`
whose body replaces the value and emits outputs. -/

def forEach (f : κ → ν → ν × List ε) : List κ → SortedMap κ ν → SortedMap κ ν × List ε
  | [], m => (m, [])
  | k :: ks, m =>
    match m.get? k with
    | none => forEach f ks m
    | some v =>
      let r := f k v
      let t := forEach f ks (m.insert k r.1)
      (t.1, r.2 ++ t.2)

/-- A key not visited keeps its value. -/
theorem get?_forEach_of_notMem (f : κ → ν → ν × List ε) {ks : List κ} {j : κ} (hj : j ∉ ks)
    (m : SortedMap κ ν) : (forEach f ks m).1.get? j = m.get? j := by
  induction ks generalizing m with
  | nil => rfl
  | cons k ks ih =>
    have hne : j ≠ k := fun h => hj (by simp [h])
    have hks : j ∉ ks := fun h => hj (by simp [h])
    unfold forEach
    split
    · exact ih hks m
    · rw [ih hks, get?_insert_of_ne hne]

/-- A key visited once is updated once. -/
theorem get?_forEach_of_mem (f : κ → ν → ν × List ε) {ks : List κ} (hks : ks.Nodup) {j : κ}
    (hj : j ∈ ks) (m : SortedMap κ ν) :
    (forEach f ks m).1.get? j = (m.get? j).map (fun v => (f j v).1) := by
  induction ks generalizing m with
  | nil => simp at hj
  | cons k ks ih =>
    obtain ⟨hk, hnd⟩ := List.nodup_cons.mp hks
    unfold forEach
    rcases List.mem_cons.mp hj with rfl | hj
    · split
      · next h => rw [get?_forEach_of_notMem f hk, h]; rfl
      · next v h => rw [get?_forEach_of_notMem f hk, get?_insert_self, h]; rfl
    · have hne : j ≠ k := fun h => hk (by rw [← h]; exact hj)
      split
      · exact ih hnd hj m
      · rw [ih hnd hj, get?_insert_of_ne hne]

/-- Outputs that concern `j` only come from the visit of `j`. -/
theorem filterMap_forEach {π : Type*} (f : κ → ν → ν × List ε) (view : ε → Option π) (j : κ)
    {ks : List κ} (hks : ks.Nodup) (m : SortedMap κ ν)
    (hf : ∀ k ∈ ks, ∀ v, k ≠ j → m.get? k = some v → (f k v).2.filterMap view = []) :
    (forEach f ks m).2.filterMap view =
      if j ∈ ks then ((m.get? j).map (fun v => (f j v).2.filterMap view)).getD [] else [] := by
  induction ks generalizing m with
  | nil => rfl
  | cons k ks ih =>
    obtain ⟨hk, hnd⟩ := List.nodup_cons.mp hks
    unfold forEach
    cases hv : m.get? k with
    | none =>
      rw [ih hnd m fun i hi => hf i (List.mem_cons_of_mem k hi)]
      by_cases hjk : j = k
      · subst hjk
        simp [hk, hv]
      · simp [hjk]
    | some v =>
      have hget : ∀ i ∈ ks, (m.insert k (f k v).1).get? i = m.get? i := fun i hi =>
        get?_insert_of_ne (by rintro rfl; exact hk hi) _
      have hrest := ih hnd (m.insert k (f k v).1) fun i hi w hij hw =>
        hf i (List.mem_cons_of_mem k hi) w hij (by rw [← hget i hi]; exact hw)
      rw [List.filterMap_append, hrest]
      by_cases hjk : j = k
      · subst hjk
        simp [hk, hv]
      · have hown := hf k List.mem_cons_self v (fun h => hjk h.symm) hv
        by_cases hj : j ∈ ks
        · simp [hown, hj, hget j hj]
        · simp [hown, hj, hjk]

/-! ## Weights

`weight w m` adds up a number carried by every value, such as the entries it holds. -/

def weight (w : ν → ℕ) (m : SortedMap κ ν) : ℕ := (m.entries.map fun e => w e.2).sum

@[simp] theorem weight_empty (w : ν → ℕ) : weight w (∅ : SortedMap κ ν) = 0 := rfl

theorem find?_eq_none_of_lt {k : κ} {es : List (κ × ν)} (h : ∀ e ∈ es, k < e.1) :
    es.find? (fun e => decide (e.1 = k)) = none := by
  refine List.find?_eq_none.mpr fun e he => ?_
  simpa using (h e he).ne'

/-- An insertion adds the weight of the new value and takes away that of the one it replaces. -/
theorem weight_insert (w : ν → ℕ) (m : SortedMap κ ν) (k : κ) (v : ν) :
    weight w (m.insert k v) + ((m.get? k).map w).getD 0 = weight w m + w v := by
  obtain ⟨es, hes⟩ := m
  unfold weight get? insert
  dsimp only
  induction es with
  | nil => simp [insertEntry]
  | cons e es ih =>
    have he : ∀ x ∈ es, e.1 < x.1 := (List.pairwise_cons.mp hes).1
    have ih := ih (List.pairwise_cons.mp hes).2
    unfold insertEntry
    by_cases hlt : k < e.1
    · have hnone : (e :: es).find? (fun e => decide (e.1 = k)) = none :=
        find?_eq_none_of_lt fun x hx => (List.mem_cons.mp hx).elim (fun h => h ▸ hlt)
          fun hx => hlt.trans (he x hx)
      rw [if_pos hlt, hnone]
      simp only [List.map_cons, List.sum_cons, Option.map_none, Option.getD_none]
      omega
    · rw [if_neg hlt]
      by_cases heq : k = e.1
      · rw [if_pos heq]
        simp only [List.find?_cons, heq, decide_true, List.map_cons, List.sum_cons,
          Option.map_some, Option.getD_some]
        omega
      · rw [if_neg heq]
        have hne : decide (e.1 = k) = false := by simpa using fun h => heq h.symm
        simp only [List.find?_cons, hne, List.map_cons, List.sum_cons]
        omega

theorem weight_insert_of_get? {w : ν → ℕ} {k : κ} {v : ν} (h : m.get? k = some v) (v' : ν) :
    weight w (m.insert k v') + w v = weight w m + w v' := by
  have hw := weight_insert w m k v'
  rw [h] at hw
  exact hw

theorem size_insert (m : SortedMap κ ν) (k : κ) (v : ν) :
    (m.insert k v).size + (if (m.get? k).isSome then 1 else 0) = m.size + 1 := by
  have hsize : ∀ m : SortedMap κ ν, weight (fun _ => 1) m = m.size := fun m => by
    simp [weight, size]
  have hw := weight_insert (fun _ => 1) m k v
  rw [hsize, hsize] at hw
  cases hk : m.get? k <;> simpa [hk] using hw

/-- Dropping values without weight changes no weight. -/
theorem weight_retain {w : ν → ℕ} {p : κ → ν → Bool}
    (h : ∀ e ∈ m.entries, p e.1 e.2 = false → w e.2 = 0) : weight w (m.retain p) = weight w m := by
  unfold weight
  rw [entries_retain]
  generalize m.entries = es at h
  induction es with
  | nil => rfl
  | cons e es ih =>
    have ih := ih fun x hx => h x (List.mem_cons_of_mem e hx)
    cases hp : p e.1 e.2 with
    | true => simp [hp, ih]
    | false => simp [hp, ih, h e List.mem_cons_self hp]

theorem weight_retain_le (w : ν → ℕ) (p : κ → ν → Bool) (m : SortedMap κ ν) :
    weight w (m.retain p) ≤ weight w m :=
  (List.filter_sublist.map fun e : κ × ν => w e.2).sum_le_sum fun _ _ => Nat.zero_le _

/-- If every visit turns weight into outputs one for one, so does the whole traversal. -/
theorem weight_forEach {w : ν → ℕ} {c : List ε → ℕ} (hnil : c [] = 0)
    (happend : ∀ os ps, c (os ++ ps) = c os + c ps) {f : κ → ν → ν × List ε}
    (hf : ∀ k v, c (f k v).2 + w (f k v).1 = w v) (ks : List κ) (m : SortedMap κ ν) :
    c (forEach f ks m).2 + weight w (forEach f ks m).1 = weight w m := by
  induction ks generalizing m with
  | nil => simp [forEach, hnil]
  | cons k ks ih =>
    unfold forEach
    cases hk : m.get? k with
    | none => exact ih m
    | some v =>
      have hrest := ih (m.insert k (f k v).1)
      have hins := weight_insert_of_get? (w := w) hk (f k v).1
      have hv := hf k v
      dsimp only
      rw [happend]
      omega

/-- If every visit pays for its outputs with weight, so does the whole traversal. -/
theorem weight_forEach_le {w : ν → ℕ} {c : List ε → ℕ} (hnil : c [] = 0)
    (happend : ∀ os ps, c (os ++ ps) = c os + c ps) {I : κ → ν → Prop} {f : κ → ν → ν × List ε}
    (hf : ∀ k v, I k v → I k (f k v).1 ∧ c (f k v).2 + w (f k v).1 ≤ w v) (ks : List κ)
    {m : SortedMap κ ν} (hm : ∀ k v, m.get? k = some v → I k v) :
    c (forEach f ks m).2 + weight w (forEach f ks m).1 ≤ weight w m := by
  induction ks generalizing m with
  | nil => simp [forEach, hnil]
  | cons k ks ih =>
    unfold forEach
    cases hk : m.get? k with
    | none => exact ih hm
    | some v =>
      obtain ⟨hI, hv⟩ := hf k v (hm k v hk)
      have hins := weight_insert_of_get? (w := w) hk (f k v).1
      have hrest := ih (m := m.insert k (f k v).1) (by
        intro j u hj
        rw [get?_insert] at hj
        split_ifs at hj with hjk
        · rw [← Option.some.inj hj, hjk]
          exact hI
        · exact hm j u hj)
      dsimp only
      rw [happend]
      omega

/-! ## A range of keys -/

/-- To look the numbers of a range up one by one is to filter the entries by their keys. -/
theorem filterMap_get?_range' {ν : Type*} (m : SortedMap ℕ ν) (start n : ℕ) :
    (List.range' start n).filterMap m.get? =
      (m.entries.filter fun e => start ≤ e.1 ∧ e.1 < start + n).map Prod.snd := by
  have hirrefl : Std.Irrefl fun a b : ℕ × ν => a.1 < b.1 := ⟨fun a => lt_irrefl a.1⟩
  have hantisymm : Std.Antisymm fun a b : ℕ × ν => a.1 < b.1 :=
    ⟨fun a b hab hba => absurd hab (lt_asymm hba)⟩
  have hkeyed : (List.range' start n).filterMap (fun k => (m.get? k).map (Prod.mk k)) =
      m.entries.filter fun e => start ≤ e.1 ∧ e.1 < start + n := by
    refine List.Pairwise.eq_of_mem_iff (r := fun a b : ℕ × ν => a.1 < b.1) ?_
      (m.sorted.sublist List.filter_sublist) fun e => ?_
    · refine (List.pairwise_lt_range' 1).filterMap _ fun a b hab x hx y hy => ?_
      obtain ⟨_, -, rfl⟩ := Option.map_eq_some_iff.mp hx
      obtain ⟨_, -, rfl⟩ := Option.map_eq_some_iff.mp hy
      exact hab
    · simp only [List.mem_filterMap, List.mem_range'_1, Option.map_eq_some_iff, List.mem_filter,
        decide_eq_true_eq, get?_eq_some_iff]
      constructor
      · rintro ⟨k, hk, v, hv, rfl⟩
        exact ⟨hv, hk⟩
      · rintro ⟨he, hk⟩
        exact ⟨e.1, hk, e.2, he, rfl⟩
  rw [← hkeyed, List.map_filterMap]
  refine List.filterMap_congr fun k _ => ?_
  rw [Option.map_map]
  exact Option.map_id'.symm

end SortedMap
