import Mathlib.Data.List.Nodup

/-!
# Histories of pairwise distinct values

What a resource has been worth so far, the latest value last. No value comes back, so
the place of a value in the history orders the values by age, and growth of the history
moves no value.
-/

structure History (V : Type*) where
  values : List V
  nodup : values.Nodup
  nonempty : values ≠ []

namespace History

variable {V : Type*}

def start (v : V) : History V := ⟨[v], List.nodup_singleton v, List.cons_ne_nil v []⟩

def latest (h : History V) : V := h.values.getLast h.nonempty

/-- The history moves on to a value it never had. -/
def extend (h : History V) (v : V) (hv : v ∉ h.values) : History V where
  values := h.values ++ [v]
  nodup := List.nodup_append.mpr ⟨h.nodup, List.nodup_singleton v, fun a ha b hb => by
    rw [List.mem_singleton.mp hb]
    exact fun hab => hv (hab ▸ ha)⟩
  nonempty := by simp

/-- `h'` continues `h`. -/
def Extends (h h' : History V) : Prop := h.values <+: h'.values

theorem mem_start (v : V) : v ∈ (start v).values := List.mem_singleton_self v

theorem mem_latest (h : History V) : h.latest ∈ h.values := List.getLast_mem h.nonempty

namespace Extends

variable {h h' h'' : History V}

theorem refl (h : History V) : Extends h h := List.prefix_refl h.values

theorem trans (hh : Extends h h') (hh' : Extends h' h'') : Extends h h'' :=
  List.IsPrefix.trans hh hh'

theorem extend (h : History V) {v : V} (hv : v ∉ h.values) : Extends h (h.extend v hv) :=
  List.prefix_append h.values [v]

theorem mem (hh : Extends h h') {v : V} (hv : v ∈ h.values) : v ∈ h'.values := hh.subset hv

end Extends

/-! ## Age -/

variable [DecidableEq V]

def index (h : History V) (v : V) : ℕ := h.values.idxOf v

/-- No value is later than the latest. -/
theorem index_le_latest (h : History V) {v : V} (hv : v ∈ h.values) :
    h.index v ≤ h.index h.latest := by
  have hlast : h.index h.latest = h.values.length - 1 := by
    unfold index latest
    rw [List.getLast_eq_getElem h.nonempty]
    exact h.nodup.idxOf_getElem _ _
  have hlt : h.index v < h.values.length := List.idxOf_lt_length_of_mem hv
  omega

/-- Values keep their place when the history grows. -/
theorem Extends.index_eq {h h' : History V} (hh : Extends h h') {v : V} (hv : v ∈ h.values) :
    h'.index v = h.index v := by
  obtain ⟨more, hmore⟩ := hh
  unfold index
  rw [← hmore, List.idxOf_append_of_mem hv]

end History
