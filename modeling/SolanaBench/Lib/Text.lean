import Mathlib.Data.String.Basic

/-!
# Splitting and hexadecimal fields

`splitOnce` is the split of a text at its first separator, and `parseHex` reads a field of
hexadecimal digits. A number written with any padding of zeros is read back, and a text that
joins two fields without the separator in the first is split into them.
-/

namespace Text

/-- What precedes the first separator, and what follows it. -/
def splitOnce (sep : List Char) : List Char → Option (List Char × List Char)
  | [] => none
  | c :: cs =>
    if sep.isPrefixOf (c :: cs) then some ([], (c :: cs).drop sep.length)
    else (splitOnce sep cs).map fun p => (c :: p.1, p.2)

theorem splitOnce_append {c : Char} {before after : List Char} (h : c ∉ before) :
    splitOnce [c] (before ++ c :: after) = some (before, after) := by
  induction before with
  | nil => simp [splitOnce]
  | cons b before ih =>
    obtain ⟨hne, hbefore⟩ := not_or.mp (List.mem_cons.not.mp h)
    rw [List.cons_append, splitOnce, ih hbefore, if_neg]
    · rfl
    · simp [hne]

theorem eq_append_of_splitOnce {sep cs before after : List Char}
    (h : splitOnce sep cs = some (before, after)) : cs = before ++ sep ++ after := by
  induction cs generalizing before with
  | nil => cases h
  | cons c cs ih =>
    unfold splitOnce at h
    split at h
    · next hsep =>
      obtain ⟨rest, hrest⟩ := List.isPrefixOf_iff_prefix.mp hsep
      obtain ⟨rfl, rfl⟩ := Prod.mk.inj (Option.some.inj h)
      rw [← hrest, List.drop_left, List.nil_append]
    · obtain ⟨⟨before', after'⟩, hsplit, heq⟩ := Option.map_eq_some_iff.mp h
      obtain ⟨rfl, rfl⟩ := Prod.mk.inj heq
      rw [ih hsplit]
      rfl

/-- A separator is not found where its first character is missing. -/
theorem splitOnce_append_of_notMem {c : Char} {sep before after : List Char} (h : c ∉ before) :
    splitOnce (c :: sep) (before ++ (c :: sep) ++ after) = some (before, after) := by
  induction before with
  | nil => simp [splitOnce]
  | cons b before ih =>
    obtain ⟨hne, hbefore⟩ := not_or.mp (List.mem_cons.not.mp h)
    rw [List.cons_append, List.cons_append, splitOnce, ih hbefore, if_neg]
    · rfl
    · simp [hne]

theorem splitOnce_eq_none {c : Char} {sep cs : List Char} (h : c ∉ cs) :
    splitOnce (c :: sep) cs = none := by
  induction cs with
  | nil => rfl
  | cons b cs ih =>
    obtain ⟨hne, hcs⟩ := not_or.mp (List.mem_cons.not.mp h)
    rw [splitOnce, ih hcs, if_neg]
    · rfl
    · simp [hne]

/-! ## Hexadecimal -/

def hexVal (c : Char) : Option ℕ :=
  if '0' ≤ c ∧ c ≤ '9' then some (c.toNat - '0'.toNat)
  else if 'a' ≤ c ∧ c ≤ 'f' then some (c.toNat - 'a'.toNat + 10)
  else if 'A' ≤ c ∧ c ≤ 'F' then some (c.toNat - 'A'.toNat + 10)
  else none

/-- Go on reading from a number. -/
def readHex (n : ℕ) : List Char → Option ℕ
  | [] => some n
  | c :: cs => (hexVal c).bind fun d => readHex (16 * n + d) cs

/-- A field must not be empty. -/
def parseHex (cs : List Char) : Option ℕ := if cs = [] then none else readHex 0 cs

theorem readHex_append (n : ℕ) (cs ds : List Char) :
    readHex n (cs ++ ds) = (readHex n cs).bind fun m => readHex m ds := by
  induction cs generalizing n with
  | nil => rfl
  | cons c cs ih =>
    rw [List.cons_append, readHex, readHex]
    cases hexVal c with
    | none => rfl
    | some d => exact ih _

theorem hexVal_digitChar : ∀ d < 16, hexVal d.digitChar = some d := by decide

theorem readHex_digitChar {n d : ℕ} (hd : d < 16) : readHex n [d.digitChar] = some (16 * n + d) := by
  rw [readHex, hexVal_digitChar d hd]
  rfl

theorem readHex_toDigits (n : ℕ) : readHex 0 (Nat.toDigits 16 n) = some n := by
  induction n using Nat.strong_induction_on with
  | _ n ih =>
    rw [Nat.toDigits_eq_if (by decide)]
    split
    · next hlt => rw [readHex_digitChar hlt, Nat.mul_zero, Nat.zero_add]
    · next hle =>
      rw [readHex_append, ih (n / 16) (by omega), Option.bind_some,
        readHex_digitChar (Nat.mod_lt n (by decide)), Nat.div_add_mod]

theorem readHex_zeros (k : ℕ) : readHex 0 (List.replicate k '0') = some 0 := by
  induction k with
  | zero => rfl
  | succ k ih =>
    rw [List.replicate_succ, readHex]
    exact ih

/-- Leading zeros do not change what is read. -/
theorem parseHex_zeros_toDigits (k n : ℕ) :
    parseHex (List.replicate k '0' ++ Nat.toDigits 16 n) = some n := by
  unfold parseHex
  rw [if_neg (by simp), readHex_append, readHex_zeros, Option.bind_some, readHex_toDigits]

/-- A field that can be read consists of digits. -/
theorem hexVal_isSome_of_readHex {n m : ℕ} {cs : List Char} (h : readHex n cs = some m) :
    ∀ c ∈ cs, (hexVal c).isSome := by
  induction cs generalizing n with
  | nil => simp
  | cons c cs ih =>
    obtain ⟨d, hd, hrest⟩ := Option.bind_eq_some_iff.mp h
    refine List.forall_mem_cons.mpr ⟨by simp [hd], ih hrest⟩

theorem isAscii_of_hexVal {c : Char} (h : (hexVal c).isSome) : c.toNat < 128 := by
  have hle : ∀ d : Char, d.toNat < 128 → c ≤ d → c.toNat < 128 := fun d hd hcd =>
    lt_of_le_of_lt (UInt32.le_iff_toNat_le.mp (Char.le_def.mp hcd)) hd
  unfold hexVal at h
  split at h
  · next hc => exact hle '9' (by decide) hc.2
  · split at h
    · next hc => exact hle 'f' (by decide) hc.2
    · split at h
      · next hc => exact hle 'F' (by decide) hc.2
      · cases h

theorem length_zeros_toDigits {w n : ℕ} (hw : 0 < w) (hn : n < 16 ^ w) :
    (List.replicate (w - (Nat.toDigits 16 n).length) '0' ++ Nat.toDigits 16 n).length = w := by
  have hlen := (Nat.length_toDigits_le_iff (b := 16) (by decide) hw).mpr hn
  rw [List.length_append, List.length_replicate]
  omega

/-- An ASCII text has as many bytes as characters. -/
theorem utf8ByteSize_of_ascii {cs : List Char} (h : ∀ c ∈ cs, c.toNat < 128) :
    (String.ofList cs).utf8ByteSize = cs.length := by
  induction cs with
  | nil => rfl
  | cons c cs ih =>
    obtain ⟨hc, hcs⟩ := List.forall_mem_cons.mp h
    have hsize : c.utf8Size = 1 :=
      Char.utf8Size_eq_one_iff.mpr (UInt32.le_iff_toNat_le.mpr (Nat.le_of_lt_succ hc))
    rw [← List.singleton_append, String.ofList_append, String.utf8ByteSize_append, ih hcs,
      ← String.singleton_eq_ofList, String.utf8ByteSize_singleton, hsize, List.length_append,
      List.length_singleton]

end Text
