import Mathlib.Data.Int.Notation
import Mathlib.Data.Option.Basic

/-!
# JSON values and records read from them

A record is read from an object by the names of its fields. A field that must be there
occurs once, one that may be missing at most once, and `null` counts as missing; other
members are skipped. Readers of records give `none` where reading fails.
-/

/-- A parsed JSON text. `int` is an integer literal that fits 64 bits, signed or unsigned (but
for `-0`), and `float` any other number. `unreadable` can be skipped but not built: a number out
of range, a text with an unpaired surrogate, or a value nested beyond the parser's limit. -/
inductive Json
  | null
  | bool (b : Bool)
  | int (n : ℤ)
  | float
  | str (s : String)
  | arr (elems : List Json)
  | obj (members : List (String × Json))
  | unreadable

namespace Json

mutual

/-- The value can be built as a whole. -/
def buildable : Json → Bool
  | .arr elems => buildableAll elems
  | .obj members => buildableMembers members
  | .unreadable => false
  | _ => true

def buildableAll : List Json → Bool
  | [] => true
  | v :: rest => buildable v && buildableAll rest

def buildableMembers : List (String × Json) → Bool
  | [] => true
  | (_, v) :: rest => buildable v && buildableMembers rest

end

def isNull : Json → Bool
  | .null => true
  | _ => false

/-- The values of the members of that name, in order. -/
def occurrences (name : String) (members : List (String × Json)) : List Json :=
  (members.filter fun e => e.1 = name).map Prod.snd

/-- Lookup by name, where the last of several members counts. -/
def get? (name : String) (members : List (String × Json)) : Option Json :=
  (occurrences name members).getLast?

/-- The value of a member that is there and not `null`. -/
def present? (name : String) (members : List (String × Json)) : Option Json :=
  (get? name members).filter fun v => !v.isNull

/-! ## Readers -/

variable {α β : Type*}

def str? : Json → Option String
  | .str s => some s
  | _ => none

def int? : Json → Option ℤ
  | .int n => some n
  | _ => none

/-- An integer of a fixed width. -/
def intIn? (lo hi : ℤ) (v : Json) : Option ℤ := (int? v).filter fun n => lo ≤ n ∧ n ≤ hi

/-- Any value, kept as it is. -/
def value? (v : Json) : Option Json := if v.buildable then some v else none

def option? (read : Json → Option α) (v : Json) : Option (Option α) :=
  if v.isNull then some none else (read v).map some

def required (read : Json → Option α) (name : String) (members : List (String × Json)) : Option α :=
  match occurrences name members with
  | [v] => read v
  | _ => none

def optional (read : Json → Option α) (name : String) (members : List (String × Json)) :
    Option (Option α) :=
  match occurrences name members with
  | [] => some none
  | [v] => option? read v
  | _ => none

/-- A field of a record written as an array that may end before it. -/
def trailing (read : Json → Option α) : Option Json → Option (Option α)
  | none => some none
  | some v => option? read v

section Readers

variable {read : Json → Option α} {name : String} {members : List (String × Json)} {a : α}
  {v : Json}

theorem option?_eq_none_iff : option? read v = some none ↔ v.isNull = true := by
  unfold option?
  split
  · simpa
  · simp [*]

theorem option?_eq_some_iff :
    option? read v = some (some a) ↔ v.isNull = false ∧ read v = some a := by
  unfold option?
  split
  · simp [*]
  · simp [*]

theorem required_eq_some_iff :
    required read name members = some a ↔ ∃ v, occurrences name members = [v] ∧ read v = some a := by
  unfold required
  split
  · rename_i v hv
    simp [hv]
  · rename_i hne
    simp only [reduceCtorEq, false_iff, not_exists, not_and]
    exact fun v hv => absurd hv (hne v)

/-- A field read as missing does not occur or occurs once as `null`, whatever its type. -/
theorem optional_eq_none_iff : optional read name members = some none ↔
    occurrences name members = [] ∨ ∃ v, occurrences name members = [v] ∧ v.isNull = true := by
  unfold optional
  split
  · simp [*]
  · rename_i v hv
    rw [option?_eq_none_iff, hv]
    simp
  · rename_i hnil hne
    simp only [reduceCtorEq, false_iff, not_or, not_exists, not_and]
    exact ⟨hnil, fun v hv => absurd hv (hne v)⟩

theorem optional_eq_some_iff : optional read name members = some (some a) ↔
    ∃ v, occurrences name members = [v] ∧ v.isNull = false ∧ read v = some a := by
  unfold optional
  split
  · simp [*]
  · rename_i v hv
    rw [option?_eq_some_iff, hv]
    simp
  · rename_i hnil hne
    simp only [reduceCtorEq, false_iff, not_exists, not_and]
    exact fun v hv => absurd hv (hne v)

theorem present?_of_get?_none (h : get? name members = none) : present? name members = none := by
  rw [present?, h]
  rfl

theorem present?_of_get?_null (h : get? name members = some v) (hv : v.isNull = true) :
    present? name members = none := by
  simp [present?, h, hv]

theorem present?_of_get? (h : get? name members = some v) (hv : v.isNull = false) :
    present? name members = some v := by
  simp [present?, h, hv]

theorem get?_of_occurrences (h : occurrences name members = [v]) : get? name members = some v := by
  rw [get?, h]
  rfl

theorem present?_of_occurrences (h : occurrences name members = [v]) (hv : v.isNull = false) :
    present? name members = some v := present?_of_get? (get?_of_occurrences h) hv

theorem present?_of_optional_none (h : optional read name members = some none) :
    present? name members = none := by
  unfold present? get?
  rcases optional_eq_none_iff.mp h with hnil | ⟨v, hv, hnull⟩
  · rw [hnil]
    rfl
  · rw [hv]
    simp [hnull]

theorem present?_of_optional_some (h : optional read name members = some (some a)) :
    ∃ v, present? name members = some v ∧ read v = some a := by
  obtain ⟨v, hv, hnull, hread⟩ := optional_eq_some_iff.mp h
  exact ⟨v, present?_of_occurrences hv hnull, hread⟩

theorem get?_of_required (h : required read name members = some a) :
    ∃ v, get? name members = some v ∧ read v = some a := by
  obtain ⟨v, hv, hread⟩ := required_eq_some_iff.mp h
  exact ⟨v, get?_of_occurrences hv, hread⟩

/-- A required field is read exactly if it occurs once and has its type. -/
theorem required_isSome_iff : (required read name members).isSome ↔
    (occurrences name members).length = 1 ∧ ∀ v, get? name members = some v → (read v).isSome := by
  unfold required get?
  split
  · rename_i v hv
    simp [hv]
  · rename_i hne
    simp only [Option.isSome_none, Bool.false_eq_true, false_iff, not_and]
    intro hlen
    obtain ⟨v, hv⟩ := List.length_eq_one_iff.mp hlen
    exact absurd hv (hne v)

/-- A field that may be missing is read exactly if it occurs at most once and has its type
where it is present. -/
theorem optional_isSome_iff : (optional read name members).isSome ↔
    (occurrences name members).length ≤ 1 ∧
      ∀ v, present? name members = some v → (read v).isSome := by
  unfold optional present? get?
  split
  · simp [*]
  · rename_i v hv
    rw [hv]
    cases hnull : v.isNull <;> simp [option?, hnull]
  · rename_i hnil hne
    simp only [Option.isSome_none, Bool.false_eq_true, false_iff, not_and]
    intro hlen
    rcases Nat.le_one_iff_eq_zero_or_eq_one.mp hlen with hzero | hone
    · exact absurd (List.length_eq_zero_iff.mp hzero) hnil
    · obtain ⟨v, hv⟩ := List.length_eq_one_iff.mp hone
      exact absurd hv (hne v)

/-- What is read is what a lookup finds, read. -/
theorem optional_eq_bind (h : (optional read name members).isSome) :
    optional read name members = some ((present? name members).bind read) := by
  obtain ⟨o, ho⟩ := Option.isSome_iff_exists.mp h
  cases o with
  | none => rw [ho, present?_of_optional_none ho, Option.bind_none]
  | some a =>
    obtain ⟨v, hv, hread⟩ := present?_of_optional_some ho
    rw [ho, hv, Option.bind_some, hread]

end Readers

/-- The code and the message of a JSON-RPC error object. -/
def errorObject? : Json → Option (ℤ × String)
  | .obj m => do
    let code ← (get? "code" m).bind int?
    let message ← (get? "message" m).bind str?
    pure (code, message)
  | _ => none

end Json
