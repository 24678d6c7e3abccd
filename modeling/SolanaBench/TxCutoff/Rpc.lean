import SolanaBench.Lib.Json
import SolanaBench.TxCutoff.Engine

/-! The two calls that send a transaction: a raw transaction, whose reply is read as a typed
record, and a bundle, whose reply is probed as a JSON tree. -/
namespace SolanaBench.TxCutoff.Rpc

open Json

/-- The texts of the errors of the JSON reader and of the HTTP client are left out. -/
inductive RpcError
  | transport (message : String)
  | json
  | http
  deriving DecidableEq, Repr

/-- `RpcError_`. -/
structure ErrorFields where
  code : ℤ
  message : String
  deriving DecidableEq, Repr

structure RpcResponse (α : Type) where
  jsonrpc : String
  id : Json
  result : Option α
  error : Option ErrorFields

def i64? : Json → Option ℤ := intIn? (-2 ^ 63) (2 ^ 63 - 1)

/-- The derived reader; a record may come as an array. -/
def ErrorFields.read : Json → Option ErrorFields
  | .obj m => do
    let code ← required i64? "code" m
    let message ← required str? "message" m
    pure { code, message }
  | .arr [code, message] => do
    let code ← i64? code
    let message ← str? message
    pure { code, message }
  | _ => none

def RpcResponse.read {α : Type} (readResult : Json → Option α) : Json → Option (RpcResponse α)
  | .obj m => do
    let jsonrpc ← required str? "jsonrpc" m
    let id ← required value? "id" m
    let result ← optional readResult "result" m
    let error ← optional ErrorFields.read "error" m
    pure { jsonrpc, id, result, error }
  | .arr (jsonrpc :: id :: rest) => do
    let jsonrpc ← str? jsonrpc
    let id ← value? id
    let result ← trailing readResult rest[0]?
    let error ← trailing ErrorFields.read rest[1]?
    if rest.length ≤ 2 then pure { jsonrpc, id, result, error } else none
  | _ => none

/-- `Value::get` by name. -/
def member? (name : String) : Json → Option Json
  | .obj m => get? name m
  | _ => none

section Calls

-- the text of a body as a JSON value, and the reader of 32-byte hashes
variable (parse : String → Option Json) (readB256 : Json → Option TxHash)

/-- The argument is the outcome of `raw_call`. -/
def sendRawTransactionPrepared (call : Except RpcError String) : Except RpcError SendOutcome := do
  let text ← call
  match (parse text).bind (RpcResponse.read readB256) with
  | none => .error .json
  | some parsed =>
    match parsed.error with
    | some err => .ok (.rejected err.code err.message)
    | none =>
      match parsed.result with
      | some _ => .ok .accepted
      | none => .error (.transport "missing result and error in response")

def sendBundlePrepared (call : Except RpcError String) : Except RpcError SendOutcome := do
  let text ← call
  match (parse text).bind value? with
  | none => .error .json
  | some v =>
    match member? "error" v with
    | some err =>
      let code := ((member? "code" err).bind i64?).getD 0
      let message := ((member? "message" err).bind str?).getD ""
      .ok (.rejected code message)
    | none =>
      if (member? "result" v).isSome then .ok .accepted
      else .error (.transport "missing result and error in bundle response")

/-- The send task takes the bundle endpoint if there is one. -/
def sendPrepared (bundleHttp : Bool) (call : Except RpcError String) :
    Except RpcError SendOutcome :=
  if bundleHttp then sendBundlePrepared parse call
  else sendRawTransactionPrepared parse readB256 call

end Calls

/-! ## What a reply means -/

/-- Rejected where there is an error, accepted where there is a result, and an `Err` else. -/
def verdict (m : List (String × Json)) : Option SendOutcome :=
  match present? "error" m with
  | some e => (errorObject? e).map fun fields => .rejected fields.1 fields.2
  | none => if (present? "result" m).isSome then some .accepted else none

/-- An error that is not `null` has an integer code and a text. -/
def ErrorTyped (m : List (String × Json)) : Prop :=
  ∀ e, present? "error" m = some e → (errorObject? e).isSome

/-- A result that is not `null` has the type the path expects: a bundle path takes any. -/
def ResultTyped (readB256 : Json → Option TxHash) (bundleHttp : Bool) (m : List (String × Json)) :
    Prop :=
  bundleHttp = false → ∀ r, present? "result" m = some r → (readB256 r).isSome

/-- Both paths make of the reply what it means. -/
def ReadAlike (parse : String → Option Json) (readB256 : Json → Option TxHash) (text : String)
    (m : List (String × Json)) : Prop :=
  ∀ bundleHttp, ResultTyped readB256 bundleHttp m →
    (sendPrepared parse readB256 bundleHttp (.ok text)).toOption = verdict m

def InI64 (n : ℤ) : Prop := -2 ^ 63 ≤ n ∧ n ≤ 2 ^ 63 - 1

/-- The code of the error, where there is one, fits 64 signed bits. -/
def CodeFits (m : List (String × Json)) : Prop :=
  ∀ e fields, present? "error" m = some e → errorObject? e = some fields → InI64 fields.1

/-- A bundle reply is read for what it means: the deciding field is not written as `null`. -/
def BundleReads (m : List (String × Json)) : Prop :=
  if (Json.obj m).buildable then
    CodeFits m ∧ (∀ e, get? "error" m = some e → e.isNull = false) ∧
      (get? "error" m = none → ∀ r, get? "result" m = some r → r.isNull = false)
  else verdict m = none

/-- A raw reply is read for what it means: it is a complete record with each field once. -/
structure RawReads (m : List (String × Json)) : Prop where
  jsonrpc : (required str? "jsonrpc" m).isSome
  id : (required value? "id" m).isSome
  result : (occurrences "result" m).length ≤ 1
  error : (occurrences "error" m).length ≤ 1
  fields : ∀ em, present? "error" m = some (.obj em) →
    (occurrences "code" em).length = 1 ∧ (occurrences "message" em).length = 1
  code : CodeFits m

/-! ## The raw path -/

section Raw

variable {parse : String → Option Json} {readB256 : Json → Option TxHash} {text : String}
  {m : List (String × Json)}

theorem read_obj_eq_some_iff {α : Type} {readResult : Json → Option α} {r : RpcResponse α} :
    RpcResponse.read readResult (.obj m) = some r ↔
      required str? "jsonrpc" m = some r.jsonrpc ∧ required value? "id" m = some r.id ∧
        optional readResult "result" m = some r.result ∧
          optional ErrorFields.read "error" m = some r.error := by
  simp only [RpcResponse.read, Option.bind_eq_bind, Option.bind_eq_some_iff, Option.pure_def,
    Option.some.injEq]
  constructor
  · rintro ⟨jsonrpc, hj, id, hi, result, hr, error, he, rfl⟩
    exact ⟨hj, hi, hr, he⟩
  · rintro ⟨hj, hi, hr, he⟩
    exact ⟨_, hj, _, hi, _, hr, _, he, rfl⟩

theorem error_read_obj_eq_some_iff {e : ErrorFields} : ErrorFields.read (.obj m) = some e ↔
    required i64? "code" m = some e.code ∧ required str? "message" m = some e.message := by
  simp only [ErrorFields.read, Option.bind_eq_bind, Option.bind_eq_some_iff, Option.pure_def,
    Option.some.injEq]
  constructor
  · rintro ⟨code, hc, message, hm, rfl⟩
    exact ⟨hc, hm⟩
  · rintro ⟨hc, hm⟩
    exact ⟨_, hc, _, hm, rfl⟩

/-- An error object, by its fields. -/
theorem errorObject?_eq_some {e : Json} {fields : ℤ × String} (h : errorObject? e = some fields) :
    ∃ em c t, e = .obj em ∧ get? "code" em = some c ∧ int? c = some fields.1 ∧
      get? "message" em = some t ∧ str? t = some fields.2 := by
  cases e with
  | obj em =>
    simp only [errorObject?, Option.bind_eq_bind, Option.bind_eq_some_iff, Option.pure_def,
      Option.some.injEq] at h
    obtain ⟨code, ⟨c, hc, hcode⟩, message, ⟨t, ht, hmessage⟩, rfl⟩ := h
    exact ⟨em, c, t, rfl, hc, hcode, ht, hmessage⟩
  | _ => cases h

theorem i64?_eq_some_iff {v : Json} {n : ℤ} : i64? v = some n ↔ int? v = some n ∧ InI64 n := by
  simp [i64?, intIn?, InI64, Option.filter_eq_some_iff]

/-- An error object is read as a record exactly if its two fields occur once and its code fits. -/
theorem error_read_isSome_iff {em : List (String × Json)} {fields : ℤ × String}
    (h : errorObject? (.obj em) = some fields) :
    (ErrorFields.read (.obj em)).isSome ↔
      ((occurrences "code" em).length = 1 ∧ (occurrences "message" em).length = 1) ∧
        InI64 fields.1 := by
  obtain ⟨em', c, t, hem, hc, hcode, ht, hmessage⟩ := errorObject?_eq_some h
  cases hem
  have hread : (ErrorFields.read (.obj em)).isSome ↔
      (required i64? "code" em).isSome ∧ (required str? "message" em).isSome := by
    simp only [Option.isSome_iff_exists, error_read_obj_eq_some_iff]
    exact ⟨fun ⟨e, hcode, hmessage⟩ => ⟨⟨_, hcode⟩, _, hmessage⟩,
      fun ⟨⟨code, hcode⟩, message, hmessage⟩ => ⟨⟨code, message⟩, hcode, hmessage⟩⟩
  have hfits : (i64? c).isSome ↔ InI64 fields.1 := by
    rw [Option.isSome_iff_exists]
    simp only [i64?_eq_some_iff, hcode, Option.some.injEq]
    exact ⟨fun ⟨_, heq, hn⟩ => heq ▸ hn, fun hn => ⟨_, rfl, hn⟩⟩
  rw [hread, required_isSome_iff, required_isSome_iff, hc, ht]
  simp only [Option.some.injEq, forall_eq', hfits, hmessage, Option.isSome_some, and_true]
  exact ⟨fun ⟨⟨hone, hn⟩, hone'⟩ => ⟨⟨hone, hone'⟩, hn⟩,
    fun ⟨⟨hone, hone'⟩, hn⟩ => ⟨⟨hone, hn⟩, hone'⟩⟩

/-- Where the fields have their types, the record can be read exactly if it is complete. -/
theorem read_isSome_iff (herror : ErrorTyped m) (hresult : ResultTyped readB256 false m) :
    (RpcResponse.read readB256 (.obj m)).isSome ↔ RawReads m := by
  have hread : (RpcResponse.read readB256 (.obj m)).isSome ↔
      (required str? "jsonrpc" m).isSome ∧ (required value? "id" m).isSome ∧
        (optional readB256 "result" m).isSome ∧ (optional ErrorFields.read "error" m).isSome := by
    simp only [Option.isSome_iff_exists, read_obj_eq_some_iff]
    exact ⟨fun ⟨r, hj, hi, hr, he⟩ => ⟨⟨_, hj⟩, ⟨_, hi⟩, ⟨_, hr⟩, _, he⟩,
      fun ⟨⟨j, hj⟩, ⟨i, hi⟩, ⟨r, hr⟩, e, he⟩ => ⟨⟨j, i, r, e⟩, hj, hi, hr, he⟩⟩
  have herr : (optional ErrorFields.read "error" m).isSome ↔
      (occurrences "error" m).length ≤ 1 ∧ (∀ em, present? "error" m = some (.obj em) →
        (occurrences "code" em).length = 1 ∧ (occurrences "message" em).length = 1) ∧
          CodeFits m := by
    rw [optional_isSome_iff]
    refine and_congr_right fun _ => ?_
    constructor
    · intro h
      refine ⟨fun em hem => ?_, fun e fields he hfields => ?_⟩
      · obtain ⟨fields, hfields⟩ := Option.isSome_iff_exists.mp (herror _ hem)
        exact ((error_read_isSome_iff hfields).mp (h _ hem)).1
      · obtain ⟨em, -, -, rfl, -⟩ := errorObject?_eq_some hfields
        exact ((error_read_isSome_iff hfields).mp (h _ he)).2
    · rintro ⟨hone, hfits⟩ e he
      obtain ⟨fields, hfields⟩ := Option.isSome_iff_exists.mp (herror _ he)
      obtain ⟨em, -, -, rfl, -⟩ := errorObject?_eq_some hfields
      exact (error_read_isSome_iff hfields).mpr ⟨hone em he, hfits _ _ he hfields⟩
  have hres : (optional readB256 "result" m).isSome ↔ (occurrences "result" m).length ≤ 1 := by
    rw [optional_isSome_iff]
    exact and_iff_left (hresult rfl)
  rw [hread, herr, hres]
  exact ⟨fun ⟨hj, hi, hr, he, hf, hc⟩ => ⟨hj, hi, hr, he, hf, hc⟩,
    fun h => ⟨h.jsonrpc, h.id, h.result, h.error, h.fields, h.code⟩⟩

/-- The record read from an error object has its code and its message. -/
theorem error_read_eq {em : List (String × Json)} {fields : ℤ × String} {e : ErrorFields}
    (h : errorObject? (.obj em) = some fields) (he : ErrorFields.read (.obj em) = some e) :
    e.code = fields.1 ∧ e.message = fields.2 := by
  obtain ⟨em', c, t, hem, hc, hcode, ht, hmessage⟩ := errorObject?_eq_some h
  cases hem
  obtain ⟨hrc, hrm⟩ := error_read_obj_eq_some_iff.mp he
  obtain ⟨c', hc', hcode'⟩ := get?_of_required hrc
  obtain ⟨t', ht', hmessage'⟩ := get?_of_required hrm
  obtain rfl : c = c' := Option.some.inj (hc.symm.trans hc')
  obtain rfl : t = t' := Option.some.inj (ht.symm.trans ht')
  exact ⟨Option.some.inj ((i64?_eq_some_iff.mp hcode').1.symm.trans hcode),
    Option.some.inj (hmessage'.symm.trans hmessage)⟩

/-- What the record says, where it can be read, is what the reply means. -/
theorem raw_of_read (herror : ErrorTyped m) (hresult : ResultTyped readB256 false m)
    (hparse : parse text = some (.obj m)) {r : RpcResponse TxHash}
    (hr : RpcResponse.read readB256 (.obj m) = some r) :
    (sendRawTransactionPrepared parse readB256 (.ok text)).toOption = verdict m := by
  obtain ⟨-, -, hres, herr⟩ := read_obj_eq_some_iff.mp hr
  have hres' := optional_eq_bind (Option.isSome_of_eq_some hres)
  have herr' := optional_eq_bind (Option.isSome_of_eq_some herr)
  rw [hres, Option.some.injEq] at hres'
  rw [herr, Option.some.injEq] at herr'
  have hbind : (parse text).bind (RpcResponse.read readB256) = some r := by
    rw [hparse]
    exact hr
  unfold sendRawTransactionPrepared verdict
  simp only [bind, Except.bind, hbind]
  cases hp : present? "error" m with
  | none =>
    rw [hp, Option.bind_none] at herr'
    rw [herr']
    cases hq : present? "result" m with
    | none =>
      rw [hq, Option.bind_none] at hres'
      rw [hres']
      rfl
    | some q =>
      obtain ⟨h, hh⟩ := Option.isSome_iff_exists.mp (hresult rfl q hq)
      rw [hq, Option.bind_some, hh] at hres'
      rw [hres']
      rfl
  | some v =>
    obtain ⟨fields, hfields⟩ := Option.isSome_iff_exists.mp (herror v hp)
    obtain ⟨em, -, -, rfl, -⟩ := errorObject?_eq_some hfields
    obtain ⟨e, he⟩ := Option.isSome_iff_exists.mp
      ((optional_isSome_iff.mp (Option.isSome_of_eq_some herr)).2 _ hp)
    obtain ⟨hcode, hmessage⟩ := error_read_eq hfields he
    rw [hp, Option.bind_some, he] at herr'
    rw [herr']
    simp [hfields, hcode, hmessage, Except.toOption]

/-- The raw path makes of a reply what it means iff it means nothing or is complete. -/
theorem raw_iff (herror : ErrorTyped m) (hresult : ResultTyped readB256 false m)
    (hparse : parse text = some (.obj m)) :
    (sendRawTransactionPrepared parse readB256 (.ok text)).toOption = verdict m ↔
      verdict m = none ∨ RawReads m := by
  rw [← read_isSome_iff herror hresult]
  cases hr : RpcResponse.read readB256 (.obj m) with
  | none =>
    have hbind : (parse text).bind (RpcResponse.read readB256) = none := by
      rw [hparse]
      exact hr
    unfold sendRawTransactionPrepared
    simp [bind, Except.bind, hbind, Except.toOption, eq_comm]
  | some r => simp [raw_of_read herror hresult hparse hr]

end Raw

/-! ## The bundle path -/

/-- What the bundle path makes of a reply that it can build. -/
def probe (m : List (String × Json)) : Option SendOutcome :=
  match get? "error" m with
  | some err => some (.rejected (((member? "code" err).bind i64?).getD 0)
      (((member? "message" err).bind str?).getD ""))
  | none => if (get? "result" m).isSome then some .accepted else none

section Bundle

variable {parse : String → Option Json} {text : String} {m : List (String × Json)}

theorem bundle_eq_probe (hparse : parse text = some (.obj m)) :
    (sendBundlePrepared parse (.ok text)).toOption =
      if (Json.obj m).buildable then probe m else none := by
  have hbind : (parse text).bind value? = value? (.obj m) := by
    rw [hparse]
    rfl
  unfold sendBundlePrepared probe
  simp only [bind, Except.bind, hbind, value?]
  cases (Json.obj m).buildable with
  | false => rfl
  | true =>
    simp only [if_true, member?]
    cases get? "error" m with
    | some err => rfl
    | none => by_cases hr : (get? "result" m).isSome = true <;> simp [hr, Except.toOption]

/-- A code that does not fit is taken for zero, which does. -/
theorem getD_code_eq_iff {c : Json} {n : ℤ} (h : int? c = some n) :
    (i64? c).getD 0 = n ↔ InI64 n := by
  by_cases hn : InI64 n
  · have hsome : i64? c = some n := i64?_eq_some_iff.mpr ⟨h, hn⟩
    simp [hsome, hn]
  · have hnone : i64? c = none := Option.eq_none_iff_forall_ne_some.mpr fun k hk => by
      obtain ⟨hk, hfits⟩ := i64?_eq_some_iff.mp hk
      rw [h, Option.some.injEq] at hk
      exact hn (hk ▸ hfits)
    have hzero : InI64 0 := by
      unfold InI64
      omega
    rw [hnone]
    exact iff_of_false (fun heq => hn (heq ▸ hzero)) hn

/-- The probe finds what the reply means iff no deciding field is `null` and the code fits. -/
theorem probe_iff (herror : ErrorTyped m) : probe m = verdict m ↔
    CodeFits m ∧ (∀ e, get? "error" m = some e → e.isNull = false) ∧
      (get? "error" m = none → ∀ r, get? "result" m = some r → r.isNull = false) := by
  unfold probe verdict
  cases he : get? "error" m with
  | none =>
    have hp := present?_of_get?_none he
    have hcode : CodeFits m := fun e fields h => by rw [hp] at h; cases h
    simp only [hp, hcode, reduceCtorEq, false_implies, implies_true, true_and, forall_const]
    cases hr : get? "result" m with
    | none => simp [present?_of_get?_none hr]
    | some r =>
      cases hnull : r.isNull with
      | true => simp [present?_of_get?_null hr hnull, hnull]
      | false => simp [present?_of_get? hr hnull, hnull]
  | some e =>
    cases hnull : e.isNull with
    | true =>
      rw [present?_of_get?_null he hnull]
      refine iff_of_false (fun h => ?_) (fun h => by simp [hnull] at h)
      dsimp only at h
      split at h <;> cases h
    | false =>
      have hp := present?_of_get? he hnull
      obtain ⟨fields, hfields⟩ := Option.isSome_iff_exists.mp (herror e hp)
      obtain ⟨em, c, t, rfl, hc, hcode, ht, hmessage⟩ := errorObject?_eq_some hfields
      have hfits : CodeFits m ↔ InI64 fields.1 := by
        refine ⟨fun h => h _ _ hp hfields, fun h e fields' he' hf => ?_⟩
        obtain rfl := Option.some.inj (hp.symm.trans he')
        obtain rfl := Option.some.inj (hfields.symm.trans hf)
        exact h
      rw [hp, hfits, ← getD_code_eq_iff hcode]
      simp [member?, hc, ht, hmessage, hfields, hnull]

/-- The bundle path makes of a reply what it means iff it reads it by the deciding field. -/
theorem bundle_iff (herror : ErrorTyped m) (hparse : parse text = some (.obj m)) :
    (sendBundlePrepared parse (.ok text)).toOption = verdict m ↔ BundleReads m := by
  rw [bundle_eq_probe hparse, BundleReads]
  cases (Json.obj m).buildable with
  | false => exact eq_comm
  | true => exact probe_iff herror

end Bundle

/-! ## Both paths -/

/-- The two paths read a reply alike iff each reads it for what it means. -/
theorem readAlike_iff (parse : String → Option Json) (readB256 : Json → Option TxHash)
    (text : String) {m : List (String × Json)} (hparse : parse text = some (.obj m))
    (herror : ErrorTyped m) :
    ReadAlike parse readB256 text m ↔ BundleReads m ∧
      (ResultTyped readB256 false m → verdict m = none ∨ RawReads m) := by
  constructor
  · intro h
    exact ⟨(bundle_iff herror hparse).mp (h true (fun hb => by cases hb)),
      fun hresult => (raw_iff herror hresult hparse).mp (h false hresult)⟩
  · rintro ⟨hbundle, hraw⟩ bundleHttp hresult
    cases bundleHttp with
    | true => exact (bundle_iff herror hparse).mpr hbundle
    | false => exact (raw_iff herror hresult hparse).mpr (hraw hresult)

/-- A successful reply in which the error is spelt out as `null`. -/
def nullError : List (String × Json) :=
  [("jsonrpc", .str "2.0"), ("id", .int 1), ("result", .str "0x0b"), ("error", .null)]

def sampleB256 : Json → Option TxHash
  | .str "0x0b" => some 11
  | _ => none

/-- The same without the error. -/
def plainReply : List (String × Json) :=
  [("jsonrpc", .str "2.0"), ("id", .int 1), ("result", .str "0x0b")]

theorem readAlike_iff_plain :
    ErrorTyped plainReply ∧
      ReadAlike (fun _ => some (.obj plainReply)) sampleB256 "reply" plainReply := by
  have herror : ErrorTyped plainReply := fun e he => by cases he
  refine ⟨herror, (readAlike_iff (fun _ => some (.obj plainReply)) sampleB256 "reply" rfl
    herror).mpr ⟨?_, fun _ => Or.inr ?_⟩⟩
  · have hbuild : (Json.obj plainReply).buildable = true := by decide
    rw [BundleReads, if_pos hbuild]
    refine ⟨fun e fields he => (by cases he), fun e he => (by cases he), fun _ r hr => ?_⟩
    cases hr
    rfl
  · exact ⟨rfl, rfl, le_rfl, Nat.zero_le 1, fun em he => (by cases he),
      fun e fields he => (by cases he)⟩

/-- The bundle path rejects the reply with code zero, and the raw path accepts it. -/
theorem null_error_rejected :
    ErrorTyped nullError ∧ ResultTyped sampleB256 false nullError ∧
      verdict nullError = some .accepted ∧
      (sendPrepared (fun _ => some (.obj nullError)) sampleB256 true (.ok "reply")).toOption =
        some (.rejected 0 "") ∧
      (sendPrepared (fun _ => some (.obj nullError)) sampleB256 false (.ok "reply")).toOption =
        some .accepted := by
  refine ⟨fun e he => (by cases he), fun _ r hr => ?_, rfl, rfl, rfl⟩
  cases hr
  rfl

end SolanaBench.TxCutoff.Rpc
