import SolanaBench.TickTrigger.Preparer

/-! The tip accounts of the vendors, and the rotation through them. -/
namespace SolanaBench.TickTrigger

def heliusTipAccounts : List Pubkey :=
  [ "4ACfpUFoaSD9bfPdeu6DBt89gB6ENTeHBXCAi87NhDEE",
    "D2L6yPZ2FmmmTKPgzaMKdhu6EWZcTpLy1Vhx8uvAfrLT",
    "9bnz4RShgq1hAnLnZbP8kbgBg1kEmcJBYQq3gQbmnSta",
    "5VY91ws6B2hMmBFRsXkoAAdsPHBJwRfBht4DXox3xkwn",
    "2nyhqdwKcJZR2vcqCyrYsaPVdAnFoJjiksCXJ7hfEYgD",
    "2q5pghRs6arqVjRvT5gfgWfWcHWmw1ZuCzphgd5KfWGJ",
    "wyvPkWjVZz1M8fHQnMMCDTQDbkManefNNhweYk5WkcF",
    "3KCKozbAaF75qEU33jtzozcJ29yJuaLJTy2jFdzUY8bT",
    "4vieeGHPYPG2MmyPRcYjdiDmmhN3ww7hsFNap8pVN3Ey",
    "4TQLFNWK8AovT1gFvda5jfw2oJeRMKEmw7aH6MGBJ3or" ].map Pubkey.fromStr

def jitoTipAccounts : List Pubkey :=
  [ "96gYZGLnJYVFmbjzopPSU6QiEV5fGqZNyN9nmNhvrZU5",
    "HFqU5x63VTqvQss8hp11i4wVV8bD44PvwucfZ2bU7gRe",
    "Cw8CFyM9FkoMi7K7Crf6HNQqf4uEMzpKw6QNghXLvLkY",
    "ADaUMid9yfUytqMBgopwjb2DTLSokTSzL1zt6iGPaS49",
    "DfXygSm4jCyNCybVYYK6DwvWqjKee8pbDmJGcLWNDXjh",
    "ADuUkR4vqLUMWXxW9gh6D6L8pMSawimctcNZ5pGwDcEt",
    "DttWaMuVvTiduZRnguLF7jNxTgiMBZ1hyAumKUiL2KRL",
    "3AVi9Tg9Uo68tJfuvoKvqKNWKkC5wPdSSdeBnizKZ6jT" ].map Pubkey.fromStr

def tipAccountsFor : SenderKind → List Pubkey
  | .helius => heliusTipAccounts
  | .jito => jitoTipAccounts
  | .triton => []

theorem tipAccountsFor_eq_nil_iff {kind : SenderKind} :
    tipAccountsFor kind = [] ↔ kind = .triton := by
  cases kind <;> simp [tipAccountsFor, heliusTipAccounts, jitoTipAccounts]

structure TipAccountRotator where
  accounts : List Pubkey
  cursor : ℕ := 0
  deriving DecidableEq, Repr

namespace TipAccountRotator

/-- The next account, and the rotator with its cursor moved on. -/
def next (r : TipAccountRotator) : Option Pubkey × TipAccountRotator :=
  if r.accounts = [] then (none, r)
  else (r.accounts[r.cursor % r.accounts.length]?, { r with cursor := (r.cursor + 1) % 2 ^ 64 })

theorem next_isSome (r : TipAccountRotator) : r.next.1.isSome = decide (r.accounts ≠ []) := by
  unfold next
  split
  · rename_i hnil
    simp [hnil]
  · rename_i hne
    have hlt := Nat.mod_lt r.cursor (List.length_pos_iff.mpr hne)
    simp [List.getElem?_eq_getElem hlt, hne]

@[simp] theorem next_accounts (r : TipAccountRotator) : r.next.2.accounts = r.accounts := by
  unfold next
  split <;> rfl

end TipAccountRotator
end SolanaBench.TickTrigger
