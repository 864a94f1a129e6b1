/-
# The states and amounts of the payment store

What the rows of the payment service share: the states of invoices, payments and operation claims with
the transitions they allow, the bound on amounts, and the checks on keys and currencies.
-/
import Mathlib

namespace Payments

/-! ## States -/

/-- `InvoiceStatus`; `opened` is the source's `open`. -/
inductive InvoiceStatus
  | draft
  | opened
  | paid
  | pastDue
  | void
  | uncollectible
  deriving DecidableEq, Repr

namespace InvoiceStatus

def isOpen : InvoiceStatus → Bool
  | opened | pastDue => true
  | _ => false

/-- `paid`, `void` and `uncollectible` are terminal. -/
def canTransitionTo : InvoiceStatus → InvoiceStatus → Bool
  | draft, _ => true
  | opened, next => next != draft
  | pastDue, next => next != draft && next != opened
  | paid, next => next == paid
  | void, next => next == void
  | uncollectible, next => next == uncollectible

end InvoiceStatus

inductive PaymentStatus
  | pending
  | processing
  | requiresAction
  | succeeded
  | partiallyRefunded
  | refunded
  | failed
  deriving DecidableEq, Repr

namespace PaymentStatus

/-- The provider has confirmed that money moved. -/
def isSettled : PaymentStatus → Bool
  | succeeded | partiallyRefunded | refunded => true
  | _ => false

/-- A provider answer that has not settled yet. -/
def isTransient : PaymentStatus → Bool
  | pending | processing | requiresAction => true
  | _ => false

/-- A settled or failed payment never goes back to a transient state. -/
def canTransitionTo : PaymentStatus → PaymentStatus → Bool
  | pending, next =>
    next == processing || next == requiresAction || next == succeeded || next == failed
  | processing, next | requiresAction, next =>
    next.isTransient || next == succeeded || next == failed
  | succeeded, next => next == partiallyRefunded || next == refunded
  | partiallyRefunded, next => next == refunded
  | refunded, _ | failed, _ => false

theorem isTransient_of_canTransitionTo_succeeded {status : PaymentStatus}
    (h : status.canTransitionTo succeeded = true) : status.isTransient = true := by
  cases status <;> simp_all [canTransitionTo, isTransient]

theorem isTransient_of_canTransitionTo_failed {status : PaymentStatus}
    (h : status.canTransitionTo failed = true) : status.isTransient = true := by
  cases status <;> simp_all [canTransitionTo, isTransient]

theorem isTransient_of_canTransitionTo_isTransient {status next : PaymentStatus}
    (h : status.canTransitionTo next = true) (hnext : next.isTransient = true) :
    status.isTransient = true := by
  cases status <;> cases next <;> simp_all [canTransitionTo, isTransient]

theorem not_isSettled_of_isTransient {status : PaymentStatus} (h : status.isTransient = true) :
    status.isSettled = false := by
  cases status <;> simp_all [isSettled, isTransient]

end PaymentStatus

inductive OperationClaimState
  | claimed
  | dispatched
  | unknown
  | succeeded
  | failed
  deriving DecidableEq, Repr

def OperationClaimState.isTerminal : OperationClaimState → Bool
  | succeeded | failed => true
  | _ => false

/-- How far a payment that is under way has come. -/
inductive Progress
  | processing
  | requiresAction
  | pending
  deriving DecidableEq, Repr

def Progress.status : Progress → PaymentStatus
  | processing => .processing
  | requiresAction => .requiresAction
  | pending => .pending

/-! ## Amounts, keys and currencies -/

/-- The bound of `valid_amount`. -/
def maxMoneyMinor : ℤ := 1000000000000000

def validAmount (amount : ℤ) : Bool := -maxMoneyMinor ≤ amount && amount ≤ maxMoneyMinor

/-- `checked_add`; the bound lies inside the 64-bit domain. -/
def checkedAdd (left right : ℤ) : Option ℤ :=
  if validAmount (left + right) then some (left + right) else none

/-- `validate_idempotency`. -/
def validKey (key : String) : Bool := key ≠ "" && key.utf8ByteSize ≤ 200

def validCurrency (code : String) : Bool := code.length == 3 && code.all Char.isUpper

end Payments
