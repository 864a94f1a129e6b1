/-
# The root cap over a run

Every operation keeps the columns of the task rows in range (`Service.Wf`), so the saturating sums
of the admission are exact whenever it grants something.  One granted reserve of an enrolled child
adds its prediction once to what the root and its live children committed, and the admission left
room for it (`child_reserve_within_root_cap`).
-/
import Faktor.BudgetScope
import Faktor.CostInvariant

namespace Budget

open CostLedger Sqlite

/-! ## Committed amounts -/

/-- The amount a numeric column holds. -/
def amountOf : SqlNum → ℕ
  | .int n => n
  | .real n => n

/-- What a task spent, and what its open and uncertain reservations hold. -/
def committedMicro (s : Store) (key : TaskKey) : ℕ :=
  ((s.tasks key).map fun t => amountOf t.spentCostMicro).getD 0 + s.held key

/-- The cap of a task row. -/
def maxCost (s : Store) (key : TaskKey) : Option ℕ := (s.tasks key).bind TaskRow.maxCostMicro

/-- The scopes written under a root session. -/
def Service.scopesOf (m : Service) (rootSession : SessionId) : List BudgetScope :=
  ((m.sessions rootSession).map fun facts => facts.scopes.rows).getD []

/-- What the root and its enrolled children of live sessions committed together. -/
def Service.liveCommitted (m : Service) (root : TaskKey) : ℕ :=
  committedMicro m.store root +
    (((m.scopesOf root.sessionId).filter (m.counts root.sessionId)).map fun s =>
      committedMicro m.store s.key).sum

variable {a : ℕ}

theorem addU64_of_lt {b : ℕ} (h : addU64 a b < u64Max) : addU64 a b = a + b := by
  rw [addU64] at h ⊢
  omega

theorem foldl_addU64 {l : List ℕ} (h : l.foldl addU64 a < u64Max) :
    l.foldl addU64 a = a + l.sum := by
  induction l generalizing a with
  | nil => simp
  | cons x l ih =>
    rw [List.foldl_cons] at h ⊢
    have hrest := ih h
    have hfirst : addU64 a x = a + x := addU64_of_lt (by omega)
    rw [hrest, hfirst, List.sum_cons]
    omega

variable {s : Store} {key : TaskKey}

theorem costTaskRow_ok {row : Option (Option ℕ × ℕ)} (h : costTaskRow s key = .ok row) :
    row = (s.tasks key).map fun t => (t.maxCostMicro, amountOf t.spentCostMicro) := by
  rw [costTaskRow] at h
  cases htask : s.tasks key with
  | none =>
    rw [htask] at h
    exact (Except.ok.inj h).symm
  | some t =>
    rw [htask] at h
    cases hspent : t.spentCostMicro with
    | int n =>
      simp only [hspent, SqlNum.readInt, Except.ok.injEq] at h
      rw [← h, Option.map_some, hspent, amountOf]
    | real n => simp [hspent, SqlNum.readInt] at h

variable {c : ℕ}

/-- A sum of the admission that did not saturate is the amount committed. -/
theorem committedOf_eq (h : committedOf s key = .ok c) (hlt : c < u64Max) : c = committedMicro s key := by
  rw [committedOf, bind_eq_ok] at h
  obtain ⟨row, hrow, hsum⟩ := h
  obtain rfl := Except.ok.inj hsum
  rw [foldl_addU64 hlt, sum_heldPredictions, committedMicro, costTaskRow_ok hrow, Option.map_map]
  rfl

variable {m : Service} {scopes : List BudgetScope}

/-- So is a sum over the enrollments. -/
theorem foldlM_addMember {counts : BudgetScope → Bool} {acc : ℕ}
    (h : scopes.foldlM (m.addMember counts) acc = .ok c) (hlt : c < u64Max) :
    c = acc + ((scopes.filter counts).map fun s => committedMicro m.store s.key).sum := by
  induction scopes generalizing acc with
  | nil => exact (Except.ok.inj h).symm
  | cons s scopes ih =>
    rw [List.foldlM_cons, bind_eq_ok] at h
    obtain ⟨acc', hfirst, hrest⟩ := h
    have hsum := ih hrest
    rw [Service.addMember] at hfirst
    split_ifs at hfirst with hcounts
    · rw [bind_eq_ok] at hfirst
      obtain ⟨own, hown, hadd⟩ := hfirst
      obtain rfl : addU64 acc own = acc' := Except.ok.inj hadd
      have hexact : addU64 acc own = acc + own := addU64_of_lt (by omega)
      have hcommitted := committedOf_eq hown (by omega)
      rw [List.filter_cons_of_pos hcounts, List.map_cons, List.sum_cons]
      omega
    · obtain rfl := Except.ok.inj hfirst
      rw [List.filter_cons_of_neg hcounts]
      exact hsum

theorem enrollmentsOf_ok {root : SessionId} (h : m.enrollmentsOf root = .ok scopes) :
    scopes = m.scopesOf root := by
  rw [Service.enrollmentsOf] at h
  rw [Service.scopesOf]
  cases hroot : m.sessions root with
  | none =>
    rw [hroot] at h
    exact (Except.ok.inj h).symm
  | some facts =>
    rw [hroot] at h
    dsimp only at h
    split_ifs at h
    exact (Except.ok.inj h).symm

/-! ## The admission -/

/-- A task enrolled under a root, with its cap not cleared. -/
def Service.Enrolled (m : Service) (root key : TaskKey) : Prop :=
  m.rootOf key.sessionId = some root ∧
    (m.scopesOf root.sessionId).any (fun s => s.enrolls key) = true

variable {root : TaskKey} {cap : ℕ}

/-- What the root leaves an enrolled child is the cap less what is committed, exactly where the
sum does not saturate. -/
theorem consumerRootFree_of_enrolled {free : Option ℕ} (henrolled : m.Enrolled root key)
    (hcap : maxCost m.store root = some cap) (h : m.consumerRootFree key = .ok free) :
    ∃ committed, free = some (cap - committed) ∧
      (committed < u64Max → committed = m.liveCommitted root) := by
  obtain ⟨hroot, hany⟩ := henrolled
  rw [Service.consumerRootFree, hroot] at h
  dsimp only at h
  rw [bind_eq_ok] at h
  obtain ⟨scopes, hscopes, h⟩ := h
  obtain rfl := enrollmentsOf_ok hscopes
  rw [if_neg (by simp [hany]), bind_eq_ok] at h
  obtain ⟨row, hrow, h⟩ := h
  obtain ⟨t, htask, hmax⟩ := Option.bind_eq_some_iff.mp hcap
  rw [costTaskRow_ok hrow, htask, Option.map_some, hmax] at h
  dsimp only at h
  rw [bind_eq_ok] at h
  obtain ⟨own, hown, h⟩ := h
  rw [bind_eq_ok] at h
  obtain ⟨committed, hcommitted, h⟩ := h
  refine ⟨committed, (Except.ok.inj h).symm, fun hlt => ?_⟩
  have hsum := foldlM_addMember hcommitted hlt
  rw [hsum, Service.liveCommitted, committedOf_eq hown (by omega)]

/-- The ledger operation behind a reserve. -/
def ReserveRequest.ledgerOp (r : ReserveRequest) : LedgerOp :=
  match r.entry with
  | .shared opId =>
    .reserve r.key opId r.predictedMicro r.createdMs r.snapshot r.executionClass
  | .attempt attempt =>
    .reserveAttempt r.key attempt r.predictedMicro r.createdMs r.snapshot r.executionClass

variable {m' : Service} {r : ReserveRequest} {id : ℕ}

/-- A granted reserve passed the root's admission and inserted one open row. -/
theorem reserve_granted (h : m.reserve r = .ok (id, m')) :
    m.admitUnderRoot r.key r.predictedMicro = .ok () ∧
      m' = { m with ledger := apply m.ledger r.ledgerOp } ∧
      ∃ row : CostReservation, row.key = r.key ∧ row.status = .reserved ∧
        row.predictedMicro = clampI64 r.predictedMicro ∧
        m'.store = { m.store with reservations := m.store.reservations.insert row } := by
  rw [Service.reserve, bind_eq_ok] at h
  obtain ⟨-, -, h⟩ := h
  rw [bind_eq_ok] at h
  obtain ⟨admitted, hroom, h⟩ := h
  refine ⟨hroom, ?_⟩
  split at h
  · cases h
  · cases h
  · next granted s' htx =>
    obtain ⟨-, rfl⟩ := Prod.mk.inj (Except.ok.inj h)
    rw [ReserveRequest.transaction] at htx
    rw [ReserveRequest.ledgerOp]
    cases hentry : r.entry with
    | shared opId =>
      rw [hentry] at htx
      refine ⟨by simp only [apply, LedgerState.commit, htx, committed_ok]; rfl, ?_⟩
      rcases costReserveTx_cases htx with ⟨⟨free, hfree⟩, -⟩ | ⟨t, spent, held, -, hs', -⟩
      · exact absurd hfree (by simp)
      · exact ⟨_, rfl, rfl, rfl, hs'⟩
    | attempt attempt =>
      rw [hentry] at htx
      refine ⟨by simp only [apply, LedgerState.commit, htx, committed_ok]; rfl, ?_⟩
      rcases costReserveTx_cases htx with ⟨⟨free, hfree⟩, -⟩ | ⟨t, spent, held, -, hs', -⟩
      · exact absurd hfree (by simp)
      · exact ⟨_, rfl, rfl, rfl, hs'⟩

/-- An open row adds its prediction to what its task committed. -/
theorem committedMicro_insert (s : Store) (row : CostReservation) (hstatus : row.status = .reserved)
    (key : TaskKey) :
    committedMicro { s with reservations := s.reservations.insert row } key
      = committedMicro s key + if row.key = key then row.predictedMicro else 0 := by
  simp only [committedMicro, Store.held, RowTable.total_insert, heldAmount, hstatus,
    ReservationStatus.holds, and_true]
  omega

/-- One key of a list without duplicates takes the new amount. -/
theorem sum_map_add_ite_le {keys : List TaskKey} (hnodup : keys.Nodup) (f : TaskKey → ℕ)
    (key : TaskKey) (p : ℕ) :
    (keys.map fun k => f k + if key = k then p else 0).sum ≤ (keys.map f).sum + p := by
  induction keys with
  | nil => simp
  | cons k keys ih =>
    obtain ⟨hk, hrest⟩ := List.nodup_cons.mp hnodup
    simp only [List.map_cons, List.sum_cons]
    by_cases heq : key = k
    · subst heq
      have hsame : (keys.map fun k => f k + if key = k then p else 0) = keys.map f := by
        refine List.map_congr_left fun k' hk' => ?_
        have hne : key ≠ k' := fun h => hk (h ▸ hk')
        rw [if_neg hne, Nat.add_zero]
      rw [hsame, if_pos rfl]
      omega
    · rw [if_neg heq]
      have := ih hrest
      omega

/-- The tasks whose commitments count against the root: its own, and each member's once. -/
def Service.countedKeys (m : Service) (root : TaskKey) : List TaskKey :=
  root :: ((m.scopesOf root.sessionId).filter (m.counts root.sessionId)).map BudgetScope.key

theorem liveCommitted_eq (m : Service) (root : TaskKey) :
    m.liveCommitted root = ((m.countedKeys root).map (committedMicro m.store)).sum := by
  rw [Service.liveCommitted, Service.countedKeys, List.map_cons, List.sum_cons, List.map_map]
  rfl

theorem nodup_scopesOf (m : Service) (root : SessionId) :
    ((m.scopesOf root).map BudgetScope.consumerSessionId).Nodup := by
  rw [Service.scopesOf]
  cases m.sessions root with
  | none => exact List.nodup_nil
  | some facts => exact facts.scopes.nodup

theorem nodup_countedKeys (m : Service) (root : TaskKey) : (m.countedKeys root).Nodup := by
  have hsessions : (((m.scopesOf root.sessionId).filter (m.counts root.sessionId)).map
      BudgetScope.consumerSessionId).Nodup :=
    (nodup_scopesOf m root.sessionId).sublist (List.filter_sublist.map _)
  refine List.nodup_cons.mpr ⟨fun hroot => ?_, ?_⟩
  · -- a member is of another session than the root
    obtain ⟨s, hs, hkey⟩ := List.mem_map.mp hroot
    have hcounts := (List.mem_filter.mp hs).2
    rw [Service.counts, Bool.and_eq_true, decide_eq_true_eq] at hcounts
    exact hcounts.2 (congrArg TaskKey.sessionId hkey)
  · refine List.Nodup.of_map TaskKey.sessionId ?_
    rw [List.map_map]
    exact hsessions

/-! ## Caps over a run -/

theorem maxCost_eq_money (s : Store) (key : TaskKey) :
    maxCost s key = (s.money key).bind Prod.fst := by
  rw [maxCost, Store.money]
  cases s.tasks key <;> rfl

/-- A settlement folds into the spent column and leaves the cap. -/
theorem foldedMoney_cap (money : TaskKey → Option (Option ℕ × SqlNum)) (settled key : TaskKey)
    (cost : Option ℕ) :
    (foldedMoney money settled cost key).bind Prod.fst = (money key).bind Prod.fst := by
  cases cost with
  | none => rfl
  | some c =>
    rw [foldedMoney]
    by_cases hkey : key = settled
    · subst hkey
      rw [Function.update_self]
      cases money key <;> rfl
    · rw [Function.update_of_ne hkey]

variable {s' : Store}

/-- No effect of the ledger touches a cap. -/
theorem maxCost_of_effects (h : Effects s s') (key : TaskKey) :
    maxCost s' key = maxCost s key := by
  induction h with
  | refl => rfl
  | tail _ hstep ih =>
    rw [← ih, maxCost_eq_money, maxCost_eq_money]
    rcases hstep with hquiet | ⟨id, cost, hsettle⟩
    · rw [hquiet.money]
    · obtain ⟨r, -, -, -, -, -, -, hmoney, -⟩ := hsettle.spec
      rw [hmoney, foldedMoney_cap]

/-- Every cap of the store fits its column. -/
def CapsInRange (s : Store) : Prop := ∀ key cap, maxCost s key = some cap → cap ≤ i64Max

theorem CapsInRange.effects (hs : CapsInRange s) (h : Effects s s') :
    CapsInRange s' := by
  intro key cap hcap
  rw [maxCost_of_effects h] at hcap
  exact hs key cap hcap

theorem maxCost_setCap (s : Store) (key k : TaskKey) (cap : Option ℕ) :
    maxCost (setCap s key cap) k
      = if k = key then (s.tasks key).bind fun _ => cap.map clampI64 else maxCost s k := by
  rw [maxCost, setCap]
  dsimp only
  by_cases hk : k = key
  · rw [if_pos hk, hk, Function.update_self, Option.bind_map]
    rfl
  · rw [if_neg hk, Function.update_of_ne hk, maxCost]

theorem CapsInRange.setCap (hs : CapsInRange s) (key : TaskKey) (cap : Option ℕ) :
    CapsInRange (setCap s key cap) := by
  intro k c hc
  rw [maxCost_setCap] at hc
  split_ifs at hc with hk
  · obtain ⟨t, -, hnew⟩ := Option.bind_eq_some_iff.mp hc
    obtain ⟨new, -, rfl⟩ := Option.map_eq_some_iff.mp hnew
    exact clampI64_le new
  · exact hs k c hc

/-- A seeded row has no cap, like no row at all. -/
theorem maxCost_seedTask (s : Store) (key k : TaskKey) :
    maxCost (seedTask s key) k = maxCost s k := by
  rw [seedTask]
  cases hrow : s.tasks key with
  | some t => rfl
  | none =>
    rw [maxCost, maxCost]
    dsimp only
    by_cases hk : k = key
    · rw [hk, Function.update_self, hrow]
      rfl
    · rw [Function.update_of_ne hk]

theorem CapsInRange.seedTask (hs : CapsInRange s) (key : TaskKey) :
    CapsInRange (seedTask s key) := by
  intro k c hc
  rw [maxCost_seedTask] at hc
  exact hs k c hc

/-- A well-formed service: waiting passes hold candidates of their task, caps fit their column. -/
structure Service.Wf (m : Service) : Prop where
  ledger : m.ledger.Wf
  caps : CapsInRange m.store

theorem Service.empty_wf : Service.empty.Wf where
  ledger := by
    intro job hjob
    cases hjob
  caps := by
    intro key cap hcap
    cases hcap

theorem Service.Wf.apply (hm : m.Wf) (op : LedgerOp) :
    Service.Wf { m with ledger := apply m.ledger op } where
  ledger := hm.ledger.apply op
  caps := hm.caps.effects (apply_effects m.ledger hm.ledger op)

/-- A write of the task rows alone keeps the waiting passes. -/
theorem Service.Wf.withStore (hm : m.Wf) (hrows : s.reservations = m.store.reservations)
    (hcaps : CapsInRange s) :
    (m.withStore s).Wf where
  ledger := by
    intro job hjob c hc
    obtain ⟨r, hr, hkey⟩ := hm.ledger job hjob c hc
    exact ⟨r, hrows.symm ▸ hr, hkey⟩
  caps := hcaps

theorem Service.Wf.withSessions (hm : m.Wf) (sessions : SessionId → Option SessionFacts) :
    Service.Wf { m with sessions := sessions } :=
  ⟨hm.ledger, hm.caps⟩

theorem seedTask_reservations (s : Store) (key : TaskKey) :
    (seedTask s key).reservations = s.reservations := by
  rw [seedTask]
  cases s.tasks key <;> rfl

theorem Service.Wf.seedTask (hm : m.Wf) (key : TaskKey) :
    (m.withStore (seedTask m.store key)).Wf :=
  hm.withStore (seedTask_reservations m.store key) (hm.caps.seedTask key)

variable {includeMembers : Bool}

/-- The cap that the locked part installs is the only thing it writes. -/
theorem setTaskMaxCostLocked_ok {cap : Option ℕ}
    (h : m.setTaskMaxCostLocked key cap includeMembers = .ok m') :
    m' = m.withStore (setCap m.store key cap) := by
  rw [Service.setTaskMaxCostLocked, bind_eq_ok] at h
  obtain ⟨row, -, h⟩ := h
  cases row with
  | none => cases h
  | some row =>
    dsimp only at h
    rw [bind_eq_ok] at h
    obtain ⟨own, -, h⟩ := h
    rw [bind_eq_ok] at h
    obtain ⟨enrollments, -, h⟩ := h
    rw [bind_eq_ok] at h
    obtain ⟨committed, -, h⟩ := h
    split_ifs at h
    exact (Except.ok.inj h).symm

theorem Service.Wf.setTaskMaxCostLocked (hm : m.Wf) {cap : Option ℕ}
    (h : m.setTaskMaxCostLocked key cap includeMembers = .ok m') : m'.Wf := by
  rw [setTaskMaxCostLocked_ok h]
  exact hm.withStore rfl (hm.caps.setCap key cap)

theorem Service.Wf.enrollLocked (hm : m.Wf) (key : TaskKey) (root : SessionId) (childId : String)
    (cap : Option ℕ) : (m.enrollLocked key root childId cap).2.Wf := by
  have hseeded := hm.seedTask key
  rw [Service.enrollLocked]
  split
  · exact hseeded
  · next m' hset => exact (hseeded.setTaskMaxCostLocked hset).withSessions _

theorem Service.Wf.changeChildScopeCap (hm : m.Wf) (child : SessionId) (childId : String) (cap : Option ℕ) :
    (m.changeChildScopeCap child childId cap).2.Wf := by
  fun_cases Service.changeChildScopeCap m child childId cap with
  | case6 => exact hm.enrollLocked _ _ _ _
  | _ => exact hm

/-- One operation keeps the service well formed. -/
theorem step_wf (m : Service) (op : BudgetOp) (m' : Service) (hm : m.Wf)
    (h : step m op = some m') : m'.Wf := by
  cases op with
  | reserve request =>
    simp only [step] at h
    split at h
    · next id granted hreserve =>
      obtain rfl := Option.some.inj h
      obtain ⟨-, hledger, -⟩ := reserve_granted hreserve
      rw [hledger]
      exact hm.apply request.ledgerOp
    · exact Option.some.inj h ▸ hm
  | ledger op =>
    simp only [step] at h
    split_ifs at h
    obtain rfl := Option.some.inj h
    exact hm.apply op
  | setTaskMaxCost key cap =>
    simp only [step] at h
    split at h
    · next installed hset =>
      obtain rfl := Option.some.inj h
      rw [Service.setTaskMaxCost, bind_eq_ok] at hset
      obtain ⟨-, -, hlocked⟩ := hset
      exact hm.setTaskMaxCostLocked hlocked
    · exact Option.some.inj h ▸ hm
  | changeChildScopeCap child childId cap =>
    obtain rfl := Option.some.inj h
    exact hm.changeChildScopeCap child childId cap
  | createSession session taskId parent =>
    simp only [step] at h
    split_ifs at h
    obtain rfl := Option.some.inj h
    exact hm.withSessions _
  | createTask key =>
    obtain rfl := Option.some.inj h
    exact hm.seedTask key
  | setState session state =>
    obtain rfl := Option.some.inj h
    exact hm.withSessions _

theorem run_wf {m₀ : Service} {ops : List BudgetOp} (hm : m₀.Wf) (hrun : Trace.run step m₀ ops = some m) :
    m.Wf :=
  Trace.run_invariant step_wf hm hrun

/-! ## The root cap -/

/-- An admitted prediction of an enrolled child fits beside everything committed under the root. -/
theorem admitUnderRoot_of_enrolled {predicted : ℕ} (hm : m.Wf) (henrolled : m.Enrolled root key)
    (hcap : maxCost m.store root = some cap) (hpos : 0 < predicted)
    (h : m.admitUnderRoot key predicted = .ok ()) :
    m.liveCommitted root + predicted ≤ cap := by
  rw [Service.admitUnderRoot, bind_eq_ok] at h
  obtain ⟨free, hfree, hroom⟩ := h
  obtain ⟨committed, rfl, hexact⟩ := consumerRootFree_of_enrolled henrolled hcap hfree
  dsimp only at hroom
  split_ifs at hroom with hexceeds
  -- something is left of the cap, so the sum of the commitments did not saturate
  have hrange : cap < u64Max := lt_of_le_of_lt (hm.caps root cap hcap) (by decide)
  have hsum : committed = m.liveCommitted root := hexact (by omega)
  omega

/-- A granted reserve adds at most its prediction to what counts against any root. -/
theorem liveCommitted_reserve_le (h : m.reserve r = .ok (id, m')) (root : TaskKey) :
    m'.liveCommitted root ≤ m.liveCommitted root + r.predictedMicro := by
  obtain ⟨-, hledger, row, -, hstatus, hpredicted, hstore⟩ := reserve_granted h
  have hkeys : m'.countedKeys root = m.countedKeys root := by
    rw [hledger]
    rfl
  have hclamped : row.predictedMicro ≤ r.predictedMicro := by
    rw [hpredicted, clampI64]
    exact Nat.min_le_left _ _
  have hcommitted : ∀ key, committedMicro m'.store key
      = committedMicro m.store key + if row.key = key then row.predictedMicro else 0 := by
    intro key
    rw [hstore]
    exact committedMicro_insert m.store row hstatus key
  rw [liveCommitted_eq, liveCommitted_eq, hkeys]
  calc ((m.countedKeys root).map (committedMicro m'.store)).sum
      = ((m.countedKeys root).map fun key => committedMicro m.store key
          + if row.key = key then row.predictedMicro else 0).sum := by simp only [← hcommitted]
    _ ≤ ((m.countedKeys root).map (committedMicro m.store)).sum + row.predictedMicro :=
        sum_map_add_ite_le (nodup_countedKeys m root) _ row.key row.predictedMicro
    _ ≤ _ := Nat.add_le_add_left hclamped _

/-- **After a granted reserve of an enrolled child, whatever happened before it, the root and its
enrolled children of live sessions fit the root's cap together.** -/
theorem child_reserve_within_root_cap {m₀ m m' : Service} {ops : List BudgetOp}
    {r : ReserveRequest} {id : ℕ} {root : TaskKey} {cap : ℕ} (hm₀ : m₀.Wf)
    (hrun : Trace.run step m₀ ops = some m) (hgranted : m.reserve r = .ok (id, m'))
    (hpos : 0 < r.predictedMicro) (henrolled : m.Enrolled root r.key)
    (hcap : maxCost m.store root = some cap) :
    maxCost m'.store root = some cap ∧ m'.liveCommitted root ≤ cap := by
  have hm := run_wf hm₀ hrun
  obtain ⟨hroom, hledger, -⟩ := reserve_granted hgranted
  constructor
  · rw [hledger, ← hcap]
    exact maxCost_of_effects (apply_effects m.ledger hm.ledger r.ledgerOp) root
  · have hroom := admitUnderRoot_of_enrolled hm henrolled hcap hpos hroom
    have hadded := liveCommitted_reserve_le hgranted root
    omega

/-- A root with a cap of ten and two children enrolled under it, each with a cap of ten. -/
def twoChildren : List BudgetOp :=
  [.createSession 1 1 none, .createTask ⟨1, 1⟩, .setTaskMaxCost ⟨1, 1⟩ (some 10),
    .createSession 2 1 (some 1), .changeChildScopeCap 2 "a" (some 10),
    .createSession 3 1 (some 1), .changeChildScopeCap 3 "b" (some 10)]

/-- A reserve of the task of a session. -/
def reserveOf (session : SessionId) (opId : OpId) (predictedMicro : ℕ) : ReserveRequest where
  key := ⟨session, 1⟩
  entry := .shared opId
  predictedMicro := predictedMicro
  createdMs := 0
  snapshot := none
  snapshotBytes := 0
  executionClass := none

/-- The root and both children reserve; the last one exceeds what the root leaves. -/
def sharedCap : List BudgetOp :=
  twoChildren ++ [.reserve (reserveOf 1 1 2), .reserve (reserveOf 2 2 4), .reserve (reserveOf 3 3 5)]

/-- After the refusal a child is granted what is left of the cap. -/
theorem sharedCap_filled :
    ∃ m m' id, Trace.run step .empty sharedCap = some m ∧
      m.reserve (reserveOf 3 4 4) = .ok (id, m') ∧ m'.liveCommitted ⟨1, 1⟩ ≤ 10 :=
  ⟨_, _, _, rfl, rfl, (@child_reserve_within_root_cap .empty _ _ sharedCap (reserveOf 3 4 4) _
    ⟨1, 1⟩ 10 Service.empty_wf rfl rfl (by decide) ⟨rfl, by decide⟩ rfl).2⟩

/-- What the root and all its enrolled children committed together, the ended ones too. -/
def Service.enrolledCommitted (m : Service) (root : TaskKey) : ℕ :=
  committedMicro m.store root +
    (((m.scopesOf root.sessionId).filter fun s => s.childCapMicro.isSome).map fun s =>
      committedMicro m.store s.key).sum

/-- A child spends six of a cap of ten and ends; the other child is granted six more. -/
theorem dead_child_frees_root_budget :
    ∃ m m' id, Trace.run step .empty (twoChildren ++ [.reserve (reserveOf 2 1 6),
        .ledger (.settle 1 6 none none none 1), .setState 2 .completed]) = some m ∧
      m.reserve (reserveOf 3 2 6) = .ok (id, m') ∧ maxCost m'.store ⟨1, 1⟩ = some 10 ∧
      m'.enrolledCommitted ⟨1, 1⟩ = 12 :=
  ⟨_, _, _, rfl, rfl, rfl, by decide⟩

end Budget
