/-
# Submission keys: durable admissions

The two admission tables of the store (`task_admission.rs`, `prompt_admission.rs`).  A client names
its request by a key; the row of the key is claimed before anything runs and completed with the
bytes of the receipt once the run was accepted.  A claim is owned by the boot that made it, for the
time of a lease, under a reservation of its own; completion, release and recovery are fenced by
that reservation.

The two tables have the same operations over different names, so the operations take the name of
the table; each call is one transaction of the writer.

* `admission_at_most_once` : the receipt of a key is stored once and for ever, whoever claims it,
  and between two fresh claims of a key the first owner's claim was given up.
-/
import Faktor.Sqlite
import Faktor.Trace

namespace Admission

open Sqlite (i64Max bind_eq_ok)

/-! ## Rows and answers -/

abbrev SessionId := ℕ

/-- The refusals of the store that an admission can meet. -/
inductive StoreError
  | oversized (message : String)
  | conflict (message : String)
  | corrupt (problems : List String)
  deriving DecidableEq, Repr

/-- The `state` column, by its `CHECK` constraint. -/
inductive AdmissionState
  | pending | complete | conflict
  deriving DecidableEq, Repr

/-- A row of an admission table. -/
structure AdmissionRow where
  sessionId : SessionId
  requestDigest : String
  state : AdmissionState
  receiptJson : Option String
  createdMs : ℤ
  ownerGeneration : String
  leaseDeadlineMs : ℤ
  reservation : Option String
  deriving DecidableEq, Repr

/-- A `pending` row as recovery sees it. -/
structure PendingAdmission where
  key : String
  sessionId : SessionId
  requestDigest : String
  reservation : Option String
  ownerGeneration : String
  leaseDeadlineMs : ℤ
  createdMs : ℤ
  deriving DecidableEq, Repr

/-- `PendingAdmission::is_live_for`. -/
def PendingAdmission.isLiveFor (p : PendingAdmission) (generation : String) (now : ℤ) : Bool :=
  decide (p.ownerGeneration = generation) && decide (now < p.leaseDeadlineMs)

/-- The recovery landing of a stale row. -/
inductive AdmissionResolution
  | complete (receiptJson : String)
  | reclaim
  | keyReuse
  deriving DecidableEq, Repr

/-- `TaskAdmissionClaim` and `PromptAdmissionClaim`. -/
inductive AdmissionClaim
  | fresh
  | complete (receiptJson : String)
  | inFlight
  | stale (row : PendingAdmission)
  | keyReused (storedDigest : String)
  deriving DecidableEq, Repr

/-- One admission table, and the generation of the boot that has it open. -/
structure Store where
  rows : String → Option AdmissionRow
  generation : String

/-- The store with another row under a key. -/
def Store.put (s : Store) (key : String) (row : Option AdmissionRow) : Store :=
  { s with rows := Function.update s.rows key row }

/-! ## Bounds -/

def maxAdmissionKeyBytes : ℕ := 64
def maxAdmissionDigestBytes : ℕ := 128
def maxAdmissionReceiptBytes : ℕ := 16 * 1024
def maxAdmissionReservationBytes : ℕ := 64
def admissionLeaseMs : ℤ := 5 * 60 * 1000

/-- A text of one to `bound` bytes. -/
def checkBytes (what text : String) (bound : ℕ) : Except StoreError Unit :=
  if text.utf8ByteSize = 0 ∨ bound < text.utf8ByteSize then
    .error (.oversized s!"{what} must be 1..={bound} bytes")
  else .ok ()

/-- `check_key`. -/
def checkKey (table key : String) : Except StoreError Unit :=
  checkBytes s!"{table} admission key" key maxAdmissionKeyBytes

/-- `check_digest`. -/
def checkDigest (table digest : String) : Except StoreError Unit :=
  checkBytes s!"{table} admission request digest" digest maxAdmissionDigestBytes

/-- `check_reservation`. -/
def checkReservation (table reservation : String) : Except StoreError Unit :=
  checkBytes s!"{table} admission reservation" reservation maxAdmissionReservationBytes

/-- `check_receipt`: an empty receipt is not refused. -/
def checkReceipt (table receiptJson : String) : Except StoreError Unit :=
  if maxAdmissionReceiptBytes < receiptJson.utf8ByteSize then
    .error (.oversized s!"{table} admission receipt exceeds {maxAdmissionReceiptBytes} bytes")
  else .ok ()

/-- `i64::saturating_add`. -/
def addI64 (a b : ℤ) : ℤ := max (-(2 ^ 63)) (min (a + b) i64Max)

/-! ## Operations -/

/-- The row a fresh claim inserts. -/
def freshRow (s : Store) (sessionId : SessionId) (digest reservation : String) (now : ℤ) :
    AdmissionRow where
  sessionId := sessionId
  requestDigest := digest
  state := .pending
  receiptJson := none
  createdMs := now
  ownerGeneration := s.generation
  leaseDeadlineMs := addI64 now admissionLeaseMs
  reservation := some reservation

/-- The answer a claim of the row's own session gets from the row. -/
def answerOf (table : String) (s : Store) (key : String) (row : AdmissionRow) (digest : String)
    (now : ℤ) : Except StoreError AdmissionClaim :=
  match row.state with
  | .pending =>
    -- the digest comes first: other bytes are refused whatever the lease says
    if row.requestDigest ≠ digest then .ok (.keyReused row.requestDigest)
    else
      let stale : PendingAdmission :=
        { key := key, sessionId := row.sessionId, requestDigest := row.requestDigest,
          reservation := row.reservation, ownerGeneration := row.ownerGeneration,
          leaseDeadlineMs := row.leaseDeadlineMs, createdMs := row.createdMs }
      .ok (if stale.isLiveFor s.generation now then .inFlight else .stale stale)
  | .complete =>
    if row.requestDigest ≠ digest then .ok (.keyReused row.requestDigest)
    else
      match row.receiptJson with
      | none => .error (.corrupt [s!"{table}_admission complete row carries no receipt"])
      | some receiptJson =>
        if maxAdmissionReceiptBytes < receiptJson.utf8ByteSize then
          .error (.oversized
            s!"{table}_admission receipt exceeds {maxAdmissionReceiptBytes} bytes")
        else .ok (.complete receiptJson)
  | .conflict => .ok (.keyReused row.requestDigest)

/-- `task_admission_claim` and `prompt_admission_claim`. -/
def admissionClaim (table : String) (s : Store) (sessionId : SessionId)
    (key digest reservation : String) (now : ℤ) : Except StoreError (AdmissionClaim × Store) := do
  checkKey table key
  checkDigest table digest
  checkReservation table reservation
  match s.rows key with
  | none => return (.fresh, s.put key (some (freshRow s sessionId digest reservation now)))
  | some row =>
    if row.sessionId ≠ sessionId then return (.keyReused row.requestDigest, s)
    else
      let answer ← answerOf table s key row digest now
      return (answer, s)

/-- The row is a pending claim under this reservation. -/
def AdmissionRow.heldUnder (row : AdmissionRow) (reservation : Option String) : Bool :=
  decide (row.state = .pending) && decide (row.reservation = reservation)

/-- `task_admission_complete` and `prompt_admission_complete`. -/
def admissionComplete (table : String) (s : Store) (sessionId : SessionId)
    (key reservation receiptJson : String) : Except StoreError Store := do
  checkKey table key
  checkReservation table reservation
  checkReceipt table receiptJson
  match s.rows key with
  | none => throw (.conflict s!"{table}_admission_complete: no admission row for the key")
  | some row =>
    if row.sessionId = sessionId ∧ row.heldUnder (some reservation) then
      return s.put key (some { row with state := .complete, receiptJson := some receiptJson })
    else if row.sessionId ≠ sessionId then
      throw (.conflict
        s!"{table}_admission_complete: admission row belongs to another session")
    else if row.reservation ≠ some reservation then
      throw (.conflict
        s!"{table}_admission_complete: admission row was reclaimed or superseded")
    else throw (.conflict s!"{table}_admission_complete: admission row is not pending")

/-- `task_admission_release` and `prompt_admission_release`. -/
def admissionRelease (table : String) (s : Store) (sessionId : SessionId)
    (key reservation : String) : Except StoreError Store := do
  checkKey table key
  checkReservation table reservation
  match s.rows key with
  | none => return s
  | some row =>
    if row.sessionId = sessionId ∧ row.heldUnder (some reservation) then return s.put key none
    else return s

/-- The bounds a resolution is checked against. -/
def AdmissionResolution.check (table : String) : AdmissionResolution → Except StoreError Unit
  | .complete receiptJson => checkReceipt table receiptJson
  | _ => .ok ()

/-- The row a resolution leaves. -/
def AdmissionResolution.land (resolution : AdmissionResolution) (row : AdmissionRow) :
    Option AdmissionRow :=
  match resolution with
  | .complete receiptJson =>
    some { row with state := .complete, receiptJson := some receiptJson }
  | .reclaim => none
  | .keyReuse => some { row with state := .conflict, receiptJson := none }

/-- `task_admission_resolve` and `prompt_admission_resolve`. -/
def admissionResolve (table : String) (s : Store) (key : String)
    (expectedReservation : Option String) (resolution : AdmissionResolution) :
    Except StoreError (Bool × Store) := do
  checkKey table key
  resolution.check table
  match s.rows key with
  | none => return (false, s)
  | some row =>
    if row.heldUnder expectedReservation then return (true, s.put key (resolution.land row))
    else return (false, s)

def taskAdmissionClaim := admissionClaim "task"
def taskAdmissionComplete := admissionComplete "task"
def taskAdmissionRelease := admissionRelease "task"
def taskAdmissionResolve := admissionResolve "task"
def promptAdmissionClaim := admissionClaim "prompt"
def promptAdmissionComplete := admissionComplete "prompt"
def promptAdmissionRelease := admissionRelease "prompt"
def promptAdmissionResolve := admissionResolve "prompt"

/-! ## Runs -/

/-- What happens to an admission table: the calls of any number of owners, and restarts. -/
inductive Call
  | claim (sessionId : SessionId) (key digest reservation : String) (now : ℤ)
  | complete (sessionId : SessionId) (key reservation receiptJson : String)
  | release (sessionId : SessionId) (key reservation : String)
  | resolve (key : String) (expectedReservation : Option String) (resolution : AdmissionResolution)
  | restart (generation : String)
  deriving DecidableEq, Repr

/-- The store after a transaction: an error rolls it back. -/
def committed {α : Type} (s : Store) (store : α → Store) : Except StoreError α → Store
  | .ok a => store a
  | .error _ => s

/-- One call. -/
def exec (table : String) (s : Store) : Call → Store
  | .claim sessionId key digest reservation now =>
    committed s Prod.snd (admissionClaim table s sessionId key digest reservation now)
  | .complete sessionId key reservation receiptJson =>
    committed s id (admissionComplete table s sessionId key reservation receiptJson)
  | .release sessionId key reservation =>
    committed s id (admissionRelease table s sessionId key reservation)
  | .resolve key expectedReservation resolution =>
    committed s Prod.snd (admissionResolve table s key expectedReservation resolution)
  | .restart generation => { s with generation := generation }

/-- Every call can happen at any time. -/
def step (table : String) (s : Store) (c : Call) : Option Store := some (exec table s c)

/-! ## What one call does -/

/-- The key and the reservation a completion, release or resolution names, and what it makes of
the row. -/
def Call.landing : Call → Option (String × Option String × AdmissionResolution)
  | .complete _ key reservation receiptJson =>
    some (key, some reservation, .complete receiptJson)
  | .release _ key reservation => some (key, some reservation, .reclaim)
  | .resolve key expectedReservation resolution => some (key, expectedReservation, resolution)
  | _ => none

/-- What one call can do to the store: nothing, move to another generation, insert the row of an
absent key, or land the pending row whose reservation it names. -/
inductive Effect (table : String) (s : Store) (c : Call) : Store → Prop
  | same : Effect table s c s
  | restart {generation : String} (hc : c = .restart generation) :
      Effect table s c { s with generation := generation }
  | insert {sessionId : SessionId} {key digest reservation : String} {now : ℤ}
      (hc : c = .claim sessionId key digest reservation now) (hrow : s.rows key = none) :
      Effect table s c (s.put key (some (freshRow s sessionId digest reservation now)))
  | land {key : String} {row : AdmissionRow} {resolution : AdmissionResolution}
      (hc : c.landing = some (key, row.reservation, resolution)) (hrow : s.rows key = some row)
      (hpending : row.state = .pending) (hcheck : resolution.check table = .ok ()) :
      Effect table s c (s.put key (resolution.land row))

theorem heldUnder_iff {row : AdmissionRow} {reservation : Option String} :
    row.heldUnder reservation = true ↔ row.state = .pending ∧ row.reservation = reservation := by
  rw [AdmissionRow.heldUnder, Bool.and_eq_true, decide_eq_true_eq, decide_eq_true_eq]

variable {table : String} {s : Store}

/-- Only the insert of a row answers `fresh`. -/
theorem answerOf_ne_fresh {key : String} {row : AdmissionRow}
    {digest : String} {now : ℤ} : answerOf table s key row digest now ≠ .ok .fresh := by
  intro h
  cases hstate : row.state with
  | conflict => simp [answerOf, hstate] at h
  | pending =>
    simp only [answerOf, hstate] at h
    split_ifs at h <;> cases h
  | complete =>
    simp only [answerOf, hstate] at h
    cases hreceipt : row.receiptJson with
    | none =>
      rw [hreceipt] at h
      split_ifs at h
      cases h
    | some receiptJson =>
      rw [hreceipt] at h
      dsimp only at h
      split_ifs at h <;> cases h

variable {s' : Store}

/-- A claim leaves the table alone, or inserts the row of an absent key and answers `fresh`. -/
theorem admissionClaim_ok {sessionId : SessionId}
    {key digest reservation : String} {now : ℤ} {answer : AdmissionClaim}
    (h : admissionClaim table s sessionId key digest reservation now = .ok (answer, s')) :
    (s' = s ∧ answer ≠ .fresh) ∨ (answer = .fresh ∧ s.rows key = none ∧
      s' = s.put key (some (freshRow s sessionId digest reservation now))) := by
  simp only [admissionClaim, bind_eq_ok] at h
  obtain ⟨-, -, -, -, -, -, h⟩ := h
  cases hrow : s.rows key with
  | none =>
    rw [hrow] at h
    obtain ⟨hanswer, hs'⟩ := Prod.mk.inj (Except.ok.inj h)
    exact .inr ⟨hanswer.symm, rfl, hs'.symm⟩
  | some row =>
    rw [hrow] at h
    dsimp only at h
    left
    split_ifs at h
    · obtain ⟨hanswer, hs'⟩ := Prod.mk.inj (Except.ok.inj h)
      exact ⟨hs'.symm, by rw [← hanswer]; simp⟩
    · obtain ⟨a, ha, hret⟩ := bind_eq_ok.mp h
      obtain ⟨rfl, hs'⟩ := Prod.mk.inj (Except.ok.inj hret)
      refine ⟨hs'.symm, ?_⟩
      rintro rfl
      exact answerOf_ne_fresh ha

variable {c : Call}

/-- A committed transaction, or the store as it was. -/
theorem Effect.of_committed {α : Type} {store : α → Store}
    {result : Except StoreError α} (h : ∀ a, result = .ok a → Effect table s c (store a)) :
    Effect table s c (committed s store result) := by
  cases result with
  | error e => exact .same
  | ok a => exact h a rfl

/-- **Every call has one of the effects.** -/
theorem exec_effect (table : String) (s : Store) (c : Call) : Effect table s c (exec table s c) := by
  cases c with
  | restart generation => exact .restart rfl
  | claim sessionId key digest reservation now =>
    refine .of_committed fun result h => ?_
    rcases admissionClaim_ok h with ⟨hs, -⟩ | ⟨-, hrow, hs⟩
    · rw [hs]
      exact .same
    · rw [hs]
      exact .insert rfl hrow
  | complete sessionId key reservation receiptJson =>
    refine .of_committed fun s' h => ?_
    simp only [admissionComplete, bind_eq_ok] at h
    obtain ⟨-, -, -, -, u, hcheck, h⟩ := h
    split at h
    · cases h
    · next row hrow =>
      split_ifs at h with hheld
      obtain ⟨hpending, hreservation⟩ := heldUnder_iff.mp hheld.2
      have hc : (Call.complete sessionId key reservation receiptJson).landing
          = some (key, row.reservation, .complete receiptJson) := by rw [hreservation]; rfl
      rw [id, ← Except.ok.inj h]
      exact .land hc hrow hpending hcheck
  | release sessionId key reservation =>
    refine .of_committed fun s' h => ?_
    simp only [admissionRelease, bind_eq_ok] at h
    obtain ⟨-, -, -, -, h⟩ := h
    split at h
    · exact Except.ok.inj h ▸ .same
    · next row hrow =>
      split_ifs at h with hheld
      · obtain ⟨hpending, hreservation⟩ := heldUnder_iff.mp hheld.2
        have hc : (Call.release sessionId key reservation).landing
            = some (key, row.reservation, .reclaim) := by rw [hreservation]; rfl
        rw [id, ← Except.ok.inj h]
        exact .land hc hrow hpending rfl
      · exact Except.ok.inj h ▸ .same
  | resolve key expectedReservation resolution =>
    refine .of_committed fun result h => ?_
    simp only [admissionResolve, bind_eq_ok] at h
    obtain ⟨-, -, u, hcheck, h⟩ := h
    split at h
    · rw [← Except.ok.inj h]
      exact .same
    · next row hrow =>
      split_ifs at h with hheld
      · obtain ⟨hpending, rfl⟩ := heldUnder_iff.mp hheld
        rw [← Except.ok.inj h]
        exact .land rfl hrow hpending hcheck
      · rw [← Except.ok.inj h]
        exact .same

/-! ## The life of a key -/

/-- Every completed row carries a receipt within the bound. -/
def Store.Wf (s : Store) : Prop :=
  ∀ key row, s.rows key = some row → row.state = .complete →
    ∃ receiptJson, row.receiptJson = some receiptJson ∧
      receiptJson.utf8ByteSize ≤ maxAdmissionReceiptBytes

@[simp] theorem put_self (s : Store) (key : String) (row : Option AdmissionRow) :
    (s.put key row).rows key = row := Function.update_self ..

theorem put_of_ne (s : Store) {key k : String} (row : Option AdmissionRow) (h : k ≠ key) :
    (s.put key row).rows k = s.rows k := Function.update_of_ne h ..

theorem checkReceipt_eq_ok {receiptJson : String} {u : Unit}
    (h : checkReceipt table receiptJson = .ok u) :
    receiptJson.utf8ByteSize ≤ maxAdmissionReceiptBytes := by
  rw [checkReceipt] at h
  split_ifs at h with hlarge
  omega

/-- A row that a key may have after a call: a write keeps the table well formed. -/
theorem Store.Wf.put (hs : s.Wf) {key : String} {row : Option AdmissionRow}
    (hrow : ∀ r, row = some r → r.state = .complete → ∃ receiptJson,
      r.receiptJson = some receiptJson ∧ receiptJson.utf8ByteSize ≤ maxAdmissionReceiptBytes) :
    (s.put key row).Wf := by
  intro k r hr hcomplete
  by_cases hk : k = key
  · subst hk
    rw [put_self] at hr
    exact hrow r hr hcomplete
  · rw [put_of_ne s row hk] at hr
    exact hs k r hr hcomplete

theorem Effect.wf (h : Effect table s c s')
    (hs : s.Wf) : s'.Wf := by
  cases h with
  | same => exact hs
  | restart hc => exact hs
  | insert hc hrow =>
    refine hs.put fun r hr hcomplete => ?_
    obtain rfl := Option.some.inj hr
    cases hcomplete
  | @land _ _ resolution hc hrow hpending hcheck =>
    refine hs.put fun r hr hcomplete => ?_
    cases resolution with
    | complete receiptJson =>
      obtain rfl := Option.some.inj hr
      exact ⟨receiptJson, rfl, checkReceipt_eq_ok hcheck⟩
    | reclaim => cases hr
    | keyReuse =>
      obtain rfl := Option.some.inj hr
      cases hcomplete

theorem effect_of_step (h : step table s c = some s') :
    Effect table s c s' := by
  rw [← Option.some.inj h]
  exact exec_effect table s c

variable {cs : List Call}

theorem run_wf (hs : s.Wf)
    (hrun : Trace.run (step table) s cs = some s') : s'.Wf :=
  Trace.run_invariant (fun _ _ _ hinv hstep => (effect_of_step hstep).wf hinv) hs hrun

/-- What a call makes of the row of a key: nothing, the pending row of its own claim, or the
landing of the pending row it names. -/
theorem Effect.row (h : Effect table s c s')
    {key : String} {row : AdmissionRow} (hrow : s.rows key = some row) :
    s'.rows key = some row ∨ (row.state = .pending ∧ ∃ resolution,
      c.landing = some (key, row.reservation, resolution) ∧
      s'.rows key = resolution.land row) := by
  cases h with
  | same => exact .inl hrow
  | restart hc => exact .inl hrow
  | @insert _ k _ _ _ hc hnone =>
    have hne : key ≠ k := by
      rintro rfl
      rw [hrow] at hnone
      cases hnone
    rw [put_of_ne s _ hne]
    exact .inl hrow
  | @land k r resolution hc hr hpending hcheck =>
    by_cases hk : key = k
    · subst hk
      obtain rfl : row = r := Option.some.inj (hrow.symm.trans hr)
      exact .inr ⟨hpending, resolution, hc, put_self s key _⟩
    · rw [put_of_ne s _ hk]
      exact .inl hrow

/-- **Settled for ever**: a row that is not pending never changes again. -/
theorem run_rows_of_settled {key : String}
    {row : AdmissionRow} (hrow : s.rows key = some row) (hsettled : row.state ≠ .pending)
    (hrun : Trace.run (step table) s cs = some s') : s'.rows key = some row := by
  have hstep : ∀ (t : Store) (c : Call) (t' : Store), t.rows key = some row →
      step table t c = some t' → t'.rows key = some row := by
    intro t c t' ht hc
    rcases (effect_of_step hc).row ht with hkept | ⟨hpending, -⟩
    · exact hkept
    · exact absurd hpending hsettled
  exact Trace.run_invariant hstep hrow hrun

/-- A key is absent again only after a call that names its reservation gave its claim up. -/
theorem reclaimed_of_absent {key : String}
    {row : AdmissionRow} (hrow : s.rows key = some row)
    (hrun : Trace.run (step table) s cs = some s') (habsent : s'.rows key = none) :
    ∃ before c after t, cs = before ++ c :: after ∧ Trace.run (step table) s before = some t ∧
      t.rows key = some row ∧ c.landing = some (key, row.reservation, .reclaim) := by
  induction cs generalizing s with
  | nil =>
    rw [Trace.run_nil, Option.some.injEq] at hrun
    rw [← hrun, hrow] at habsent
    cases habsent
  | cons c cs ih =>
    obtain ⟨t, ht, hrest⟩ := Trace.run_cons_eq_some.mp hrun
    rcases (effect_of_step ht).row hrow with hkept | ⟨-, resolution, hc, hlanded⟩
    · obtain ⟨before, c', after, u, rfl, hbefore, hu, hc'⟩ := ih hkept hrest
      exact ⟨c :: before, c', after, u, rfl, Trace.run_cons_eq_some.mpr ⟨t, ht, hbefore⟩, hu, hc'⟩
    · -- a landing other than a reclaim would have settled the row
      cases resolution with
      | reclaim => exact ⟨[], c, cs, s, rfl, rfl, hrow, hc⟩
      | complete receiptJson =>
        rw [run_rows_of_settled hlanded (by simp) hrest] at habsent
        cases habsent
      | keyReuse =>
        rw [run_rows_of_settled hlanded (by simp) hrest] at habsent
        cases habsent

/-- A call that names another reservation than the row's changes nothing. -/
theorem exec_of_other_reservation {key : String}
    {reservation : Option String} {resolution : AdmissionResolution}
    (hc : c.landing = some (key, reservation, resolution))
    (hother : ∀ row, s.rows key = some row → row.reservation ≠ reservation) :
    exec table s c = s := by
  have heffect := exec_effect table s c
  generalize exec table s c = s' at heffect
  cases heffect with
  | same => rfl
  | restart hrestart =>
    rw [hrestart] at hc
    cases hc
  | insert hclaim =>
    rw [hclaim] at hc
    cases hc
  | @land k row _ hc' hrow =>
    rw [hc] at hc'
    obtain ⟨rfl, hreservation, -⟩ : key = k ∧ reservation = row.reservation ∧ _ := by
      simpa using hc'
    exact absurd hreservation.symm (hother row hrow)

/-- The arguments of a claim are within their bounds. -/
def ClaimBounded (table key digest reservation : String) : Prop :=
  checkKey table key = .ok () ∧ checkDigest table digest = .ok () ∧
    checkReservation table reservation = .ok ()

/-- A claim of a completed key is answered from its row. -/
theorem admissionClaim_of_complete (hs : s.Wf) {key receiptJson : String}
    {row : AdmissionRow} (hrow : s.rows key = some row) (hcomplete : row.state = .complete)
    (hreceipt : row.receiptJson = some receiptJson) (sessionId : SessionId)
    {digest reservation : String} (now : ℤ) (hbounded : ClaimBounded table key digest reservation) :
    admissionClaim table s sessionId key digest reservation now =
      .ok (if sessionId = row.sessionId ∧ digest = row.requestDigest then .complete receiptJson
        else .keyReused row.requestDigest, s) := by
  obtain ⟨hkey, hdigest, hreservation⟩ := hbounded
  have hsize : ¬ maxAdmissionReceiptBytes < receiptJson.utf8ByteSize := by
    obtain ⟨r, hr, hle⟩ := hs key row hrow hcomplete
    rw [hreceipt] at hr
    rw [Option.some.inj hr]
    omega
  simp only [admissionClaim, hkey, hdigest, hreservation, hrow, bind, Except.bind]
  by_cases hsession : row.sessionId = sessionId
  · simp only [hsession, answerOf, hcomplete, hreceipt, if_neg hsize]
    by_cases hsame : row.requestDigest = digest
    · simp [hsame, pure, Except.pure]
    · simp [hsame, Ne.symm hsame, pure, Except.pure]
  · simp [hsession, Ne.symm hsession, pure, Except.pure]

/-- **At most one admission per key.**  In every state that any owners, recoveries and restarts can
reach, under any clock readings: a stored receipt stays the receipt of its key for ever, and every
claim from then on is answered from it; between two fresh claims of a key a call that names the
first one's reservation gave that claim up; and a completion, release or resolution that names
another reservation than the row's changes nothing. -/
theorem admission_at_most_once (table : String) {s₀ s : Store} {cs : List Call} (hs₀ : s₀.Wf)
    (hrun : Trace.run (step table) s₀ cs = some s) (key : String) :
    (∀ row receiptJson, s.rows key = some row → row.state = .complete →
      row.receiptJson = some receiptJson →
      ∀ cs' s', Trace.run (step table) s cs' = some s' → s'.rows key = some row ∧
        ∀ sessionId digest reservation now, ClaimBounded table key digest reservation →
          admissionClaim table s' sessionId key digest reservation now =
            .ok (if sessionId = row.sessionId ∧ digest = row.requestDigest
              then .complete receiptJson else .keyReused row.requestDigest, s')) ∧
    (∀ session₁ digest₁ reservation₁ now₁ s₁ cs' s₂ session₂ digest₂ reservation₂ now₂ s₃,
      admissionClaim table s session₁ key digest₁ reservation₁ now₁ = .ok (.fresh, s₁) →
      Trace.run (step table) s₁ cs' = some s₂ →
      admissionClaim table s₂ session₂ key digest₂ reservation₂ now₂ = .ok (.fresh, s₃) →
      ∃ before c after t, cs' = before ++ c :: after ∧
        Trace.run (step table) s₁ before = some t ∧
        t.rows key = some (freshRow s session₁ digest₁ reservation₁ now₁) ∧
        c.landing = some (key, some reservation₁, .reclaim)) ∧
    (∀ c reservation resolution, c.landing = some (key, reservation, resolution) →
      (∀ row, s.rows key = some row → row.reservation ≠ reservation) → exec table s c = s) := by
  have hs : s.Wf := run_wf hs₀ hrun
  refine ⟨?_, ?_, ?_⟩
  · intro row receiptJson hrow hcomplete hreceipt cs' s' hrun'
    have hrow' : s'.rows key = some row := run_rows_of_settled hrow (by rw [hcomplete]; decide) hrun'
    refine ⟨hrow', ?_⟩
    intro sessionId digest reservation now hbounded
    exact admissionClaim_of_complete (run_wf hs hrun') hrow' hcomplete hreceipt sessionId now hbounded
  · intro session₁ digest₁ reservation₁ now₁ s₁ cs' s₂ session₂ digest₂ reservation₂ now₂ s₃ hfirst
      hrun' hsecond
    obtain ⟨-, habsurd⟩ | ⟨-, -, hs₁⟩ := admissionClaim_ok hfirst
    · exact absurd rfl habsurd
    · obtain ⟨-, habsurd⟩ | ⟨-, habsent, -⟩ := admissionClaim_ok hsecond
      · exact absurd rfl habsurd
      · have hrow : s₁.rows key = some (freshRow s session₁ digest₁ reservation₁ now₁) := by
          rw [hs₁, put_self]
        exact reclaimed_of_absent hrow hrun' habsent
  · intro c reservation resolution hc hother
    exact exec_of_other_reservation hc hother

/-- An empty table, opened by a boot. -/
def Store.empty (generation : String) : Store := ⟨fun _ => none, generation⟩

theorem Store.empty_wf (generation : String) : (Store.empty generation).Wf := by
  intro key row hrow
  cases hrow

/-- A start that is retried after its run was accepted and the daemon restarted. -/
def retriedStart : List Call :=
  [.claim 1 "k" "d" "tx-1" 0, .complete 1 "k" "tx-1" "receipt", .restart "boot-2"]

/-- The retry gets the receipt of the first run. -/
theorem retriedStart_replays :
    ∃ s, Trace.run (step "task") (.empty "boot-1") retriedStart = some s ∧
      admissionClaim "task" s 1 "k" "d" "tx-2" 5 = .ok (.complete "receipt", s) := by
  refine ⟨_, rfl, ?_⟩
  have hrun : Trace.run (step "task") (.empty "boot-1") retriedStart = some _ := rfl
  have hreplay := (admission_at_most_once "task" (Store.empty_wf "boot-1") hrun "k").1 _ "receipt"
    rfl rfl rfl [] _ rfl
  exact hreplay.2 1 "d" "tx-2" 5 ⟨by decide, by decide, by decide⟩

end Admission
