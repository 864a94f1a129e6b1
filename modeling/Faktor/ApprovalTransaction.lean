/-
# One transaction on the ledger file

A writer verifies the file under the lock and keeps the verified chain in memory.  An append writes the line,
then the committed head, then the anchor, and only then takes the entry up in memory, without reading the
file again; whoever reads between two of these writes sees the three files at odds.

* `LedgerTransaction.append` : an append, with what it leaves in the files and in memory;
* `Disk.Settled` : the three files agree with a ledger;
* `AppendPoint` : the points between the writes;
* `interrupted_append_guarantee` : what a load and the next `begin` make of each point.
-/
import Faktor.HashChain
import Faktor.ApprovalGuarantees

namespace KeyTable

/-- An insert under a key that is free puts the row. -/
theorem insert?_eq_put {α κ : Type} [DecidableEq κ] {key : α → κ} {t : KeyTable key} {a : α}
    (h : t.get? (key a) = none) : t.insert? a = some (t.put a) := by
  rw [insert?_eq_some]
  refine ⟨h, ?_⟩
  show (t.erase (key a)).rows ++ [a] = _
  rw [erase_of_get?_eq_none h]

end KeyTable

namespace Approval

variable {Key : Type} (p : Primitives Key)

/-! ## The transaction -/

/-- `MAX_LEDGER_BYTES`. -/
def maxLedgerBytes : ℕ := 16 * 1024 * 1024

/-- `load_inner` on a file of so many bytes. -/
def Disk.loadFile (disk : Disk) (size : ℕ) (heal : Bool) : Except ApprovalError ApprovalLedger × Disk :=
  if disk.lines ≠ [] ∧ maxLedgerBytes < size then (.error .store, disk) else disk.loadInner p heal

/-- `LedgerTransaction`: the files, and the chain that was verified under the lock. -/
structure LedgerTransaction where
  disk : Disk
  ledger : ApprovalLedger

/-- `LedgerTransaction::record`: nothing is checked again. -/
def ApprovalLedger.remember (ledger : ApprovalLedger) (entry : LedgerEntry) : ApprovalLedger :=
  match entry.body with
  | .requested request =>
    { ledger with entries := ledger.entries ++ [entry], requests := ledger.requests.put request }
  | .decided decision =>
    { ledger with entries := ledger.entries ++ [entry], decisions := ledger.decisions.put decision }

/-- `recorded_request_entry` and `recorded_decision_entry`. -/
def ApprovalLedger.recorded (ledger : ApprovalLedger) (body : LedgerBody) : Option LedgerEntry :=
  ledger.entries.find? fun entry =>
    match body, entry.body with
    | .requested request, .requested known => known.id = request.id
    | .decided decision, .decided known => known.requestId = decision.requestId
    | _, _ => false

/-- `LedgerTransaction::append`. -/
def LedgerTransaction.append (transaction : LedgerTransaction) (body : LedgerBody) (now : ℕ) :
    Except ApprovalError LedgerEntry × LedgerTransaction :=
  match Disk.appendCheck p transaction.ledger body now with
  | .error e => (.error e, transaction)
  | .ok false =>
    match transaction.ledger.recorded body with
    | none => (.error .store, transaction)
    | some entry => (.ok entry, transaction)
  | .ok true =>
    let entry := Disk.nextEntry p transaction.ledger body now
    (.ok entry,
      { disk := transaction.disk.write entry .never, ledger := transaction.ledger.remember entry })

/-! ## What a replay establishes -/

/-- The position of one of the entries. -/
def ApprovalLedger.Names (ledger : ApprovalLedger) (position : ℕ × String) : Prop :=
  ∃ entry ∈ ledger.entries, position = (entry.seq, entry.digest)

/-- **A chain that replays**: the entries are numbered, and each names the one before it. -/
structure ApprovalLedger.Verified (ledger : ApprovalLedger) : Prop where
  seq : ∀ i entry, ledger.entries[i]? = some entry → entry.seq = i + 1
  digest : ∀ entry ∈ ledger.entries,
    p.entryDigest entry.prevDigest entry.seq entry.recordedAtMs entry.body = entry.digest
  chained : HashChain.Chained (·.prevDigest) (·.digest) (String.ofList (List.replicate 64 '0'))
    ledger.entries

variable {p}

/-- What the check of one entry establishes. -/
theorem record_entry {ledger ledger' : ApprovalLedger} {entry : LedgerEntry}
    (h : ledger.record p entry = .ok ledger') :
    ledger'.entries = ledger.entries ++ [entry] ∧ entry.seq = ledger.entries.length + 1 ∧
      entry.prevDigest = ledger.tail ∧
      p.entryDigest entry.prevDigest entry.seq entry.recordedAtMs entry.body = entry.digest := by
  unfold ApprovalLedger.record at h
  split at h
  · cases h
  · next hchain =>
    push Not at hchain
    refine ⟨?_, hchain⟩
    split at h
    · split at h
      · cases h
      · split at h
        · cases h
        · cases h
          rfl
    · split at h
      · cases h
      · obtain ⟨-, -, h⟩ := bind_eq_ok h
        split at h
        · cases h
        · split at h
          · cases h
          · cases h
            rfl

theorem ApprovalLedger.empty_verified : ApprovalLedger.empty.Verified p where
  seq i entry h := by simp [empty] at h
  digest entry h := by simp [empty] at h
  chained := .nil

theorem ApprovalLedger.Verified.record {ledger ledger' : ApprovalLedger} {entry : LedgerEntry}
    (hledger : ledger.Verified p) (h : ledger.record p entry = .ok ledger') : ledger'.Verified p := by
  obtain ⟨hentries, hseq, hprev, hdigest⟩ := record_entry h
  constructor
  case seq =>
    intro i found hfound
    rw [hentries, List.getElem?_append] at hfound
    split at hfound
    · exact hledger.seq i found hfound
    · rw [List.getElem?_singleton] at hfound
      split at hfound
      · cases hfound
        omega
      · cases hfound
  case digest =>
    intro found hfound
    rw [hentries, List.mem_append, List.mem_singleton] at hfound
    rcases hfound with hfound | rfl
    · exact hledger.digest found hfound
    · exact hdigest
  case chained =>
    rw [hentries]
    exact hledger.chained.concat hprev

theorem replay_append (ledger : ApprovalLedger) (lines more : List Line) :
    replay p ledger (lines ++ more) = (replay p ledger lines >>= fun middle => replay p middle more) := by
  induction lines generalizing ledger with
  | nil => rfl
  | cons line rest ih =>
    cases line with
    | torn => rfl
    | entry entry =>
      rw [List.cons_append, replay, replay]
      cases ledger.record p entry with
      | error e => rfl
      | ok middle => exact ih middle

/-- **A file that replays** is its entries, and they are a chain. -/
theorem replay_verified {lines : List Line} {ledger ledger' : ApprovalLedger} (hledger : ledger.Verified p)
    (h : replay p ledger lines = .ok ledger') :
    ledger'.Verified p ∧ ∃ entries, lines = entries.map .entry ∧
      ledger'.entries = ledger.entries ++ entries := by
  induction lines generalizing ledger with
  | nil =>
    cases h
    exact ⟨hledger, [], rfl, (List.append_nil _).symm⟩
  | cons line rest ih =>
    cases line with
    | torn => cases h
    | entry entry =>
      obtain ⟨middle, hrecord, hrest⟩ := bind_eq_ok h
      obtain ⟨hverified, entries, rfl, hentries⟩ := ih (hledger.record hrecord) hrest
      refine ⟨hverified, entry :: entries, rfl, ?_⟩
      rw [hentries, (record_entry hrecord).1, List.append_assoc, List.singleton_append]

/-- **The check of an append and the check of a load agree**: an entry that is appended would be taken up
by a load, and gives the ledger that the transaction keeps. -/
theorem record_nextEntry {ledger : ApprovalLedger} {body : LedgerBody} {now : ℕ}
    (h : Disk.appendCheck p ledger body now = .ok true) :
    ledger.record p (Disk.nextEntry p ledger body now)
      = .ok (ledger.remember (Disk.nextEntry p ledger body now)) := by
  unfold Disk.appendCheck at h
  split at h
  · cases h
  · unfold ApprovalLedger.record ApprovalLedger.remember
    rw [if_neg (by simp [Disk.nextEntry])]
    cases body with
    | requested request =>
      simp only [Disk.nextEntry] at h ⊢
      split at h
      · cases h
      · next hvalid =>
        rw [Bool.or_eq_true, not_or, Bool.not_eq_true, Bool.not_eq_false'] at hvalid
        rw [if_neg (by simp [hvalid.1])]
        split at h
        · split at h <;> cases h
        · next hfree => rw [KeyTable.insert?_eq_put hfree]
    | decided decision =>
      simp only [Disk.nextEntry] at h ⊢
      split at h
      · cases h
      · next request hrequest =>
        obtain ⟨_, hvalid, h⟩ := bind_eq_ok h
        rw [hvalid]
        show (if _ then _ else _) = _
        split at h
        · cases h
        · next hbinds =>
          split at h
          · cases h
          · next hother =>
            rw [if_neg (by simpa [hother] using hbinds)]
            split at h
            · split at h <;> cases h
            · next hfree => rw [KeyTable.insert?_eq_put hfree]

/-! ## Positions -/

theorem ApprovalLedger.position_eq_none {ledger : ApprovalLedger} :
    ledger.position = none ↔ ledger.entries = [] := by
  rw [position, Option.map_eq_none_iff, List.getLast?_eq_none_iff]

theorem ApprovalLedger.names_position {ledger : ApprovalLedger} {position : ℕ × String}
    (h : ledger.position = some position) : ledger.Names position := by
  obtain ⟨entry, hentry, rfl⟩ := Option.map_eq_some_iff.mp h
  exact ⟨entry, List.mem_of_getLast? hentry, rfl⟩

/-- The position of a chain that is not empty is its length. -/
theorem ApprovalLedger.Verified.position_fst {ledger : ApprovalLedger} (h : ledger.Verified p)
    {position : ℕ × String} (hposition : ledger.position = some position) :
    position.1 = ledger.entries.length ∧ ledger.entries ≠ [] := by
  obtain ⟨entry, hentry, rfl⟩ := Option.map_eq_some_iff.mp hposition
  have hne : ledger.entries ≠ [] := by
    intro hnil
    simp [hnil] at hentry
  have hlength := List.length_pos_of_ne_nil hne
  rw [List.getLast?_eq_getElem?] at hentry
  have hseq := h.seq _ entry hentry
  refine ⟨?_, hne⟩
  show entry.seq = _
  omega

/-- The entry that a position names, as both checks look it up. -/
theorem ApprovalLedger.Verified.lookup {ledger : ApprovalLedger} (h : ledger.Verified p)
    {position : ℕ × String} (hnames : ledger.Names position) :
    ∃ entry, ledger.entries[position.1 - 1]? = some entry ∧ position = (entry.seq, entry.digest) ∧
      position.1 ≠ 0 ∧ position.1 ≤ ledger.entries.length := by
  obtain ⟨entry, hmem, rfl⟩ := hnames
  obtain ⟨i, hi⟩ := List.mem_iff_getElem?.mp hmem
  have hseq := h.seq i entry hi
  have hlt := (List.getElem?_eq_some_iff.mp hi).1
  refine ⟨entry, ?_, rfl, ?_, ?_⟩
  · show ledger.entries[entry.seq - 1]? = some entry
    rw [hseq, Nat.add_sub_cancel, hi]
  · show entry.seq ≠ 0
    omega
  · show entry.seq ≤ _
    omega

/-- Digests are 64 hexadecimal digits. -/
def Hexadecimal (p : Primitives Key) : Prop :=
  ∀ prev seq recordedAtMs body, isHex 64 (p.entryDigest prev seq recordedAtMs body) = true

theorem ApprovalLedger.Verified.hex {ledger : ApprovalLedger} (h : ledger.Verified p)
    (hhex : Hexadecimal p) {position : ℕ × String} (hnames : ledger.Names position) :
    isHex 64 position.2 = true := by
  obtain ⟨entry, hmem, rfl⟩ := hnames
  show isHex 64 entry.digest = true
  rw [← h.digest entry hmem]
  exact hhex _ _ _ _

/-- **The check of an anchor that names an entry.** -/
theorem verifyAnchor_names {disk : Disk} {ledger : ApprovalLedger} (h : ledger.Verified p)
    (hhex : Hexadecimal p) {position : ℕ × String} (hanchor : disk.anchor = some position)
    (hnames : ledger.Names position) (heal : Bool) :
    disk.verifyAnchor ledger heal =
      if position.1 < ledger.entries.length then
        if heal ∧ disk.head = ledger.position then .ok { disk with anchor := ledger.position }
        else .error .anchorDegraded
      else .ok disk := by
  obtain ⟨entry, hentry, hposition, hpos, -⟩ := h.lookup hnames
  have hhex' := h.hex hhex hnames
  unfold Disk.verifyAnchor
  rw [hanchor]
  obtain ⟨seq, digest⟩ := position
  simp only
  rw [if_neg (by simpa [hhex'] using hpos), if_neg]
  rw [hentry, not_not]
  exact congrArg some (Prod.mk.inj hposition).2.symm

/-- **The check of a head that names an entry**, or of no head. -/
theorem verifyCommittedHead_names {disk : Disk} {ledger : ApprovalLedger} (h : ledger.Verified p)
    (hhex : Hexadecimal p) (hhead : ∀ position, disk.head = some position → ledger.Names position) :
    disk.verifyCommittedHead ledger = .ok () := by
  unfold Disk.verifyCommittedHead
  cases hdisk : disk.head with
  | none => rfl
  | some position =>
    have hnames := hhead position hdisk
    obtain ⟨entry, hentry, hposition, hpos, -⟩ := h.lookup hnames
    have hhex' := h.hex hhex hnames
    obtain ⟨seq, digest⟩ := position
    simp only
    rw [if_neg (by simpa [hhex'] using hpos), hentry, if_pos]
    exact congrArg some hposition.symm

/-! ## Files that agree -/

variable (p) in
/-- **The three files agree** with a ledger: the lines replay to it, the head names one of its entries, and
the anchor its last one. -/
structure Disk.Settled (disk : Disk) (ledger : ApprovalLedger) : Prop where
  replayed : replay p .empty disk.lines = .ok ledger
  head : ∀ position, disk.head = some position → ledger.Names position
  anchor : disk.anchor = ledger.position

theorem Disk.Settled.verified {disk : Disk} {ledger : ApprovalLedger} (h : disk.Settled p ledger) :
    ledger.Verified p :=
  (replay_verified ApprovalLedger.empty_verified h.replayed).1

theorem Disk.Settled.lines_eq {disk : Disk} {ledger : ApprovalLedger} (h : disk.Settled p ledger) :
    disk.lines = ledger.entries.map .entry := by
  obtain ⟨-, entries, hlines, hentries⟩ := replay_verified ApprovalLedger.empty_verified h.replayed
  rw [hlines, hentries]
  rfl

/-- A replay of lines that the file has, and the two checks. -/
theorem loadInner_of_replay {disk : Disk} {ledger : ApprovalLedger} (hlines : disk.lines ≠ [])
    (hreplay : replay p .empty disk.lines = .ok ledger) (heal : Bool) :
    disk.loadInner p heal =
      match disk.verifyAnchor ledger heal with
      | .error e => (.error e, disk)
      | .ok disk =>
        match disk.verifyCommittedHead ledger with
        | .error e => (.error e, disk)
        | .ok () => (.ok ledger, disk) := by
  unfold Disk.loadInner
  rw [if_neg hlines]
  cases hread : replay p .empty disk.lines with
  | error e =>
    rw [hreplay] at hread
    cases hread
  | ok got =>
    obtain rfl : ledger = got := Except.ok.inj (hreplay.symm.trans hread)
    rfl

/-- **Files that agree load**, and a writer finds nothing to heal. -/
theorem Disk.Settled.loadInner {disk : Disk} {ledger : ApprovalLedger} (h : disk.Settled p ledger)
    (hhex : Hexadecimal p) (heal : Bool) : disk.loadInner p heal = (.ok ledger, disk) := by
  by_cases hnil : ledger.entries = []
  · have hlines : disk.lines = [] := by rw [h.lines_eq, hnil, List.map_nil]
    have hanchor : disk.anchor = none := h.anchor.trans (ApprovalLedger.position_eq_none.mpr hnil)
    have hreplayed := h.replayed
    rw [hlines] at hreplayed
    cases hreplayed
    unfold Disk.loadInner Disk.verifyAnchor
    rw [if_pos hlines, hanchor]
    rfl
  · have hlines : disk.lines ≠ [] := by simpa [h.lines_eq] using hnil
    obtain ⟨position, hposition⟩ :=
      Option.ne_none_iff_exists'.mp (mt ApprovalLedger.position_eq_none.mp hnil)
    rw [loadInner_of_replay hlines h.replayed,
      verifyAnchor_names h.verified hhex (h.anchor.trans hposition)
        (ApprovalLedger.names_position hposition),
      if_neg (by rw [(h.verified.position_fst hposition).1]; exact lt_irrefl _)]
    simp only [verifyCommittedHead_names h.verified hhex h.head]

/-- The ledger after an entry has one entry more. -/
theorem ApprovalLedger.remember_entries (ledger : ApprovalLedger) (entry : LedgerEntry) :
    (ledger.remember entry).entries = ledger.entries ++ [entry] := by
  unfold remember
  split <;> rfl

theorem ApprovalLedger.remember_position (ledger : ApprovalLedger) (entry : LedgerEntry) :
    (ledger.remember entry).position = some (entry.seq, entry.digest) := by
  rw [position, remember_entries, List.getLast?_concat]
  rfl

theorem ApprovalLedger.Names.remember {ledger : ApprovalLedger} {position : ℕ × String}
    (h : ledger.Names position) (entry : LedgerEntry) : (ledger.remember entry).Names position := by
  obtain ⟨known, hknown, rfl⟩ := h
  refine ⟨known, ?_, rfl⟩
  rw [remember_entries]
  exact List.mem_append_left _ hknown

/-- The line of an entry that the checks let through replays to what the transaction keeps. -/
theorem Disk.Settled.replay_write {disk : Disk} {ledger : ApprovalLedger} (h : disk.Settled p ledger)
    {body : LedgerBody} {now : ℕ} (hcheck : appendCheck p ledger body now = .ok true) :
    replay p .empty (disk.lines ++ [.entry (nextEntry p ledger body now)])
      = .ok (ledger.remember (nextEntry p ledger body now)) := by
  rw [replay_append, h.replayed]
  show (ledger.record p (nextEntry p ledger body now) >>= fun ledger => replay p ledger []) = _
  rw [record_nextEntry hcheck]
  rfl

/-- **An append keeps the files in agreement** with the chain in memory. -/
theorem Disk.Settled.append {disk : Disk} {ledger : ApprovalLedger} (h : disk.Settled p ledger)
    {body : LedgerBody} {now : ℕ} (hcheck : appendCheck p ledger body now = .ok true) :
    (disk.write (nextEntry p ledger body now) .never).Settled p
      (ledger.remember (nextEntry p ledger body now)) where
  replayed := h.replay_write hcheck
  head position hposition := by
    apply ApprovalLedger.names_position
    rw [ApprovalLedger.remember_position]
    exact hposition
  anchor := (ApprovalLedger.remember_position _ _).symm

/-! ## Between the writes -/

/-- **The points of an append**: a process that dies there, or another one that reads there, finds what
was written before. -/
inductive AppendPoint
  /-- Nothing is written. -/
  | before
  /-- A part of the line is written. -/
  | inLine
  /-- The whole line is written, with or without its newline. -/
  | line
  /-- The committed head is replaced. -/
  | head
  /-- The anchor is replaced. -/
  | anchor
  deriving DecidableEq, Repr

/-- The files at a point of the append of an entry. -/
def Disk.interrupted (disk : Disk) (entry : LedgerEntry) : AppendPoint → Disk
  | .before => disk
  | .inLine => disk.write entry .inLine
  | .line => disk.write entry .beforeHead
  | .head => disk.write entry .beforeAnchor
  | .anchor => disk.write entry .never

/-- What a reader is to get at a point: the ledger from before, the one from after, or a refusal. -/
def AppendPoint.read (before after : ApprovalLedger) : AppendPoint → Except ApprovalError ApprovalLedger
  | .before => .ok before
  | .inLine => .error .store
  | .line => .error .anchorDegraded
  | .head => .error .anchorDegraded
  | .anchor => .ok after

/-- The point whose files a writer is to leave: it replaces an anchor that is behind the head, where there
is an anchor. -/
def AppendPoint.resume (before : ApprovalLedger) : AppendPoint → AppendPoint
  | .head => if before.entries = [] then .head else .anchor
  | point => point

section Interrupted

variable {disk : Disk} {ledger : ApprovalLedger} {body : LedgerBody} {now : ℕ}

section

variable (h : disk.Settled p ledger)
include h

/-- A line of which a part is written does not parse. -/
theorem loadInner_inLine (entry : LedgerEntry) (heal : Bool) :
    (disk.interrupted entry .inLine).loadInner p heal
      = (.error .store, disk.interrupted entry .inLine) := by
  have hreplay : replay p .empty (disk.interrupted entry .inLine).lines = .error .store := by
    show replay p .empty (disk.lines ++ [.torn]) = .error .store
    rw [replay_append, h.replayed]
    rfl
  unfold Disk.loadInner
  rw [if_neg (by simp [Disk.interrupted, Disk.write])]
  simp only [hreplay]

/-- A whole line that the anchor does not cover: a writer heals it if the head covers it. -/
theorem loadInner_uncovered (hhex : Hexadecimal p) (hcheck : Disk.appendCheck p ledger body now = .ok true)
    (left : Disk) (hlines : left.lines = disk.lines ++ [.entry (Disk.nextEntry p ledger body now)])
    (hanchor : left.anchor = disk.anchor) (heal : Bool) :
    left.loadInner p heal =
      if ledger.entries ≠ [] ∧ heal ∧
          left.head = (ledger.remember (Disk.nextEntry p ledger body now)).position then
        (.ok (ledger.remember (Disk.nextEntry p ledger body now)),
          { left with anchor := left.head })
      else (.error .anchorDegraded, left) := by
  have hreplay := h.replay_write hcheck
  set entry := Disk.nextEntry p ledger body now
  have hverified : (ledger.remember entry).Verified p :=
    (replay_verified ApprovalLedger.empty_verified hreplay).1
  rw [loadInner_of_replay (by simp [hlines]) (by rw [hlines]; exact hreplay)]
  by_cases hnil : ledger.entries = []
  · -- the first append: there is no anchor yet
    have hnone : left.anchor = none :=
      hanchor.trans (h.anchor.trans (ApprovalLedger.position_eq_none.mpr hnil))
    rw [if_neg (by simp [hnil])]
    unfold Disk.verifyAnchor
    rw [hnone]
    simp only
    rw [if_neg (by simp [ApprovalLedger.remember_entries])]
  · obtain ⟨position, hposition⟩ :=
      Option.ne_none_iff_exists'.mp (mt ApprovalLedger.position_eq_none.mp hnil)
    have hlt : position.1 < (ledger.remember entry).entries.length := by
      rw [(h.verified.position_fst hposition).1, ApprovalLedger.remember_entries, List.length_append]
      simp
    rw [verifyAnchor_names hverified hhex (hanchor.trans (h.anchor.trans hposition))
      ((ApprovalLedger.names_position hposition).remember entry), if_pos hlt]
    by_cases hheal : heal ∧ left.head = (ledger.remember entry).position
    · rw [if_pos hheal, if_pos ⟨hnil, hheal⟩]
      simp only
      rw [verifyCommittedHead_names hverified hhex, hheal.2]
      intro position' hposition'
      exact ApprovalLedger.names_position (hheal.2.symm.trans hposition')
    · rw [if_neg hheal, if_neg fun habsurd => hheal habsurd.2]

/-- The old head does not cover the new line. -/
theorem Disk.Settled.head_ne (entry : LedgerEntry) (hseq : entry.seq = ledger.entries.length + 1) :
    disk.head ≠ (ledger.remember entry).position := by
  rw [ApprovalLedger.remember_position]
  intro habsurd
  obtain ⟨_, -, -, -, hle⟩ := h.verified.lookup (h.head _ habsurd)
  simp only at hle
  omega

/-- **What a load makes of every point.** -/
theorem loadInner_interrupted (hhex : Hexadecimal p)
    (hcheck : Disk.appendCheck p ledger body now = .ok true) (heal : Bool) (point : AppendPoint) :
    (disk.interrupted (Disk.nextEntry p ledger body now) point).loadInner p heal =
      let left := if heal then point.resume ledger else point
      (left.read ledger (ledger.remember (Disk.nextEntry p ledger body now)),
        disk.interrupted (Disk.nextEntry p ledger body now) left) := by
  set entry := Disk.nextEntry p ledger body now
  cases point with
  | before =>
    simp only [AppendPoint.resume, ite_self]
    exact h.loadInner hhex heal
  | inLine =>
    simp only [AppendPoint.resume, ite_self]
    exact loadInner_inLine h entry heal
  | line =>
    simp only [AppendPoint.resume, ite_self]
    rw [loadInner_uncovered h hhex hcheck (disk.interrupted entry .line) rfl rfl, if_neg]
    · rfl
    · rintro ⟨-, -, hhead⟩
      exact h.head_ne entry rfl hhead
  | head =>
    rw [loadInner_uncovered h hhex hcheck (disk.interrupted entry .head) rfl rfl]
    have hhead : (disk.interrupted entry .head).head = (ledger.remember entry).position :=
      (ApprovalLedger.remember_position _ _).symm
    by_cases hnil : ledger.entries = []
    · rw [if_neg fun habsurd => habsurd.1 hnil]
      simp only [AppendPoint.resume, hnil, if_true, ite_self]
      rfl
    · cases heal with
      | false =>
        rw [if_neg fun habsurd => Bool.false_ne_true habsurd.2.1]
        rfl
      | true =>
        rw [if_pos ⟨hnil, rfl, hhead⟩]
        simp only [AppendPoint.resume, hnil, if_true, if_false]
        rfl
  | anchor =>
    simp only [AppendPoint.resume, ite_self]
    exact (h.append hcheck).loadInner hhex heal

end

/-- The anchor that a check accepts names the last entry, or is healed to name it. -/
theorem verifyAnchor_position {left : Disk} (hverified : ledger.Verified p) (hne : ledger.entries ≠ [])
    {heal : Bool} {left' : Disk} (h : left.verifyAnchor ledger heal = .ok left') :
    left'.anchor = ledger.position ∧ left'.lines = left.lines ∧ left'.head = left.head := by
  unfold Disk.verifyAnchor at h
  split at h
  · rw [if_neg hne] at h
    cases h
  · next seq digest hanchor =>
    split at h
    · cases h
    · next hform =>
      split at h
      · cases h
      · next hlookup =>
        rw [not_not, Option.map_eq_some_iff] at hlookup
        obtain ⟨entry, hentry, rfl⟩ := hlookup
        split at h
        · split at h <;> cases h
          exact ⟨rfl, rfl, rfl⟩
        · next hlast =>
          cases h
          refine ⟨?_, rfl, rfl⟩
          -- the anchor is neither behind the last entry nor past it
          have hlt := (List.getElem?_eq_some_iff.mp hentry).1
          have hseq := hverified.seq _ entry hentry
          have hindex : seq - 1 = ledger.entries.length - 1 := by omega
          rw [hanchor, ApprovalLedger.position, List.getLast?_eq_getElem?, ← hindex, hentry]
          show some (seq, entry.digest) = some (entry.seq, entry.digest)
          rw [hseq]
          have hpos : seq ≠ 0 := fun hzero => hform (.inl hzero)
          have : seq - 1 + 1 = seq := by omega
          rw [this]

/-- An empty ledger passes only where no anchor was written. -/
theorem verifyAnchor_empty {left : Disk} {heal : Bool} (h : disk.verifyAnchor .empty heal = .ok left) :
    disk.anchor = none ∧ left = disk := by
  unfold Disk.verifyAnchor at h
  split at h
  · next hanchor =>
    have hempty : ApprovalLedger.empty.entries = [] := rfl
    rw [if_pos hempty] at h
    cases h
    exact ⟨hanchor, rfl⟩
  · split at h
    · cases h
    · split at h
      · cases h
      · next hlookup => simp [ApprovalLedger.empty] at hlookup

/-- **The files that a writer begins on agree** with the ledger that it gets. -/
theorem begin_settled {begun : Disk} (hhead : disk.lines = [] → disk.head = none)
    (h : disk.begin p = (.ok ledger, begun)) : begun.Settled p ledger := by
  unfold Disk.begin at h
  by_cases hlines : disk.lines = []
  · unfold Disk.loadInner at h
    rw [if_pos hlines] at h
    split at h
    · cases h
    · next heq =>
      obtain ⟨hanchor, rfl⟩ := verifyAnchor_empty heq
      cases h
      constructor
      case replayed =>
        rw [hlines]
        rfl
      case head =>
        intro position hposition
        rw [hhead hlines] at hposition
        cases hposition
      case anchor => exact hanchor
  · cases hreplay : replay p .empty disk.lines with
    | error e =>
      unfold Disk.loadInner at h
      rw [if_neg hlines] at h
      simp only [hreplay] at h
      cases h
    | ok replayed =>
      rw [loadInner_of_replay hlines hreplay] at h
      obtain ⟨hverified, entries, hentries, hledger⟩ :=
        replay_verified ApprovalLedger.empty_verified hreplay
      split at h
      · cases h
      · next left hanchor =>
        split at h
        · cases h
        · next hcommitted =>
          cases h
          have hne : ledger.entries ≠ [] := by
            rw [hledger]
            intro hnil
            have : entries = [] := by simpa [ApprovalLedger.empty] using hnil
            exact hlines (by rw [hentries, this, List.map_nil])
          obtain ⟨hposition, hsame, -⟩ := verifyAnchor_position hverified hne hanchor
          constructor
          case replayed => rw [hsame, hreplay]
          case head =>
            intro position hhead'
            unfold Disk.verifyCommittedHead at hcommitted
            rw [hhead'] at hcommitted
            obtain ⟨seq, digest⟩ := position
            simp only at hcommitted
            split at hcommitted
            · cases hcommitted
            · split at hcommitted
              · next hlookup =>
                obtain ⟨entry, hentry, hpair⟩ := Option.map_eq_some_iff.mp hlookup
                exact ⟨entry, List.mem_of_getElem? hentry, hpair.symm⟩
              · cases hcommitted
          case anchor => exact hposition

/-- A load gets what the lines replay to, whatever the two other files are. -/
theorem loadInner_replays {heal : Bool} {got : ApprovalLedger}
    (h : (disk.loadInner p heal).1 = .ok got) : replay p .empty disk.lines = .ok got := by
  by_cases hlines : disk.lines = []
  · unfold Disk.loadInner at h
    rw [if_pos hlines] at h
    rw [hlines]
    split at h <;> cases h
    rfl
  · cases hreplay : replay p .empty disk.lines with
    | error e =>
      unfold Disk.loadInner at h
      rw [if_neg hlines] at h
      simp only [hreplay] at h
      cases h
    | ok replayed =>
      rw [loadInner_of_replay hlines hreplay] at h
      split at h
      · cases h
      · split at h <;> cases h
        rfl

/-- A reader that sees the lines of one point and the other two files of another one, or any others, gets
one of the two ledgers if it gets one. -/
theorem loadInner_interrupted_only (h : disk.Settled p ledger)
    (hcheck : Disk.appendCheck p ledger body now = .ok true) {left : Disk} (point : AppendPoint)
    (hlines : left.lines = (disk.interrupted (Disk.nextEntry p ledger body now) point).lines)
    {heal : Bool} {got : ApprovalLedger} (hload : (left.loadInner p heal).1 = .ok got) :
    got = ledger ∨ got = ledger.remember (Disk.nextEntry p ledger body now) := by
  have hreplay := loadInner_replays hload
  have hwrite := h.replay_write hcheck
  rw [hlines] at hreplay
  cases point with
  | before =>
    exact .inl (Except.ok.inj (hreplay.symm.trans h.replayed))
  | inLine =>
    change replay p .empty (disk.lines ++ [.torn]) = _ at hreplay
    rw [replay_append, h.replayed] at hreplay
    cases hreplay
  | line => exact .inr (Except.ok.inj (hreplay.symm.trans hwrite))
  | head => exact .inr (Except.ok.inj (hreplay.symm.trans hwrite))
  | anchor => exact .inr (Except.ok.inj (hreplay.symm.trans hwrite))

end Interrupted

/-- **What an interrupted append leaves.**  For every transaction that was begun and every append that it
accepts: a load gets the ledger from before while nothing is written and the one from after once all three
files are, and is refused at the points between.  The next `begin` gets the same, except that it completes
an append whose head is written, where the ledger had an entry before; then the three files agree with the
ledger that it gets.  A refusal leaves the files as they are.  A reader without the lock, which may see the
head and the anchor of a later moment, never gets a third ledger. -/
theorem interrupted_append_guarantee (p : Primitives Key) (hhex : Hexadecimal p) (disk begun : Disk)
    (ledger : ApprovalLedger) (hhead : disk.lines = [] → disk.head = none)
    (hbegin : disk.begin p = (.ok ledger, begun)) (body : LedgerBody) (now : ℕ)
    (hcheck : Disk.appendCheck p ledger body now = .ok true) (point : AppendPoint) (size : ℕ)
    (hsize : size ≤ maxLedgerBytes) :
    let entry := Disk.nextEntry p ledger body now
    let after := ledger.remember entry
    (begun.interrupted entry point).loadFile p size false
        = (point.read ledger after, begun.interrupted entry point) ∧
      (begun.interrupted entry point).loadFile p size true
        = ((point.resume ledger).read ledger after, begun.interrupted entry (point.resume ledger)) ∧
      (begun.interrupted entry .before).Settled p ledger ∧
      (begun.interrupted entry .anchor).Settled p after ∧
      ∀ head anchor got,
        ({ begun.interrupted entry point with head := head, anchor := anchor }.loadFile p size false).1
          = .ok got → got = ledger ∨ got = after := by
  have hsettled := begin_settled hhead hbegin
  have hfits : ∀ (left : Disk) (heal : Bool), left.loadFile p size heal = left.loadInner p heal := by
    intro left heal
    exact if_neg fun habsurd => absurd habsurd.2 (not_lt.mpr hsize)
  refine ⟨?_, ?_, hsettled, hsettled.append hcheck, ?_⟩
  · rw [hfits]
    exact loadInner_interrupted hsettled hhex hcheck false point
  · rw [hfits]
    exact loadInner_interrupted hsettled hhex hcheck true point
  · intro head anchor got hgot
    rw [hfits] at hgot
    refine loadInner_interrupted_only hsettled hcheck point ?_ hgot
    rfl

/-! ## The first append -/

/-- The request of `orderDraft` at the time 10. -/
def orderRequest : ApprovalRequest where
  id := "apr-" ++ zeros 32
  kind := .supplyPurchaseOrder
  subject := "po"
  evidence := []
  proposedChange := "send"
  risk := .high
  requester := { id := "agent", kind := .agent }
  boundRevision := "1"
  boundDigest := zeros 64
  createdAtMs := 10
  expiresAtMs := 20

/-- A data directory without a ledger. -/
def newDirectory : Disk := (World.start [operator]).disk

theorem zeroPrimitives_hex : Hexadecimal zeroPrimitives := by
  have hzeros : isHex 64 (zeros 64) = true := by decide +kernel
  exact fun _ _ _ _ => hzeros

/-- The first entry. -/
def orderEntry : LedgerEntry := Disk.nextEntry zeroPrimitives .empty (.requested orderRequest) 10

/-- **An append that dies between the head and the anchor is resumed**: the second one of a ledger. -/
theorem interrupted_append_guarantee_head :
    let begun := newDirectory.write orderEntry .never
    let ledger := ApprovalLedger.empty.remember orderEntry
    let request := { orderRequest with id := "apr-" ++ String.ofList (List.replicate 32 '1') }
    let entry := Disk.nextEntry zeroPrimitives ledger (.requested request) 10
    begun.begin zeroPrimitives = (.ok ledger, begun) ∧
      (begun.interrupted entry .head).loadFile zeroPrimitives 4096 true
        = (.ok (ledger.remember entry), begun.interrupted entry .anchor) := by
  have hfirst : Disk.appendCheck zeroPrimitives .empty (.requested orderRequest) 10 = .ok true :=
    eq_ok_of_toOption (by decide +kernel)
  have hempty : newDirectory.Settled zeroPrimitives .empty :=
    { replayed := rfl, head := fun _ h => (by cases h), anchor := rfl }
  have hbegin := (hempty.append hfirst).loadInner zeroPrimitives_hex true
  refine ⟨hbegin, ?_⟩
  exact (interrupted_append_guarantee zeroPrimitives zeroPrimitives_hex _ _ _ (fun h => by cases h) hbegin
    (.requested { orderRequest with id := "apr-" ++ String.ofList (List.replicate 32 '1') }) 10
    (eq_ok_of_toOption (by decide +kernel)) .head 4096 (by decide)).2.1

/-- **The first append that dies between the head and the anchor locks the ledger**: no load and no `begin`
succeeds any more. -/
theorem firstAppend_locks_ledger :
    newDirectory.begin zeroPrimitives = (.ok .empty, newDirectory) ∧
      Disk.appendCheck zeroPrimitives .empty (.requested orderRequest) 10 = .ok true ∧
      (newDirectory.interrupted orderEntry .head).load zeroPrimitives = .error .anchorDegraded ∧
      (newDirectory.interrupted orderEntry .head).begin zeroPrimitives
        = (.error .anchorDegraded, newDirectory.interrupted orderEntry .head) := by
  have hfirst : Disk.appendCheck zeroPrimitives .empty (.requested orderRequest) 10 = .ok true :=
    eq_ok_of_toOption (by decide +kernel)
  have hempty : newDirectory.Settled zeroPrimitives .empty :=
    { replayed := rfl, head := fun _ h => (by cases h), anchor := rfl }
  refine ⟨hempty.loadInner zeroPrimitives_hex true, hfirst, ?_, loadInner_interrupted hempty zeroPrimitives_hex hfirst true .head⟩
  exact congrArg Prod.fst (loadInner_interrupted hempty zeroPrimitives_hex hfirst false .head)

end Approval
