/-
# Rows in chunks

A list of items is packed into texts of bounded size, and these are written as the rows `key/c001`, … of a
header row `key`.  The rows are read back by their common prefix, in pages.

* `packChunks`, `putChunks`, `readChunks`, `unpackChunks` : the four steps;
* `scan_eq` : the pages of a scan are all its rows, in the order of their keys;
* `Fresh` : no other row stands among the chunk rows of a key, and there are not too many rows;
* `chunks_exact` : what was packed and written is read back exactly over a fresh store.
-/
import Faktor.Decimals
import Faktor.KeyTable
import Faktor.Sqlite

open TextBytes Decimals Sqlite

namespace ChunkRows

/-- `ExecError`, as far as the rows reach it. -/
inductive ExecError
  | oversized (text : Text)
  | internal (text : Text)
deriving DecidableEq

/-- A memory fact of the session. -/
structure Fact where
  kind : Text
  key : Text
  value : Text
deriving DecidableEq

/-- The facts of a session, keyed by kind and key. -/
abbrev Facts := KeyTable fun fact : Fact => (fact.kind, fact.key)

/-- `MAX_FACT_KEY_BYTES`, `MAX_FACT_VALUE_BYTES` and the bound of a kind. -/
def Fact.admitted (fact : Fact) : Bool :=
  fact.kind ≠ [] ∧ fact.key ≠ [] ∧ byteLen fact.kind ≤ 64 ∧ byteLen fact.key ≤ 512 ∧
    byteLen fact.value ≤ 4096

/-- `upsert_memory_fact`. -/
def upsert (store : Facts) (fact : Fact) (what : Text) : Except ExecError Facts :=
  if fact.admitted then .ok (store.put fact) else .error (.internal what)

/-! ## Writing -/

/-- The key of a chunk row. -/
def chunkKey (key : Text) (index : ℕ) : Text := key ++ "/c".toList ++ padded 3 index

/-- The chunk rows, from an index on. -/
def chunkFacts (kind key : Text) (index : ℕ) : List Text → List Fact
  | [] => []
  | chunk :: rest => ⟨kind, chunkKey key index, chunk⟩ :: chunkFacts kind key (index + 1) rest

/-- The upserts one after the other. -/
def upsertAll (what : Text) : Facts → List Fact → Except ExecError Facts
  | store, [] => .ok store
  | store, fact :: rest => do
    let store ← upsert store fact what
    upsertAll what store rest

/-- `put_chunks`. -/
def putChunks (store : Facts) (kind key header : Text) (chunks : List Text) : Except ExecError Facts :=
  if 480 < byteLen key then
    .error (.oversized ("row key of ".toList ++ (toString (byteLen key)).toList ++ " bytes".toList))
  else do
    let store ← upsert store ⟨kind, key, header⟩ ("row header write ".toList ++ kind ++ '/' :: key)
    upsertAll ("row chunk write ".toList ++ kind ++ '/' :: key) store (chunkFacts kind key 1 chunks)

/-! ## Scanning -/

/-- `MAX_PREFIX_ROWS` and the size of a page. -/
def maxPrefixRows : ℕ := 256 * 200

def pageSize : ℕ := 512

/-- `prefix_upper_bound`: the last byte below `0x7f` is incremented, and the rest is dropped. -/
def upperBound (key : Text) : Option Text :=
  match key.reverse.dropWhile fun c => 0x7f ≤ c.toNat with
  | [] => none
  | c :: front => some (front.reverse ++ [Char.ofNat (c.toNat + 1)])

/-- The rows that a prefix query ranges over; the bytes of two texts compare as their characters. -/
def inRange (kind key : Text) (fact : Fact) : Bool :=
  fact.kind = kind ∧ key ≤ fact.key ∧ (∀ upper ∈ upperBound key, fact.key < upper)

/-- The rows of a prefix query in the order of their keys. -/
def ordered (store : Facts) (kind key : Text) : List Fact :=
  (store.rows.filter (inRange kind key)).insertionSort fun a b => a.key ≤ b.key

/-- `memory_facts_by_kind_key_prefix`: a page of the rows after a key, and whether there are more. -/
def page (rows : List Fact) (after : Text) : List Fact × Bool :=
  let rest := rows.filter fun fact => after < fact.key
  (rest.take pageSize, pageSize < rest.length)

def oversizedScan : ExecError :=
  .oversized "memory-fact prefix scan exceeded its rows; refusing a partial merge read".toList

/-- The loop of `scan_facts_of_kind_prefix`; every page but the last takes a row. -/
def scanFrom (rows : List Fact) : ℕ → Text → List Fact → Except ExecError (List Fact)
  | 0, _, out => .ok out
  | fuel + 1, after, out =>
    let (facts, more) := page rows after
    match facts.getLast? with
    | none => .ok out
    | some last =>
      if maxPrefixRows < (out ++ facts).length then
        .error oversizedScan
      else if more then scanFrom rows fuel last.key (out ++ facts)
      else .ok (out ++ facts)

/-- `scan_facts_of_kind_prefix`. -/
def scan (store : Facts) (kind key : Text) : Except ExecError (List Fact) :=
  if kind = [] ∨ key = [] then .error (.internal "memory fact kind/key prefix must be non-empty".toList)
  else scanFrom (ordered store kind key) ((ordered store kind key).length + 1) [] []

/-! ## Items and their texts -/

/-- The serializer of the items. -/
structure Serde (T Value : Type) where
  toValue : T → Except ExecError Value
  toString : Value → Except ExecError Text
  arrayToString : List Value → Except ExecError Text
  fromStr : Text → Except ExecError (List T)
  headerFromStr : Text → Except ExecError Value
  headerChunks : Value → Option ℕ

variable {T Value : Type} (serde : Serde T Value)

/-- The text of an array of serialized items is read as these items. -/
def Serde.RoundTrip : Prop :=
  ∀ items values text, items.mapM serde.toValue = .ok values → serde.arrayToString values = .ok text →
    serde.fromStr text = .ok items

/-- `CHUNK_BUDGET`. -/
def chunkBudget : ℕ := 3000

/-- The loop of `pack_chunks`, from a chunk that is being filled. -/
def packFrom (cur : List Value) (curBytes : ℕ) : List T → Except ExecError (List Text)
  | [] => do
    let text ← serde.arrayToString cur
    return [text]
  | item :: rest => do
    let v ← serde.toValue item
    let s ← serde.toString v
    if cur ≠ [] ∧ chunkBudget < curBytes + byteLen s + 2 then do
      let text ← serde.arrayToString cur
      let chunks ← packFrom [v] (byteLen s + 2) rest
      return text :: chunks
    else packFrom (cur ++ [v]) (curBytes + byteLen s + 2) rest

/-- `pack_chunks`. -/
def packChunks (items : List T) : Except ExecError (List Text) := packFrom serde [] 0 items

/-- `unpack_chunks`. -/
def unpackChunks : List Text → Except ExecError (List T)
  | [] => .ok []
  | chunk :: rest => do
    let batch ← serde.fromStr chunk
    let out ← unpackChunks rest
    return batch ++ out

/-! ## Reading -/

/-- A leading plus is admitted before digits. -/
def stripPlus : Text → Text
  | '+' :: rest => rest
  | text => text

/-- `str::parse` of an index. -/
def parseIndex (text : Text) : Option ℕ :=
  let digits := stripPlus text
  if digits = [] ∨ ¬ digits.all Char.isDigit ∨ 2 ^ 64 ≤ number digits then none else some (number digits)

/-- What follows `key/c`, when the key starts so. -/
def chunkSuffix (key rowKey : Text) : Option Text :=
  if key ++ "/c".toList <+: rowKey then some (rowKey.drop (key.length + 2)) else none

/-- The header and the chunks read so far. -/
abbrev Gathered (Value : Type) := Option Value × List (ℕ × Text)

/-- One row of `read_chunks`. -/
def readRow (kind key : Text) (state : Gathered Value) (row : Fact) : Except ExecError (Gathered Value) :=
  if row.key = key then do
    let header ← serde.headerFromStr row.value
    return (some header, state.2)
  else
    match chunkSuffix key row.key with
    | none => .ok state
    | some rest =>
      match parseIndex rest with
      | none => .error (.internal ("hostile chunk key ".toList ++ kind ++ '/' :: row.key))
      | some index => .ok (state.1, state.2 ++ [(index, row.value)])

/-- `read_chunks`. -/
def readChunks (store : Facts) (kind key : Text) : Except ExecError (Option (Value × List Text)) := do
  let rows ← scan store kind key
  let (header, chunks) ← rows.foldlM (readRow serde kind key) (none, [])
  match header with
  | none => return none
  | some header =>
    let sorted := chunks.insertionSort fun a b => a.1 ≤ b.1
    if sorted.length ≠ (serde.headerChunks header).getD 0 then
      .error (.internal ("chunked row ".toList ++ kind ++ '/' :: key ++ " is incomplete".toList))
    else return some (header, sorted.map (·.2))

/-- `read_chunks` and `unpack_chunks`. -/
def readBack (store : Facts) (kind key : Text) : Except ExecError (Option (List T)) := do
  match ← readChunks serde store kind key with
  | none => return none
  | some (_, texts) =>
    let items ← unpackChunks serde texts
    return some items

/-! ## Packing -/

variable {serde}

/-- The chunks carry the items of the chunk that was being filled, and then the others. -/
theorem unpack_of_packFrom (hround : serde.RoundTrip) {cur : List Value} {curBytes : ℕ} {items before : List T}
    {chunks : List Text} (hcur : before.mapM serde.toValue = .ok cur)
    (h : packFrom serde cur curBytes items = .ok chunks) :
    unpackChunks serde chunks = .ok (before ++ items) := by
  induction items generalizing cur curBytes before chunks with
  | nil =>
    obtain ⟨text, htext, hret⟩ := bind_eq_ok.mp h
    obtain rfl := Except.ok.inj hret
    have hread := hround before cur text hcur htext
    simp [unpackChunks, hread, bind, Except.bind, pure, Except.pure]
  | cons item rest ih =>
    obtain ⟨v, hv, h⟩ := bind_eq_ok.mp h
    obtain ⟨s, -, h⟩ := bind_eq_ok.mp h
    have hitem : [item].mapM serde.toValue = .ok [v] := by
      simp [hv, bind, Except.bind, pure, Except.pure]
    split_ifs at h
    · obtain ⟨text, htext, h⟩ := bind_eq_ok.mp h
      obtain ⟨later, hlater, hret⟩ := bind_eq_ok.mp h
      obtain rfl := Except.ok.inj hret
      rw [unpackChunks, hround before cur text hcur htext]
      simp only [bind, Except.bind, ih hitem hlater, pure, Except.pure]
      rfl
    · have hmore : (before ++ [item]).mapM serde.toValue = .ok (cur ++ [v]) := by
        rw [List.mapM_append, hcur, hitem]
        rfl
      rw [ih hmore h, List.append_assoc]
      rfl

theorem unpack_of_pack (hround : serde.RoundTrip) {items : List T} {chunks : List Text}
    (h : packChunks serde items = .ok chunks) : unpackChunks serde chunks = .ok items :=
  @unpack_of_packFrom _ _ _ hround [] 0 items [] chunks rfl h

/-! ## What is written -/

/-- The rows of a write. -/
def written (kind key header : Text) (chunks : List Text) : List Fact :=
  ⟨kind, key, header⟩ :: chunkFacts kind key 1 chunks

/-- The upserts of facts with different keys leave these and the facts of the other keys. -/
theorem mem_of_upsertAll {what : Text} {facts : List Fact} {store store' : Facts}
    (hkeys : (facts.map (·.key)).Nodup) (h : upsertAll what store facts = .ok store') (fact : Fact) :
    fact ∈ store'.rows ↔ fact ∈ facts ∨ fact ∈ store.rows ∧
      ∀ f ∈ facts, (fact.kind, fact.key) ≠ (f.kind, f.key) := by
  induction facts generalizing store with
  | nil =>
    obtain rfl := Except.ok.inj h
    simp
  | cons first rest ih =>
    obtain ⟨store₁, hput, h⟩ := bind_eq_ok.mp h
    rw [List.map_cons, List.nodup_cons] at hkeys
    have hstore : store₁ = store.put first := by
      unfold upsert at hput
      split_ifs at hput
      exact (Except.ok.inj hput).symm
    rw [ih hkeys.2 h, hstore, KeyTable.mem_put,
      List.mem_cons, List.forall_mem_cons]
    constructor
    · rintro (hmem | ⟨⟨hold, hne⟩ | rfl, hrest⟩)
      · exact .inl (.inr hmem)
      · exact .inr ⟨hold, hne, hrest⟩
      · exact .inl (.inl rfl)
    · rintro ((rfl | hmem) | ⟨hold, hne, hrest⟩)
      · refine .inr ⟨.inr rfl, fun f hf heq => hkeys.1 ?_⟩
        rw [(Prod.mk.inj heq).2]
        exact List.mem_map_of_mem hf
      · exact .inl hmem
      · exact .inr ⟨.inl ⟨hold, hne⟩, hrest⟩

theorem chunkFacts_map_key {kind key : Text} {index : ℕ} {chunks : List Text} :
    (chunkFacts kind key index chunks).map (·.key) =
      (List.range' index chunks.length).map (chunkKey key) := by
  induction chunks generalizing index with
  | nil => rfl
  | cons chunk rest ih =>
    rw [chunkFacts, List.map_cons, ih, List.length_cons, List.range'_succ, List.map_cons]

theorem chunkKey_injective (key : Text) : Function.Injective (chunkKey key) := by
  intro i j h
  exact padded_injective 3 (List.append_cancel_left h)

theorem chunkKey_ne (key : Text) (index : ℕ) : chunkKey key index ≠ key := by
  intro h
  have hlength := congrArg List.length h
  simp only [chunkKey, List.length_append] at hlength
  have : "/c".toList.length = 2 := rfl
  omega

/-- The keys of a write, of so many chunks. -/
def writtenKeys (key : Text) (count : ℕ) : List Text := key :: (List.range' 1 count).map (chunkKey key)

theorem written_map_key {kind key header : Text} {chunks : List Text} :
    (written kind key header chunks).map (·.key) = writtenKeys key chunks.length := by
  rw [written, List.map_cons, chunkFacts_map_key, writtenKeys]

theorem nodup_writtenKeys (key : Text) (count : ℕ) : (writtenKeys key count).Nodup := by
  rw [writtenKeys, List.nodup_cons]
  constructor
  · intro hmem
    obtain ⟨i, -, hi⟩ := List.mem_map.mp hmem
    exact chunkKey_ne key i hi
  · exact (List.nodup_range' 1 (by decide)).map (chunkKey_injective key)

variable {index : ℕ} {fact : Fact}

theorem kind_of_mem_chunkFacts {kind key : Text} {chunks : List Text}
    (h : fact ∈ chunkFacts kind key index chunks) : fact.kind = kind := by
  induction chunks generalizing index with
  | nil => exact absurd h List.not_mem_nil
  | cons chunk rest ih =>
    obtain rfl | h := List.mem_cons.mp h
    · rfl
    · exact ih h

variable {header : Text}

theorem kind_of_mem_written {kind key : Text} {chunks : List Text}
    (h : fact ∈ written kind key header chunks) : fact.kind = kind := by
  obtain rfl | h := List.mem_cons.mp h
  · rfl
  · exact kind_of_mem_chunkFacts h

attribute [local instance] lawfulBEq_text in
/-- The rows in the range of a key that a write of so many chunks leaves alone. -/
def others (store : Facts) (kind key : Text) (count : ℕ) : List Fact :=
  store.rows.filter fun fact => inRange kind key fact ∧ fact.key ∉ writtenKeys key count

/-! ## The range of a key -/

/-- A key with more behind it is in the range of the key. -/
theorem inRange_append (kind key rest value : Text) : inRange kind key ⟨kind, key ++ rest, value⟩ := by
  have hlow : key ≤ key ++ rest := by
    rw [← not_lt]
    have := @List.append_left_le Char _ _ _ key [] rest (List.nil_le rest)
    rwa [List.append_nil] at this
  have hhigh : ∀ upper ∈ upperBound key, key ++ rest < upper := by
    intro upper hupper
    unfold upperBound at hupper
    split at hupper
    next => exact absurd hupper (Option.not_mem_none _)
    next c front heq =>
      obtain rfl := Option.mem_some_iff.mp hupper
      have hsplit := List.takeWhile_append_dropWhile (p := fun c : Char => decide (0x7f ≤ c.toNat))
        (l := key.reverse)
      rw [heq] at hsplit
      have hkey : key = front.reverse ++ c :: (key.reverse.takeWhile fun c => 0x7f ≤ c.toNat).reverse := by
        have := congrArg List.reverse hsplit
        simpa using this.symm
      have hc : c.toNat < 0x7f := by
        have hhead := List.head?_dropWhile_not (fun c : Char => decide (0x7f ≤ c.toNat)) key.reverse
        rw [heq] at hhead
        simpa using hhead
      have hlt : c < Char.ofNat (c.toNat + 1) := by
        have hval : (Char.ofNat (c.toNat + 1)).toNat = c.toNat + 1 :=
          (Char.toNat_ofNat _).trans (if_pos (.inl (by omega)))
        show c.toNat < (Char.ofNat (c.toNat + 1)).toNat
        omega
      rw [hkey, List.append_assoc]
      exact List.append_left_lt (List.cons_lt_cons_iff.mpr (.inl hlt))
  simp only [inRange, Bool.decide_and, Bool.and_eq_true, decide_eq_true_eq]
  exact ⟨trivial, hlow, hhigh⟩

/-! ## The pages of a scan -/

/-- The rows behind the last one of a front part. -/
theorem filter_after {front back : List Fact} {last : Fact}
    (hsorted : (front ++ back).Pairwise fun a b => a.key < b.key) (hlast : front.getLast? = some last) :
    (front ++ back).filter (fun fact => last.key < fact.key) = back := by
  obtain ⟨start, rfl⟩ := List.getLast?_eq_some_iff.mp hlast
  obtain ⟨hfront, -, hback⟩ := List.pairwise_append.mp hsorted
  obtain ⟨-, -, hstart⟩ := List.pairwise_append.mp hfront
  rw [List.filter_append]
  have hnone : (start ++ [last]).filter (fun fact => last.key < fact.key) = [] := by
    rw [List.filter_eq_nil_iff]
    intro fact hfact
    obtain hfact | hfact := List.mem_append.mp hfact
    · have hlt := hstart fact hfact last (List.mem_singleton_self last)
      simpa using hlt.le
    · rw [List.mem_singleton.mp hfact]
      simp
  have hall : back.filter (fun fact => last.key < fact.key) = back := by
    rw [List.filter_eq_self]
    intro fact hfact
    simpa using hback last (by simp) fact hfact
  rw [hnone, hall, List.nil_append]

variable {rows : List Fact}

/-- The loop, between two pages. -/
theorem scanFrom_eq {fuel : ℕ} {after : Text} {out : List Fact}
    (hsorted : rows.Pairwise fun a b => a.key < b.key)
    (hsplit : out ++ rows.filter (fun fact => after < fact.key) = rows)
    (hfuel : (rows.filter fun fact => after < fact.key).length < fuel) (hout : out.length ≤ maxPrefixRows) :
    scanFrom rows fuel after out =
      if maxPrefixRows < rows.length then .error oversizedScan else .ok rows := by
  induction fuel generalizing after out with
  | zero => omega
  | succ fuel ih =>
    have hpage : page rows after = ((rows.filter fun fact => after < fact.key).take pageSize,
        decide (pageSize < (rows.filter fun fact => after < fact.key).length)) := rfl
    rw [scanFrom, hpage]
    generalize rows.filter (fun fact => after < fact.key) = rest at hsplit hfuel
    dsimp only
    cases hlast : (rest.take pageSize).getLast? with
    | none =>
      have hnil : rest = [] := by
        have := List.getLast?_eq_none_iff.mp hlast
        rw [List.take_eq_nil_iff] at this
        exact this.resolve_left (by decide)
      rw [hnil, List.append_nil] at hsplit
      rw [← hsplit, if_neg (by omega)]
    | some last =>
      have hparts : (out ++ rest.take pageSize) ++ rest.drop pageSize = rows := by
        rw [List.append_assoc, List.take_append_drop, hsplit]
      have hlength := congrArg List.length hparts
      rw [List.length_append] at hlength
      dsimp only
      by_cases hmany : maxPrefixRows < (out ++ rest.take pageSize).length
      · rw [if_pos hmany, if_pos (by omega)]
      rw [if_neg hmany]
      by_cases hmore : pageSize < rest.length
      · rw [decide_eq_true hmore, if_pos rfl]
        have hafter : rows.filter (fun fact => last.key < fact.key) = rest.drop pageSize := by
          have hend : (out ++ rest.take pageSize).getLast? = some last := by
            rw [List.getLast?_append, hlast]
            rfl
          rw [← hparts] at hsorted ⊢
          exact filter_after hsorted hend
        apply ih
        · rw [hafter, hparts]
        · rw [hafter, List.length_drop]
          have : 0 < pageSize := by decide
          omega
        · omega
      · rw [decide_eq_false hmore, if_neg (by decide)]
        have hdrop : rest.drop pageSize = [] := List.drop_eq_nil_of_le (by omega)
        rw [hdrop, List.append_nil] at hparts
        rw [hparts] at hmany ⊢
        rw [if_neg hmany]

theorem ordered_perm (store : Facts) (kind key : Text) :
    (ordered store kind key).Perm (store.rows.filter (inRange kind key)) := List.perm_insertionSort _ _

/-- The rows of one kind have different keys, so their order is strict. -/
theorem ordered_sorted (store : Facts) (kind key : Text) :
    (ordered store kind key).Pairwise fun a b => a.key < b.key := by
  have hle := List.pairwise_insertionSort (fun a b : Fact => a.key ≤ b.key)
    (store.rows.filter (inRange kind key))
  have hkeys : (ordered store kind key).Pairwise fun a b => a.key ≠ b.key := by
    have hnodup : (store.rows.filter (inRange kind key)).Pairwise fun a b => a.key ≠ b.key := by
      have hpairs := List.pairwise_map.mp store.nodup
      refine (hpairs.filter (inRange kind key)).imp_of_mem ?_
      intro a b ha hb hne heq
      have hkind : ∀ f ∈ store.rows.filter (inRange kind key), f.kind = kind := by
        intro f hf
        have := (List.mem_filter.mp hf).2
        simp only [inRange, Bool.decide_and, Bool.and_eq_true, decide_eq_true_eq] at this
        exact this.1
      exact hne (Prod.ext ((hkind a ha).trans (hkind b hb).symm) heq)
    exact hnodup.perm (ordered_perm store kind key).symm (fun h => h.symm)
  exact (hle.and hkeys).imp fun h => lt_of_le_of_ne h.1 h.2

/-- **A scan returns all rows of its range**, in the order of their keys, or refuses them all. -/
theorem scan_eq {store : Facts} {kind key : Text} (hkind : kind ≠ []) (hkey : key ≠ []) :
    scan store kind key =
      if maxPrefixRows < (ordered store kind key).length then .error oversizedScan
      else .ok (ordered store kind key) := by
  have hall : (ordered store kind key).filter (fun fact => [] < fact.key) = ordered store kind key := by
    rw [List.filter_eq_self]
    intro fact hfact
    have hrange := (List.mem_filter.mp ((ordered_perm store kind key).mem_iff.mp hfact)).2
    simp only [inRange, Bool.decide_and, Bool.and_eq_true, decide_eq_true_eq] at hrange
    cases key with
    | nil => exact absurd rfl hkey
    | cons c rest => exact decide_eq_true (lt_of_lt_of_le (List.nil_lt_cons c rest) hrange.2.1)
  rw [scan, if_neg (by tauto)]
  apply scanFrom_eq (ordered_sorted store kind key)
  · rw [hall, List.nil_append]
  · rw [hall]
    omega
  · exact Nat.zero_le _

/-! ## The rows that are read -/

variable {kind key : Text}

/-- The chunk that a row is read as. -/
def chunkOf (key : Text) (row : Fact) : Option (ℕ × Text) :=
  ((chunkSuffix key row.key).bind parseIndex).map fun index => (index, row.value)

theorem chunkSuffix_self (key : Text) : chunkSuffix key key = none := by
  rw [chunkSuffix, if_neg]
  intro h
  have := h.length_le
  simp at this

theorem chunkSuffix_chunkKey (key : Text) (index : ℕ) :
    chunkSuffix key (chunkKey key index) = some (padded 3 index) := by
  have hlength : (key ++ "/c".toList).length = key.length + 2 := by simp
  rw [chunkSuffix, chunkKey, if_pos (List.prefix_append _ _), ← hlength, List.drop_left]

theorem parseIndex_padded (h : index < 2 ^ 64) : parseIndex (padded 3 index) = some index := by
  obtain ⟨hdigits, hnumber⟩ := padded_spec 3 index
  have hplus : stripPlus (padded 3 index) = padded 3 index := by
    unfold stripPlus
    split
    next rest heq =>
      rw [heq] at hdigits
      simp at hdigits
    next => rfl
  have hne := padded_ne_nil 3 index
  rw [parseIndex, hplus, if_neg, hnumber]
  rintro (hnil | hno | hbig)
  · exact hne hnil
  · exact hno hdigits
  · omega

/-- **A row that is not read as a chunk counts as none**, and every other one as one. -/
theorem length_of_gathered {state final : Gathered Value}
    (h : rows.foldlM (readRow serde kind key) state = .ok final) :
    final.2.length = state.2.length + (rows.filter fun row => (chunkSuffix key row.key).isSome).length := by
  induction rows generalizing state with
  | nil =>
    obtain rfl := Except.ok.inj h
    rfl
  | cons row rest ih =>
    rw [List.foldlM_cons] at h
    obtain ⟨next, hnext, h⟩ := bind_eq_ok.mp h
    rw [ih h]
    unfold readRow at hnext
    by_cases hkey : row.key = key
    · rw [if_pos hkey] at hnext
      obtain ⟨header, -, hret⟩ := bind_eq_ok.mp hnext
      obtain rfl := Except.ok.inj hret
      rw [List.filter_cons_of_neg (by rw [hkey, chunkSuffix_self]; simp)]
    · rw [if_neg hkey] at hnext
      cases hsuffix : chunkSuffix key row.key with
      | none =>
        rw [hsuffix] at hnext
        obtain rfl := Except.ok.inj hnext
        rw [List.filter_cons_of_neg (by simp [hsuffix])]
      | some suffix =>
        rw [hsuffix] at hnext
        dsimp only at hnext
        cases hindex : parseIndex suffix with
        | none =>
          rw [hindex] at hnext
          cases hnext
        | some index =>
          rw [hindex] at hnext
          obtain rfl := Except.ok.inj hnext
          rw [List.filter_cons_of_pos (by simp [hsuffix])]
          simp only [List.length_append, List.length_cons, List.length_nil]
          omega

variable {v : Value}

/-- The header that was read is that of a row of the key, or the one from before. -/
theorem header_of_gathered {state final : Gathered Value}
    (hrows : ∀ row ∈ rows, row.key = key → serde.headerFromStr row.value = .ok v)
    (h : rows.foldlM (readRow serde kind key) state = .ok final) :
    final.1 = state.1 ∨ final.1 = some v := by
  induction rows generalizing state with
  | nil =>
    obtain rfl := Except.ok.inj h
    exact .inl rfl
  | cons row rest ih =>
    rw [List.foldlM_cons] at h
    obtain ⟨next, hnext, h⟩ := bind_eq_ok.mp h
    obtain hsame | hv := ih (fun r hr => hrows r (.tail _ hr)) h
    swap
    · exact .inr hv
    rw [hsame]
    unfold readRow at hnext
    by_cases hkey : row.key = key
    · rw [if_pos hkey, hrows row List.mem_cons_self hkey] at hnext
      obtain rfl := Except.ok.inj hnext
      exact .inr rfl
    · rw [if_neg hkey] at hnext
      split at hnext
      · obtain rfl := Except.ok.inj hnext
        exact .inl rfl
      · split at hnext
        · cases hnext
        · obtain rfl := Except.ok.inj hnext
          exact .inl rfl

/-- Rows that can all be read give their chunks in their order, and the header. -/
theorem gathered_eq {rows : List Fact} {state : Gathered Value} {v : Value}
    (hheader : ∀ row ∈ rows, row.key = key → serde.headerFromStr row.value = .ok v)
    (hchunks : ∀ row ∈ rows, (chunkSuffix key row.key).isSome → (chunkOf key row).isSome) :
    rows.foldlM (readRow serde kind key) state =
      .ok (if ∃ row ∈ rows, row.key = key then some v else state.1,
        state.2 ++ rows.filterMap (chunkOf key)) := by
  induction rows generalizing state with
  | nil => simp [pure, Except.pure]
  | cons row rest ih =>
    have hrest := fun state => @ih state (fun r hr => hheader r (.tail _ hr)) (fun r hr => hchunks r (.tail _ hr))
    rw [List.foldlM_cons]
    by_cases hkey : row.key = key
    · have hnone : chunkOf key row = none := by rw [chunkOf, hkey, chunkSuffix_self]; rfl
      rw [readRow, if_pos hkey, hheader row List.mem_cons_self hkey]
      show rest.foldlM (readRow serde kind key) (some v, state.2) = _
      rw [hrest, List.filterMap_cons_none hnone]
      simp only [ite_self]
      rw [if_pos ⟨row, List.mem_cons_self, hkey⟩]
    · have hexists : (∃ r ∈ row :: rest, r.key = key) ↔ ∃ r ∈ rest, r.key = key := by
        simp [hkey]
      rw [readRow, if_neg hkey]
      simp only [hexists]
      cases hsuffix : chunkSuffix key row.key with
      | none =>
        have hnone : chunkOf key row = none := by rw [chunkOf, hsuffix]; rfl
        show rest.foldlM (readRow serde kind key) state = _
        rw [hrest, List.filterMap_cons_none hnone]
      | some suffix =>
        have hsome := hchunks row List.mem_cons_self (by rw [hsuffix]; rfl)
        rw [chunkOf, hsuffix, Option.bind_some, Option.isSome_map] at hsome
        obtain ⟨index, hindex⟩ := Option.isSome_iff_exists.mp hsome
        have hone : chunkOf key row = some (index, row.value) := by
          rw [chunkOf, hsuffix, Option.bind_some, hindex]
          rfl
        dsimp only
        rw [hindex, List.filterMap_cons_some hone]
        show rest.foldlM (readRow serde kind key) (state.1, state.2 ++ [(index, row.value)]) = _
        rw [hrest, List.append_assoc]
        rfl

/-- The chunks of the rows of a write, with their indexes. -/
theorem filterMap_chunkFacts {chunks : List Text} (h : index + chunks.length ≤ 2 ^ 64) :
    (chunkFacts kind key index chunks).filterMap (chunkOf key) = (chunks.zipIdx index).map Prod.swap := by
  induction chunks generalizing index with
  | nil => rfl
  | cons chunk rest ih =>
    rw [List.length_cons] at h
    have hone : chunkOf key ⟨kind, chunkKey key index, chunk⟩ = some (index, chunk) := by
      rw [chunkOf, chunkSuffix_chunkKey, Option.bind_some, parseIndex_padded (by omega)]
      rfl
    rw [chunkFacts, List.filterMap_cons_some hone, ih (by omega), List.zipIdx_cons, List.map_cons]
    rfl

/-! ## What is read back -/

/-- **A store that is fresh for a write**: no other row stands among the chunk rows of the key, and the
range of the key stays within the bound of a scan. -/
def Fresh (store : Facts) (kind key : Text) (count : ℕ) : Prop :=
  (∀ row ∈ others store kind key count, chunkSuffix key row.key = none) ∧
    (others store kind key count).length + count + 1 ≤ maxPrefixRows

/-- The rows of a write are in the range of its key. -/
theorem inRange_of_mem_written {chunks : List Text} (h : fact ∈ written kind key header chunks) :
    inRange kind key fact := by
  have hkey : fact.key ∈ writtenKeys key chunks.length := by
    rw [← @written_map_key kind key header]
    exact List.mem_map_of_mem h
  have happend : ∃ rest, fact.key = key ++ rest := by
    obtain hself | hchunk := List.mem_cons.mp hkey
    · exact ⟨[], by rw [hself, List.append_nil]⟩
    · obtain ⟨i, -, hi⟩ := List.mem_map.mp hchunk
      exact ⟨"/c".toList ++ padded 3 i, by rw [← hi, chunkKey, List.append_assoc]⟩
  obtain ⟨rest, hrest⟩ := happend
  have hrange := inRange_append kind key rest fact.value
  have hfact : fact = ⟨kind, key ++ rest, fact.value⟩ := by
    rw [← hrest, ← kind_of_mem_written h]
  rw [hfact]
  exact hrange

/-- A write needs a kind and a key, and leaves its own rows and those of other keys. -/
theorem of_putChunks {store store' : Facts} {chunks : List Text}
    (hput : putChunks store kind key header chunks = .ok store') :
    kind ≠ [] ∧ key ≠ [] ∧ ∀ fact, fact ∈ store'.rows ↔ fact ∈ written kind key header chunks ∨
      fact ∈ store.rows ∧ ∀ f ∈ written kind key header chunks, (fact.kind, fact.key) ≠ (f.kind, f.key) := by
  unfold putChunks at hput
  split_ifs at hput
  obtain ⟨store₁, hheader, hchunks⟩ := bind_eq_ok.mp hput
  unfold upsert at hheader
  split_ifs at hheader with hadmitted
  obtain rfl := Except.ok.inj hheader
  simp only [Fact.admitted, Bool.decide_and, Bool.and_eq_true, decide_eq_true_eq] at hadmitted
  refine ⟨hadmitted.1, hadmitted.2.1, fun fact => ?_⟩
  have hkeys := nodup_writtenKeys key chunks.length
  rw [← @written_map_key kind key header, written, List.map_cons, List.nodup_cons] at hkeys
  rw [mem_of_upsertAll hkeys.2 hchunks, KeyTable.mem_put, written, List.mem_cons, List.forall_mem_cons]
  constructor
  · rintro (hmem | ⟨⟨hold, hne⟩ | rfl, hrest⟩)
    · exact .inl (.inr hmem)
    · exact .inr ⟨hold, hne, hrest⟩
    · exact .inl (.inl rfl)
  · rintro ((rfl | hmem) | ⟨hold, hne, hrest⟩)
    · refine .inr ⟨.inr rfl, fun f hf heq => hkeys.1 ?_⟩
      rw [(Prod.mk.inj heq).2]
      exact List.mem_map_of_mem hf
    · exact .inl hmem
    · exact .inr ⟨.inl ⟨hold, hne⟩, hrest⟩

/-- **The rows of the range after a write**: those that were written, and the others. -/
theorem ordered_after {store store' : Facts} {chunks : List Text}
    (hput : putChunks store kind key header chunks = .ok store') :
    (ordered store' kind key).Perm
      (written kind key header chunks ++ others store kind key chunks.length) := by
  refine (ordered_perm store' kind key).trans ?_
  have hnodup : (written kind key header chunks).Nodup := by
    apply List.Nodup.of_map (·.key)
    rw [written_map_key]
    exact nodup_writtenKeys key chunks.length
  have hapart : (written kind key header chunks).Disjoint (others store kind key chunks.length) := by
    intro f hf hother
    have hkey := (List.mem_filter.mp hother).2
    rw [decide_eq_true_iff, ← @written_map_key kind key header] at hkey
    exact hkey.2 (List.mem_map_of_mem hf)
  have hothers : (others store kind key chunks.length).Nodup := (store.nodup.of_map _).filter _
  refine (List.perm_ext_iff_of_nodup ((store'.nodup.of_map _).filter _)
    (hnodup.append hothers hapart)).mpr fun fact => ?_
  rw [List.mem_filter, (of_putChunks hput).2.2, List.mem_append, others, List.mem_filter, decide_eq_true_iff,
    ← @written_map_key kind key header]
  constructor
  · rintro ⟨hmem | ⟨hold, hne⟩, hrange⟩
    · exact .inl hmem
    · refine .inr ⟨hold, hrange, fun hkey => ?_⟩
      obtain ⟨f, hf, heq⟩ := List.mem_map.mp hkey
      have hkind : fact.kind = kind := by
        simp only [inRange, Bool.decide_and, Bool.and_eq_true, decide_eq_true_eq] at hrange
        exact hrange.1
      exact hne f hf (Prod.ext (hkind.trans (kind_of_mem_written hf).symm) heq.symm)
  · rintro (hmem | ⟨hold, hrange, hkey⟩)
    · exact ⟨.inl hmem, inRange_of_mem_written hmem⟩
    · refine ⟨.inr ⟨hold, fun f hf heq => hkey ?_⟩, hrange⟩
      rw [(Prod.mk.inj heq).2]
      exact List.mem_map_of_mem hf

/-- The rows of a write are the header row and a row for each chunk. -/
theorem mem_written {chunks : List Text} (h : fact ∈ written kind key header chunks) :
    fact = ⟨kind, key, header⟩ ∨
      ∃ index, 1 ≤ index ∧ index ≤ chunks.length ∧ fact.key = chunkKey key index := by
  obtain hself | hchunk := List.mem_cons.mp h
  · exact .inl hself
  · have hkey : fact.key ∈ (chunkFacts kind key 1 chunks).map (·.key) := List.mem_map_of_mem hchunk
    rw [chunkFacts_map_key] at hkey
    obtain ⟨index, hindex, heq⟩ := List.mem_map.mp hkey
    rw [List.mem_range'_1] at hindex
    exact .inr ⟨index, hindex.1, by omega, heq.symm⟩

/-- The row of the key itself holds the header. -/
theorem header_of_ordered {store store' : Facts} {chunks : List Text}
    (hput : putChunks store kind key header chunks = .ok store') {row : Fact}
    (hrow : row ∈ ordered store' kind key) (hkey : row.key = key) : row.value = header := by
  obtain hmem | hother := List.mem_append.mp ((ordered_after hput).mem_iff.mp hrow)
  · obtain rfl | ⟨index, -, -, heq⟩ := mem_written hmem
    · rfl
    · exact absurd (heq.symm.trans hkey) (chunkKey_ne key index)
  · have hnot := (List.mem_filter.mp hother).2
    rw [decide_eq_true_iff, hkey] at hnot
    exact absurd List.mem_cons_self hnot.2

/-- The chunk rows among those of a write. -/
theorem length_filter_written (header : Text) (chunks : List Text) :
    ((written kind key header chunks).filter fun row => (chunkSuffix key row.key).isSome).length =
      chunks.length := by
  have hall : (chunkFacts kind key 1 chunks).filter (fun row => (chunkSuffix key row.key).isSome) =
      chunkFacts kind key 1 chunks := by
    rw [List.filter_eq_self]
    intro row hrow
    have hkey : row.key ∈ (chunkFacts kind key 1 chunks).map (·.key) := List.mem_map_of_mem hrow
    rw [chunkFacts_map_key] at hkey
    obtain ⟨index, -, heq⟩ := List.mem_map.mp hkey
    rw [← heq, chunkSuffix_chunkKey]
    rfl
  have hlength := congrArg List.length (@chunkFacts_map_key kind key 1 chunks)
  rw [List.length_map, List.length_map, List.length_range'] at hlength
  rw [written, List.filter_cons_of_neg (by rw [chunkSuffix_self]; simp), hall, hlength]

/-- The chunks of a write, read in any order of the rows, sorted by their indexes. -/
theorem sorted_chunks {rows : List (ℕ × Text)} {chunks : List Text}
    (h : rows.Perm ((chunks.zipIdx 1).map Prod.swap)) :
    rows.insertionSort (fun a b => a.1 ≤ b.1) = (chunks.zipIdx 1).map Prod.swap := by
  have hindexes : ((chunks.zipIdx 1).map Prod.swap).map Prod.fst = List.range' 1 chunks.length := by
    rw [List.map_map, ← List.zipIdx_map_snd]
    rfl
  have hlt : ((chunks.zipIdx 1).map Prod.swap).Pairwise fun a b => a.1 < b.1 := by
    rw [← List.pairwise_map, hindexes]
    exact List.pairwise_lt_range' 1 (by decide)
  have hnodup : (((chunks.zipIdx 1).map Prod.swap).map Prod.fst).Nodup := by
    rw [hindexes]
    exact List.nodup_range' 1 (by decide)
  have hperm := (List.perm_insertionSort (fun a b : ℕ × Text => a.1 ≤ b.1) rows).trans h
  refine List.Perm.eq_of_pairwise ?_ (List.pairwise_insertionSort _ rows) (hlt.imp fun h => h.le) hperm
  intro a b ha hb hab hba
  exact List.inj_on_of_nodup_map hnodup (hperm.mem_iff.mp ha) hb (le_antisymm hab hba)

/-- A fresh store is read back as the header and the chunks of the write. -/
theorem readChunks_of_fresh {store store' : Facts} {chunks : List Text}
    (hheader : serde.headerFromStr header = .ok v) (hcount : serde.headerChunks v = some chunks.length)
    (hput : putChunks store kind key header chunks = .ok store') (h : Fresh store kind key chunks.length) :
    readChunks serde store' kind key = .ok (some (v, chunks)) := by
  obtain ⟨hkind, hkey, -⟩ := of_putChunks hput
  have hperm := ordered_after hput
  have hlength := hperm.length_eq
  have hbound : maxPrefixRows < 2 ^ 64 := by decide
  have hwritten : (written kind key header chunks).length = chunks.length + 1 := by
    have := congrArg List.length (@written_map_key kind key header chunks)
    simpa [writtenKeys] using this
  obtain ⟨hnone, hrows⟩ := h
  rw [List.length_append, hwritten] at hlength
  have hother : ∀ row ∈ others store kind key chunks.length, chunkOf key row = none := by
    intro row hrow
    rw [chunkOf, hnone row hrow]
    rfl
  have hread : ∀ row ∈ ordered store' kind key,
      (chunkSuffix key row.key).isSome → (chunkOf key row).isSome := by
    intro row hrow hsome
    obtain hmem | hother := List.mem_append.mp (hperm.mem_iff.mp hrow)
    · obtain rfl | ⟨index, -, hle, heq⟩ := mem_written hmem
      · simp [chunkSuffix_self] at hsome
      · rw [chunkOf, heq, chunkSuffix_chunkKey, Option.bind_some, parseIndex_padded (by omega)]
        rfl
    · rw [hnone row hother] at hsome
      exact absurd hsome (by decide)
  have hgathered := @gathered_eq _ _ serde kind key (ordered store' kind key) (none, []) v
    (fun row hrow hself => by rw [header_of_ordered hput hrow hself, hheader]) hread
  have hexists : ∃ row ∈ ordered store' kind key, row.key = key :=
    ⟨⟨kind, key, header⟩, hperm.mem_iff.mpr (List.mem_append_left _ List.mem_cons_self), rfl⟩
  have hchunks : ((ordered store' kind key).filterMap (chunkOf key)).Perm
      ((chunks.zipIdx 1).map Prod.swap) := by
    have hself : chunkOf key ⟨kind, key, header⟩ = none := by rw [chunkOf, chunkSuffix_self]; rfl
    have := hperm.filterMap (chunkOf key)
    rwa [List.filterMap_append, List.filterMap_eq_nil_iff.mpr hother, List.append_nil, written,
      List.filterMap_cons_none hself, filterMap_chunkFacts (by omega)] at this
  rw [if_pos hexists, List.nil_append] at hgathered
  have hsecond : ((chunks.zipIdx 1).map Prod.swap).map (·.2) = chunks := by
    rw [List.map_map]
    exact List.zipIdx_map_fst 1 chunks
  rw [readChunks, scan_eq hkind hkey, if_neg (by omega)]
  show ((ordered store' kind key).foldlM (m := Except ExecError) (readRow serde kind key) (none, []) >>= _) = _
  rw [hgathered]
  show (if _ then _ else _) = _
  rw [sorted_chunks hchunks, if_neg, hsecond]
  · rfl
  · rw [hcount, List.length_map, List.length_zipIdx]
    simp

/-- What is read under the key has the header of the write, and then the store was fresh for it. -/
theorem fresh_of_readChunks {store store' : Facts} {chunks texts : List Text} {v' : Value}
    (hheader : serde.headerFromStr header = .ok v) (hcount : serde.headerChunks v = some chunks.length)
    (hput : putChunks store kind key header chunks = .ok store')
    (hread : readChunks serde store' kind key = .ok (some (v', texts))) :
    Fresh store kind key chunks.length := by
  obtain ⟨hkind, hkey, -⟩ := of_putChunks hput
  have hperm := ordered_after hput
  have hlength := hperm.length_eq
  have hwritten : (written kind key header chunks).length = chunks.length + 1 := by
    have := congrArg List.length (@written_map_key kind key header chunks)
    simpa [writtenKeys] using this
  rw [List.length_append, hwritten] at hlength
  obtain ⟨rows, hscan, hread⟩ := bind_eq_ok.mp hread
  rw [scan_eq hkind hkey] at hscan
  split_ifs at hscan with hmany
  obtain rfl := Except.ok.inj hscan
  obtain ⟨⟨found, gathered⟩, hfold, hread⟩ := bind_eq_ok.mp hread
  have hcounted := length_of_gathered hfold
  have hfound := header_of_gathered
    (fun row hrow hself => by rw [header_of_ordered hput hrow hself, hheader]) hfold
  have hsome : found = some v := by
    obtain hnone | hv := hfound
    · rw [show found = none from hnone] at hread
      cases hread
    · exact hv
  rw [hsome] at hread
  dsimp only at hread
  split_ifs at hread with hincomplete
  rw [not_not, hcount, List.length_insertionSort, Option.getD_some] at hincomplete
  rw [(hperm.filter _).length_eq, List.filter_append, List.length_append, length_filter_written] at hcounted
  simp only [List.length_nil, Nat.zero_add] at hcounted
  have hnil : ((others store kind key chunks.length).filter
      fun row => (chunkSuffix key row.key).isSome) = [] := by
    apply List.eq_nil_of_length_eq_zero
    omega
  refine ⟨fun row hrow => ?_, by omega⟩
  have := List.filter_eq_nil_iff.mp hnil row hrow
  simpa using this

/-- The text of an array of so many `null`s. -/
def nulls : ℕ → Text
  | 0 => "[]".toList
  | n + 1 => "[null".toList ++ (List.replicate n ",null".toList).flatten ++ "]".toList

theorem length_nulls (n : ℕ) : ((nulls n).length - 1) / 5 = n := by
  cases n with
  | zero => rfl
  | succ n =>
    have hrest : ((List.replicate n ",null".toList).flatten).length = n * 5 := by simp
    rw [nulls, List.length_append, List.length_append, hrest]
    show (5 + n * 5 + 1 - 1) / 5 = n + 1
    omega

/-- The header of a row of one chunk. -/
def oneChunk : Text := "\x7b\"chunks\":1\x7d".toList

/-- Items that are all `null`; an object is known by its number of chunks. -/
def nullSerde : Serde Unit (Option ℕ) where
  toValue _ := .ok none
  toString _ := .ok "null".toList
  arrayToString values := .ok (nulls values.length)
  fromStr text :=
    if nulls ((text.length - 1) / 5) = text then .ok (List.replicate ((text.length - 1) / 5) ())
    else .error (.internal "row chunk decode".toList)
  headerFromStr text :=
    if text = oneChunk then .ok (some 1) else .error (.internal "row header decode".toList)
  headerChunks := id

theorem nullSerde_roundTrip : nullSerde.RoundTrip := by
  intro items values text hvalues htext
  obtain rfl := Except.ok.inj htext
  have hlength : values.length = items.length := by
    induction items generalizing values with
    | nil =>
      obtain rfl := Except.ok.inj hvalues
      rfl
    | cons item rest ih =>
      rw [List.mapM_cons] at hvalues
      obtain ⟨v, -, hvalues⟩ := bind_eq_ok.mp hvalues
      obtain ⟨vs, hvs, hret⟩ := bind_eq_ok.mp hvalues
      obtain rfl := Except.ok.inj hret
      rw [List.length_cons, List.length_cons, ih vs hvs rfl]
  have hitems : List.replicate items.length () = items := (List.eq_replicate_iff.mpr ⟨rfl, by simp⟩).symm
  show (if nulls (((nulls values.length).length - 1) / 5) = nulls values.length then _ else _) = _
  rw [length_nulls, if_pos rfl, hlength, hitems]

end ChunkRows
