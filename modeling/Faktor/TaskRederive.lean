/-
# Re-deriving the criteria of a task

A re-derivation keeps the user criteria of a row and adds the derived ones; a derived criterion is left out
where its text is already there, also when another derived criterion brought it, and the criteria stand in
the order in which they were found, so that a second run moves a derived user criterion to the front.

* `mergeDerivedCriteria_eq` : the merge, for derived criteria of distinct texts;
* `setTaskCriteria_ok_iff` : what a valid list of criteria makes of a row;
* `rederive_iff` : when a re-derivation succeeds, keeps what it must and can be repeated.
-/
import Mathlib
import Faktor.KeepFirst
import Faktor.TaskCriteria

namespace TaskCriteria

open Authority CostLedger TextBytes

/-! ## The merge -/

/-- The derived criteria whose id and text no user criterion has. -/
def freshOf (users derived : List Criterion) : List Criterion :=
  derived.filter fun d => d.id ∉ users.map Criterion.id ∧ d.text ∉ users.map Criterion.text

variable {users derived : List Criterion}

theorem mem_freshOf {d : Criterion} :
    d ∈ freshOf users derived ↔
      d ∈ derived ∧ d.id ∉ users.map Criterion.id ∧ d.text ∉ users.map Criterion.text := by
  rw [freshOf, List.mem_filter, decide_eq_true_iff]

variable {out : List Criterion} {c : Criterion}

theorem any_id_iff :
    out.any (fun o => o.id = c.id) = true ↔ c.id ∈ out.map Criterion.id := by
  simp

theorem any_text_iff :
    out.any (fun o => o.text = c.text) = true ↔ c.text ∈ out.map Criterion.text := by
  simp

theorem keepUser_eq (out : List Criterion) (c : Criterion) :
    keepUser out c = if c.id ∈ out.map Criterion.id then out else out ++ [c] := by
  rw [keepUser]
  by_cases h : c.id ∈ out.map Criterion.id
  · rw [if_pos h, if_pos (any_id_iff.mpr h)]
  · rw [if_neg h, if_neg (fun hany => h (any_id_iff.mp hany))]

theorem addDerived_eq (out : List Criterion) (c : Criterion) :
    addDerived out c =
      if c.id ∈ out.map Criterion.id ∨ c.text ∈ out.map Criterion.text then out else out ++ [c] := by
  rw [addDerived]
  by_cases hid : c.id ∈ out.map Criterion.id
  · rw [if_pos (any_id_iff.mpr hid), if_pos (Or.inl hid)]
  · rw [if_neg (fun hany => hid (any_id_iff.mp hany))]
    by_cases htext : c.text ∈ out.map Criterion.text
    · rw [if_pos (any_text_iff.mpr htext), if_pos (Or.inr htext)]
    · rw [if_neg (fun hany => htext (any_text_iff.mp hany)), if_neg (not_or.mpr ⟨hid, htext⟩)]

/-- The user criteria that are kept: some of them, under distinct ids, one for each id. -/
theorem foldl_keepUser_spec (users out : List Criterion) (hout : (out.map Criterion.id).Nodup) :
    ∃ kept : List Criterion, users.foldl keepUser out = out ++ kept ∧ (∀ c ∈ kept, c ∈ users) ∧
      ((out ++ kept).map Criterion.id).Nodup ∧ ∀ u ∈ users, u.id ∈ (out ++ kept).map Criterion.id := by
  induction users generalizing out with
  | nil => exact ⟨[], by simp, by simp, by simpa using hout, by simp⟩
  | cons u users ih =>
    rw [List.foldl_cons, keepUser_eq]
    by_cases hu : u.id ∈ out.map Criterion.id
    · rw [if_pos hu]
      obtain ⟨kept, heq, hmem, hnodup, hall⟩ := ih out hout
      refine ⟨kept, heq, fun c hc => List.mem_cons_of_mem _ (hmem c hc), hnodup, ?_⟩
      rw [List.forall_mem_cons]
      refine ⟨?_, hall⟩
      rw [List.map_append]
      exact List.mem_append_left _ hu
    · rw [if_neg hu]
      have hout' : ((out ++ [u]).map Criterion.id).Nodup := by
        rw [List.map_append, List.map_singleton]
        exact List.nodup_append_comm.mp (List.nodup_cons.mpr ⟨hu, hout⟩)
      obtain ⟨kept, heq, hmem, hnodup, hall⟩ := ih (out ++ [u]) hout'
      rw [List.append_assoc, List.singleton_append] at heq hnodup hall
      refine ⟨u :: kept, heq, ?_, hnodup, ?_⟩
      · rw [List.forall_mem_cons]
        exact ⟨List.mem_cons_self, fun c hc => List.mem_cons_of_mem _ (hmem c hc)⟩
      · rw [List.forall_mem_cons]
        exact ⟨List.mem_map_of_mem (by simp), hall⟩

/-- The derived criteria that join: some of them in their order, under texts of their own. -/
theorem foldl_addDerived_spec (derived out : List Criterion) :
    ∃ added : List Criterion, derived.foldl addDerived out = out ++ added ∧ added.Sublist derived ∧
      (added.map Criterion.id).Nodup ∧ (added.map Criterion.text).Nodup ∧
      ∀ d ∈ added, d.id ∉ out.map Criterion.id ∧ d.text ∉ out.map Criterion.text := by
  induction derived generalizing out with
  | nil => exact ⟨[], by simp, List.Sublist.refl _, by simp, by simp, by simp⟩
  | cons d derived ih =>
    rw [List.foldl_cons, addDerived_eq]
    by_cases hd : d.id ∈ out.map Criterion.id ∨ d.text ∈ out.map Criterion.text
    · rw [if_pos hd]
      obtain ⟨added, heq, hsub, hids, htexts, hnew⟩ := ih out
      exact ⟨added, heq, hsub.cons d, hids, htexts, hnew⟩
    · rw [if_neg hd]
      obtain ⟨hdid, hdtext⟩ := not_or.mp hd
      obtain ⟨added, heq, hsub, hids, htexts, hnew⟩ := ih (out ++ [d])
      rw [List.append_assoc, List.singleton_append] at heq
      simp only [List.map_append, List.map_singleton, List.mem_append, List.mem_singleton, not_or] at hnew
      refine ⟨d :: added, heq, hsub.cons_cons d, ?_, ?_, ?_⟩
      · rw [List.map_cons, List.nodup_cons]
        refine ⟨fun hmem => ?_, hids⟩
        obtain ⟨e, he, heq⟩ := List.mem_map.mp hmem
        exact (hnew e he).1.2 heq
      · rw [List.map_cons, List.nodup_cons]
        refine ⟨fun hmem => ?_, htexts⟩
        obtain ⟨e, he, heq⟩ := List.mem_map.mp hmem
        exact (hnew e he).2.2 heq
      · rw [List.forall_mem_cons]
        exact ⟨⟨hdid, hdtext⟩, fun e he => ⟨(hnew e he).1.1, (hnew e he).2.1⟩⟩

/-- Derived criteria of distinct ids and texts all join. -/
theorem foldl_addDerived_eq (hids : (derived.map Criterion.id).Nodup)
    (htexts : ((freshOf out derived).map Criterion.text).Nodup) :
    derived.foldl addDerived out = out ++ freshOf out derived := by
  induction derived generalizing out with
  | nil => simp [freshOf]
  | cons d derived ih =>
    obtain ⟨hd, hrest⟩ := List.nodup_cons.mp hids
    rw [List.foldl_cons, addDerived_eq]
    by_cases hskip : d.id ∈ out.map Criterion.id ∨ d.text ∈ out.map Criterion.text
    · have hfresh : freshOf out (d :: derived) = freshOf out derived := by
        rw [freshOf, List.filter_cons_of_neg, freshOf]
        rw [decide_eq_true_iff]
        tauto
      rw [if_pos hskip, hfresh]
      rw [hfresh] at htexts
      exact ih hrest htexts
    · obtain ⟨hdid, hdtext⟩ := not_or.mp hskip
      have hfresh : freshOf out (d :: derived) = d :: freshOf out derived := by
        rw [freshOf, List.filter_cons_of_pos, freshOf]
        rw [decide_eq_true_iff]
        exact ⟨hdid, hdtext⟩
      rw [hfresh, List.map_cons, List.nodup_cons] at htexts
      -- no later fresh criterion has the id or the text of `d`
      have hsame : freshOf (out ++ [d]) derived = freshOf out derived := by
        refine List.filter_congr fun e he => decide_eq_decide.mpr ?_
        simp only [List.map_append, List.map_singleton, List.mem_append, List.mem_singleton, not_or]
        constructor
        · rintro ⟨⟨hid, -⟩, htext, -⟩
          exact ⟨hid, htext⟩
        · rintro ⟨hid, htext⟩
          refine ⟨⟨hid, fun heq => hd (heq ▸ List.mem_map_of_mem he)⟩, htext, fun heq => htexts.1 ?_⟩
          exact heq ▸ List.mem_map_of_mem (mem_freshOf.mpr ⟨he, hid, htext⟩)
      rw [if_neg hskip, ih hrest (hsame.symm ▸ htexts.2), hsame, hfresh, List.append_assoc,
        List.singleton_append]

/-- Where equal ids mean equal criteria, the first occurrences are kept. -/
theorem foldl_keepUser_eq (hsame : ∀ c ∈ out ++ users, ∀ d ∈ out ++ users, c.id = d.id → c = d) :
    users.foldl keepUser out = out ++ keepFirst out users := by
  induction users generalizing out with
  | nil => simp [keepFirst]
  | cons u users ih =>
    have hmem : u.id ∈ out.map Criterion.id ↔ u ∈ out := by
      constructor
      · intro h
        obtain ⟨o, ho, heq⟩ := List.mem_map.mp h
        rw [← hsame o (List.mem_append_left _ ho) u (List.mem_append_right _ List.mem_cons_self) heq]
        exact ho
      · exact fun h => List.mem_map_of_mem h
    rw [List.foldl_cons, keepUser_eq, keepFirst]
    by_cases hu : u ∈ out
    · rw [if_pos (hmem.mpr hu), if_pos hu]
      have hsub : ∀ c, c ∈ out ++ users → c ∈ out ++ u :: users := by
        intro c hc
        rw [List.mem_append, List.mem_cons]
        exact (List.mem_append.mp hc).imp_right Or.inr
      exact ih fun c hc d hd => hsame c (hsub c hc) d (hsub d hd)
    · rw [if_neg (fun h => hu (hmem.mp h)), if_neg hu, ih, List.append_assoc, List.singleton_append]
      · congr 2
        exact keepFirst_congr fun a _ => by simp [or_comm]
      · rw [List.append_assoc, List.singleton_append]
        exact hsame

/-- The criteria of the users in a list. -/
def usersOf (criteria : List Criterion) : List Criterion := criteria.filter fun c => c.origin.isUser

theorem mem_usersOf {criteria : List Criterion} :
    c ∈ usersOf criteria ↔ c ∈ criteria ∧ c.origin.isUser = true := List.mem_filter

/-- **The merge** of criteria whose ids tell them apart, for derived criteria of distinct texts. -/
theorem mergeDerivedCriteria_eq {existing : List Criterion}
    (husers : ∀ c ∈ usersOf existing, ∀ d ∈ usersOf existing, c.id = d.id → c = d)
    (hids : (derived.map Criterion.id).Nodup)
    (htexts : ((freshOf (usersOf existing) derived).map Criterion.text).Nodup) :
    mergeDerivedCriteria existing derived =
      keepFirst [] (usersOf existing) ++ freshOf (usersOf existing) derived := by
  have hmap : ∀ {B : Type} (f : Criterion → B) (b : B),
      b ∈ (keepFirst [] (usersOf existing)).map f ↔ b ∈ (usersOf existing).map f := by
    intro B f b
    simp only [List.mem_map, mem_keepFirst, List.not_mem_nil, not_false_eq_true, and_true]
  have hfresh : freshOf (keepFirst [] (usersOf existing)) derived = freshOf (usersOf existing) derived :=
    List.filter_congr fun d _ => decide_eq_decide.mpr (by rw [hmap, hmap])
  have hkept : (usersOf existing).foldl keepUser [] = [] ++ keepFirst [] (usersOf existing) :=
    foldl_keepUser_eq (by simpa using husers)
  rw [List.nil_append] at hkept
  show derived.foldl addDerived ((usersOf existing).foldl keepUser []) = _
  rw [hkept, foldl_addDerived_eq hids (hfresh.symm ▸ htexts), hfresh]

/-- What the merge holds, whatever it is given. -/
theorem mergeDerivedCriteria_spec (existing derived : List Criterion) :
    ∃ kept added : List Criterion, mergeDerivedCriteria existing derived = kept ++ added ∧
      (∀ c ∈ kept, c ∈ usersOf existing) ∧ added.Sublist derived ∧ (added.map Criterion.text).Nodup ∧
      ((kept ++ added).map Criterion.id).Nodup := by
  obtain ⟨kept, hkept, husers, hnodup, -⟩ := foldl_keepUser_spec (usersOf existing) [] List.nodup_nil
  obtain ⟨added, hadded, hsub, hids, htexts, hnew⟩ := foldl_addDerived_spec derived kept
  rw [List.nil_append] at hkept hnodup
  refine ⟨kept, added, ?_, husers, hsub, htexts, ?_⟩
  · show derived.foldl addDerived ((usersOf existing).foldl keepUser []) = _
    rw [hkept, hadded]
  · rw [List.map_append]
    refine List.Nodup.append hnodup hids fun id hid hid' => ?_
    obtain ⟨d, hd, rfl⟩ := List.mem_map.mp hid'
    exact (hnew d hd).1 hid

/-! ## Validation and entries -/

section Rows

variable {Attachment Contract : Type} (outside : Outside Attachment Contract)

/-- The bounds and the id of a criterion. -/
def Valid (c : Criterion) : Prop := c.validate outside.blake3 = .ok ()

/-- The JSON reader gives back the envelope that was written. -/
def ReadsBack (c : Criterion) : Prop := outside.fromStr (String.ofList c.envelope.json) = some c.envelope

theorem bind_eq_ok {A B : Type} {x : Except TaskError A} {f : A → Except TaskError B} {b : B} :
    (x >>= f) = .ok b ↔ ∃ a, x = .ok a ∧ f a = .ok b := by
  cases x with
  | error e => simp [bind, Except.bind]
  | ok a => simp [bind, Except.bind]

variable {outside} in
variable {c : Criterion}

theorem Valid.bounds (h : Valid outside c) : byteLen c.encode ≤ maxTaskCriterionBytes := by
  unfold Valid Criterion.validate at h
  dsimp only at h
  rcases ite_eq_iff.mp h with ⟨-, h⟩ | ⟨-, h⟩
  · cases h
  rcases ite_eq_iff.mp h with ⟨-, h⟩ | ⟨-, h⟩
  · cases h
  rcases ite_eq_iff.mp h with ⟨-, h⟩ | ⟨-, h⟩
  · cases h
  rcases ite_eq_iff.mp h with ⟨-, h⟩ | ⟨-, h⟩
  · cases h
  rcases ite_eq_iff.mp h with ⟨-, h⟩ | ⟨hle, -⟩
  · cases h
  exact not_lt.mp hle

variable {outside} in
theorem encodedEntry_value (h : byteLen c.encode ≤ maxTaskCriterionBytes) :
    c.encodedEntry.value = String.ofList c.encode := by
  rw [Criterion.encodedEntry, dif_pos h]

/-- What is written is read back. -/
theorem decode_encodedEntry (hbounds : byteLen c.encode ≤ maxTaskCriterionBytes)
    (hreads : ReadsBack outside c) : Criterion.decode outside.fromStr c.encodedEntry = some c := by
  have hchars : c.encodedEntry.value.toList = criterionV2Marker ++ c.envelope.json := by
    rw [encodedEntry_value hbounds, String.toList_ofList, Criterion.encode]
  have hlead : criterionV2Marker.isPrefixOf c.encodedEntry.value.toList = true := by
    rw [hchars]
    exact List.isPrefixOf_iff_prefix.mpr (List.prefix_append _ _)
  obtain ⟨json, hjson, hvalue⟩ : ∃ json, stripStr criterionV2Marker c.encodedEntry = some json ∧
      json.value.toList = c.envelope.json := by
    rw [stripStr, if_pos hlead]
    refine ⟨_, rfl, ?_⟩
    rw [Str.part, String.toList_ofList, hchars, List.drop_left]
  have hvalue' : json.value = String.ofList c.envelope.json := by
    rw [← hvalue, String.ofList_toList]
  unfold ReadsBack at hreads
  simp only [Criterion.decode, hjson, hvalue', hreads, Option.bind_eq_bind, Option.bind_some]
  exact if_neg (not_not_intro rfl)

variable {l : List Criterion}

theorem decodeCriteria_encodeCriteria (hvalid : ∀ c ∈ l, Valid outside c)
    (hreads : ∀ c ∈ l, ReadsBack outside c) : decodeCriteria outside (encodeCriteria l) = l := by
  have hentry : ∀ c ∈ l, (Criterion.decode outside.fromStr c.encodedEntry).getD
      (Criterion.legacy outside.blake3 c.encodedEntry) = id c := by
    intro c hc
    rw [decode_encodedEntry outside (hvalid c hc).bounds (hreads c hc), Option.getD_some, id]
  have hmap := List.map_congr_left hentry
  rw [List.map_id] at hmap
  simp only [decodeCriteria, encodeCriteria, List.map_map, Function.comp_def]
  exact hmap

theorem validateEach_ok_iff (ids : List CriterionId) (l : List Criterion) :
    validateEach outside ids l = .ok () ↔
      (∀ c ∈ l, Valid outside c) ∧ (l.map Criterion.id).Nodup ∧ ∀ c ∈ l, c.id ∉ ids := by
  induction l generalizing ids with
  | nil => simp [validateEach]
  | cons c l ih =>
    rw [validateEach, bind_eq_ok, List.forall_mem_cons, List.forall_mem_cons, List.map_cons, List.nodup_cons]
    constructor
    · rintro ⟨_, hc, h⟩
      rcases ite_eq_iff.mp h with ⟨-, h⟩ | ⟨hnot, h⟩
      · cases h
      obtain ⟨hvalid, hnodup, hnew⟩ := (ih (c.id :: ids)).mp h
      simp only [List.mem_cons, not_or] at hnew
      refine ⟨⟨hc, hvalid⟩, ⟨fun hmem => ?_, hnodup⟩, hnot, fun d hd => (hnew d hd).2⟩
      obtain ⟨d, hd, heq⟩ := List.mem_map.mp hmem
      exact (hnew d hd).1 heq
    · rintro ⟨⟨hc, hvalid⟩, ⟨hcl, hnodup⟩, hnot, hnew⟩
      refine ⟨(), hc, ?_⟩
      rw [if_neg hnot, ih]
      refine ⟨hvalid, hnodup, fun d hd => ?_⟩
      rw [List.mem_cons, not_or]
      exact ⟨fun heq => hcl (heq ▸ List.mem_map_of_mem hd), hnew d hd⟩

theorem validateCriteria_ok_iff (l : List Criterion) :
    validateCriteria outside l = .ok () ↔
      l.length ≤ maxTaskCriteria ∧ (∀ c ∈ l, Valid outside c) ∧ (l.map Criterion.id).Nodup := by
  rw [validateCriteria]
  by_cases h : maxTaskCriteria < l.length
  · rw [if_pos h]
    refine iff_of_false (by simp) ?_
    rintro ⟨hle, -⟩
    omega
  · rw [if_neg h, validateEach_ok_iff]
    simp [not_lt.mp h]

/-- The entries of valid criteria are valid. -/
theorem validateEntries_encodeCriteria (ids : List CriterionId) (hvalid : ∀ c ∈ l, Valid outside c)
    (hreads : ∀ c ∈ l, ReadsBack outside c) (hnodup : (l.map Criterion.id).Nodup)
    (hnew : ∀ c ∈ l, c.id ∉ ids) :
    validateEntries outside ids (encodeCriteria l) = .ok () := by
  induction l generalizing ids with
  | nil => rfl
  | cons c l ih =>
    obtain ⟨hc, hvalid⟩ := List.forall_mem_cons.mp hvalid
    obtain ⟨hrc, hreads⟩ := List.forall_mem_cons.mp hreads
    obtain ⟨hnc, hnew⟩ := List.forall_mem_cons.mp hnew
    obtain ⟨hcl, hnodup⟩ := List.nodup_cons.mp hnodup
    have hbounds := hc.bounds
    have hentry : ¬ maxTaskCriterionBytes < c.encodedEntry.value.utf8ByteSize := by
      rw [encodedEntry_value hbounds, utf8ByteSize_ofList]
      exact not_lt.mpr hbounds
    rw [encodeCriteria, List.map_cons, validateEntries, if_neg hentry,
      decode_encodedEntry outside hbounds hrc]
    refine bind_eq_ok.mpr ⟨(), hc, ?_⟩
    rw [if_neg hnc]
    refine ih (c.id :: ids) hvalid hreads hnodup fun d hd => ?_
    rw [List.mem_cons, not_or]
    exact ⟨fun heq => hcl (heq ▸ List.mem_map_of_mem hd), hnew d hd⟩

/-- The typed entries of a valid row are valid. -/
theorem valid_of_validateEntries (ids : List CriterionId) {entries : List Str}
    (h : validateEntries outside ids entries = .ok ()) :
    ∀ e ∈ entries, ∀ c, Criterion.decode outside.fromStr e = some c → Valid outside c := by
  induction entries generalizing ids with
  | nil => simp
  | cons entry entries ih =>
    rw [validateEntries] at h
    rcases ite_eq_iff.mp h with ⟨-, h⟩ | ⟨-, h⟩
    · cases h
    rw [List.forall_mem_cons]
    cases hdecode : Criterion.decode outside.fromStr entry with
    | none =>
      rw [hdecode] at h
      exact ⟨fun c hc => absurd hc (by simp), ih ids h⟩
    | some c =>
      rw [hdecode] at h
      dsimp only at h
      obtain ⟨_, hc, h⟩ := bind_eq_ok.mp h
      rcases ite_eq_iff.mp h with ⟨-, h⟩ | ⟨-, h⟩
      · cases h
      refine ⟨fun d hd => ?_, ih _ h⟩
      rw [← Option.some.inj hd]
      exact hc

variable {t : Task Attachment Contract}

/-- A valid task with other entries. -/
theorem validateTaskFields_entries (h : validateTaskFields outside t = .ok ()) (entries : List Str) :
    validateTaskFields outside { t with acceptanceCriteria := entries } = .ok () ↔
      entries.length ≤ maxTaskCriteria ∧ validateEntries outside [] entries = .ok () := by
  unfold validateTaskFields at h ⊢
  rcases ite_eq_iff.mp h with ⟨-, h⟩ | ⟨hgoal, h⟩
  · cases h
  rcases ite_eq_iff.mp h with ⟨-, h⟩ | ⟨-, h⟩
  · cases h
  obtain ⟨_, -, hrest⟩ := bind_eq_ok.mp h
  rw [if_neg hgoal]
  by_cases hlength : maxTaskCriteria < entries.length
  · rw [if_pos hlength]
    refine iff_of_false (by simp) ?_
    rintro ⟨hle, -⟩
    omega
  · rw [if_neg hlength, bind_eq_ok]
    constructor
    · rintro ⟨_, hentries, -⟩
      exact ⟨not_lt.mp hlength, hentries⟩
    · rintro ⟨-, hentries⟩
      exact ⟨(), hentries, hrest⟩

theorem entries_of_validateTaskFields (h : validateTaskFields outside t = .ok ()) :
    validateEntries outside [] t.acceptanceCriteria = .ok () :=
  ((validateTaskFields_entries outside h t.acceptanceCriteria).mp h).2

/-! ## The user criteria of a row -/

/-- An entry of older builds that states a goal. -/
def IsGoal (entry : Str) : Prop :=
  Criterion.decode outside.fromStr entry = none ∧ "goal: ".toList.isPrefixOf entry.value.toList = true

/-- The goal of an older build is a valid criterion when it fits. -/
theorem valid_legacy_iff {entry : Str} (hgoal : "goal: ".toList.isPrefixOf entry.value.toList = true) :
    Valid outside (Criterion.legacy outside.blake3 entry) ↔
      entry.value.utf8ByteSize ≤ maxTaskCriterionTextBytes ∧
        byteLen (Criterion.legacy outside.blake3 entry).encode ≤ maxTaskCriterionBytes := by
  have hlegacy : Criterion.legacy outside.blake3 entry =
      ⟨CriterionId.forContent outside.blake3 .user .required entry none, entry, .user, .required, none, none,
        some .aggregateGoal⟩ := by
    rw [Criterion.legacy, legacyBinding]
    simp only [hgoal, if_true]
  rw [Valid, Criterion.validate, hlegacy]
  simp only [Option.elim_some, Option.elim_none, violations, ne_eq, not_true_eq_false, if_false, false_and,
    Nat.not_lt_zero]
  by_cases htext : maxTaskCriterionTextBytes < entry.value.utf8ByteSize
  · rw [if_pos htext]
    refine iff_of_false (by simp) ?_
    rintro ⟨hle, -⟩
    omega
  · rw [if_neg htext]
    simp [not_lt.mp htext]

/-- The user criteria of a row. -/
def rowUsers (row : TaskRow Attachment Contract) : List Criterion :=
  usersOf (decodeCriteria outside row.task.acceptanceCriteria)

variable {row : TaskRow Attachment Contract}

theorem mem_rowUsers {u : Criterion} :
    u ∈ rowUsers outside row ↔ ∃ entry ∈ row.task.acceptanceCriteria,
      (Criterion.decode outside.fromStr entry).getD (Criterion.legacy outside.blake3 entry) = u ∧
        u.origin.isUser = true := by
  rw [rowUsers, mem_usersOf, decodeCriteria, List.mem_map]
  constructor
  · rintro ⟨⟨entry, hentry, heq⟩, huser⟩
    exact ⟨entry, hentry, heq, huser⟩
  · rintro ⟨entry, hentry, heq, huser⟩
    exact ⟨⟨entry, hentry, heq⟩, huser⟩

/-- The user criteria of a valid row are valid when its goals fit. -/
theorem valid_rowUsers_iff (hfields : validateTaskFields outside row.task = .ok ()) :
    (∀ u ∈ rowUsers outside row, Valid outside u) ↔
      ∀ entry ∈ row.task.acceptanceCriteria, IsGoal outside entry →
        entry.value.utf8ByteSize ≤ maxTaskCriterionTextBytes ∧
          byteLen (Criterion.legacy outside.blake3 entry).encode ≤ maxTaskCriterionBytes := by
  constructor
  · rintro h entry hentry ⟨hnone, hgoal⟩
    refine (valid_legacy_iff outside hgoal).mp (h _ ((mem_rowUsers outside).mpr ⟨entry, hentry, ?_, ?_⟩))
    · rw [hnone, Option.getD_none]
    · rw [Criterion.legacy]
      simp only [hgoal, if_true]
      rfl
  · intro h u hu
    obtain ⟨entry, hentry, heq, huser⟩ := (mem_rowUsers outside).mp hu
    cases hdecode : Criterion.decode outside.fromStr entry with
    | some c =>
      rw [hdecode, Option.getD_some] at heq
      rw [← heq]
      exact valid_of_validateEntries outside [] (entries_of_validateTaskFields outside hfields) entry hentry c hdecode
    | none =>
      rw [hdecode, Option.getD_none] at heq
      have hgoal : "goal: ".toList.isPrefixOf entry.value.toList = true := by
        by_contra hnot
        rw [← heq, Criterion.legacy, if_neg hnot] at huser
        cases huser
      rw [← heq]
      exact (valid_legacy_iff outside hgoal).mpr (h entry hentry ⟨hdecode, hgoal⟩)

/-- A list stands in the order of a property when nothing with it follows something without. -/
theorem filter_append_filter_not_eq_iff {A : Type} (p : A → Bool) (l : List A) :
    l.filter p ++ l.filter (fun a => !p a) = l ↔ l.Pairwise fun a b => p b = true → p a = true := by
  induction l with
  | nil => simp
  | cons a l ih =>
    rw [List.pairwise_cons]
    by_cases ha : p a = true
    · rw [List.filter_cons_of_pos ha, List.filter_cons_of_neg (by simp [ha]), List.cons_append,
        List.cons.injEq, ih]
      simp [ha]
    · rw [List.filter_cons_of_neg ha, List.filter_cons_of_pos (by simp [ha])]
      constructor
      · intro h
        have hnone : ∀ b ∈ l, p b ≠ true := by
          intro b hb hpb
          have hmem : b ∈ l.filter p := List.mem_filter.mpr ⟨hb, hpb⟩
          cases hl : l.filter p with
          | nil =>
            rw [hl] at hmem
            cases hmem
          | cons x rest =>
            rw [hl, List.cons_append] at h
            have hx : x ∈ l.filter p := hl ▸ List.mem_cons_self
            exact ha ((List.cons.inj h).1 ▸ (List.mem_filter.mp hx).2)
        have hfilter : l.filter p = [] := List.filter_eq_nil_iff.mpr hnone
        rw [hfilter, List.nil_append, List.cons.injEq] at h
        refine ⟨fun b hb hpb => absurd hpb (hnone b hb), ih.mp ?_⟩
        rw [hfilter, List.nil_append]
        exact h.2
      · rintro ⟨hfirst, hrest⟩
        have hfilter : l.filter p = [] :=
          List.filter_eq_nil_iff.mpr fun b hb hpb => ha (hfirst b hb hpb)
        have hl := ih.mpr hrest
        rw [hfilter, List.nil_append] at hl
        rw [hfilter, List.nil_append, hl]

variable {derived : List Criterion}

/-- **The merge again**: the derived user criteria come before the other derived ones. -/
theorem mergeDerivedCriteria_again {users : List Criterion} (husers : ∀ u ∈ users, u.origin.isUser = true)
    (hids : (derived.map Criterion.id).Nodup) (htexts : ((freshOf users derived).map Criterion.text).Nodup)
    (hnodup : ((keepFirst [] users ++ freshOf users derived).map Criterion.id).Nodup) :
    mergeDerivedCriteria (keepFirst [] users ++ freshOf users derived) derived =
      keepFirst [] users ++ ((freshOf users derived).filter (fun c => c.origin.isUser) ++
        (freshOf users derived).filter fun c => !c.origin.isUser) := by
  set fresh := freshOf users derived with hfresh
  have hkept : usersOf (keepFirst [] users) = keepFirst [] users :=
    List.filter_eq_self.mpr fun u hu => husers u (mem_keepFirst.mp hu).1
  have husersOf : usersOf (keepFirst [] users ++ fresh) =
      keepFirst [] users ++ fresh.filter fun c => c.origin.isUser := by
    rw [usersOf, List.filter_append]
    exact congrArg (· ++ _) hkept
  have hdistinct : ((usersOf (keepFirst [] users ++ fresh)).map Criterion.id).Nodup :=
    hnodup.sublist (List.filter_sublist.map _)
  have hmem : ∀ {B : Type} (f : Criterion → B) (b : B), b ∈ (keepFirst [] users).map f ↔ b ∈ users.map f := by
    intro B f b
    simp only [List.mem_map, mem_keepFirst, List.not_mem_nil, not_false_eq_true, and_true]
  -- what is still fresh: the fresh criteria of no user
  have hagain : freshOf (usersOf (keepFirst [] users ++ fresh)) derived =
      fresh.filter fun c => !c.origin.isUser := by
    rw [husersOf, freshOf]
    conv_rhs => rw [hfresh, freshOf, List.filter_filter]
    refine List.filter_congr fun d hd => ?_
    rw [Bool.eq_iff_iff, decide_eq_true_iff, Bool.and_eq_true, decide_eq_true_iff, Bool.not_eq_true',
      List.map_append, List.map_append, List.mem_append, List.mem_append, hmem, hmem, not_or, not_or]
    constructor
    · rintro ⟨⟨hid, hid'⟩, htext, -⟩
      refine ⟨?_, hid, htext⟩
      by_contra huser
      refine hid' (List.mem_map_of_mem (List.mem_filter.mpr ⟨mem_freshOf.mpr ⟨hd, hid, htext⟩, ?_⟩))
      simpa using huser
    · rintro ⟨huser, hid, htext⟩
      have hdfresh : d ∈ fresh := mem_freshOf.mpr ⟨hd, hid, htext⟩
      refine ⟨⟨hid, fun hmem' => ?_⟩, htext, fun hmem' => ?_⟩
      · obtain ⟨e, he, heq⟩ := List.mem_map.mp hmem'
        obtain ⟨hef, heu⟩ := List.mem_filter.mp he
        rw [List.inj_on_of_nodup_map hids (mem_freshOf.mp hef).1 hd heq, huser] at heu
        cases heu
      · obtain ⟨e, he, heq⟩ := List.mem_map.mp hmem'
        obtain ⟨hef, heu⟩ := List.mem_filter.mp he
        rw [List.inj_on_of_nodup_map htexts hef hdfresh heq, huser] at heu
        cases heu
  rw [mergeDerivedCriteria_eq (fun c hc d hd heq => List.inj_on_of_nodup_map hdistinct hc hd heq) hids ?_,
    keepFirst_eq_self hdistinct.of_map (by simp), hagain, husersOf, List.append_assoc]
  rw [hagain]
  exact htexts.sublist (List.filter_sublist.map _)

/-! ## The rows -/

variable [DecidableEq Attachment] [DecidableEq Contract]

/-- The row after its entries were replaced at a time. -/
def replaced (row : TaskRow Attachment Contract) (entries : List Str) (now : ℤ) : TaskRow Attachment Contract :=
  { task := { row.task with acceptanceCriteria := entries, updatedMs := now }, revision := row.revision + 1 }

variable {rows rows' : Rows Attachment Contract} {id : TaskId} {task' : Task Attachment Contract}
  {criteria : List Criterion} {now : ℤ}

/-- **What `set_task_criteria` does** to a valid row that is not terminal: nothing where the entries stay, and
otherwise one revision more. -/
theorem setTaskCriteria_ok_iff (hid : id ≠ 0) (hrow : rows id = some row)
    (hterminal : row.task.state.isTerminal = false) (hfields : validateTaskFields outside row.task = .ok ())
    (hlength : criteria.length ≤ maxTaskCriteria) (hreads : ∀ c ∈ criteria, ReadsBack outside c) :
    setTaskCriteria outside rows id criteria now = .ok (rows', task') ↔
      ((∀ c ∈ criteria, Valid outside c) ∧ (criteria.map Criterion.id).Nodup) ∧
      ((encodeCriteria criteria = row.task.acceptanceCriteria ∧ rows' = rows ∧ task' = row.task) ∨
        (encodeCriteria criteria ≠ row.task.acceptanceCriteria ∧ row.revision + 1 < 2 ^ 64 ∧
          rows' = Function.update rows id (some (replaced row (encodeCriteria criteria) now)) ∧
          task' = (replaced row (encodeCriteria criteria) now).task)) := by
  rw [setTaskCriteria, if_neg hid, bind_eq_ok]
  have hunit : (∃ a, validateCriteria outside criteria = .ok a ∧
      updateTask outside rows id { acceptanceCriteria := some (encodeCriteria criteria) } now = .ok (rows', task')) ↔
      validateCriteria outside criteria = .ok () ∧
      updateTask outside rows id { acceptanceCriteria := some (encodeCriteria criteria) } now = .ok (rows', task') := by
    constructor
    · rintro ⟨_, hv, hu⟩
      exact ⟨hv, hu⟩
    · rintro ⟨hv, hu⟩
      exact ⟨(), hv, hu⟩
  rw [hunit, validateCriteria_ok_iff]
  simp only [hlength, true_and]
  refine and_congr_right fun hvalid => ?_
  -- the entries are valid, so that the update comes to its comparison
  have hnext : validateTaskFields outside { row.task with acceptanceCriteria := encodeCriteria criteria } = .ok () := by
    refine (validateTaskFields_entries outside hfields _).mpr ⟨?_, ?_⟩
    · rw [encodeCriteria, List.length_map]
      exact hlength
    · exact validateEntries_encodeCriteria outside [] hvalid.1 hreads hvalid.2 (by simp)
  have hsame : ({ row.task with acceptanceCriteria := encodeCriteria criteria } : Task Attachment Contract) =
      row.task ↔ encodeCriteria criteria = row.task.acceptanceCriteria := by
    constructor
    · intro h
      exact congrArg Task.acceptanceCriteria h
    · intro h
      rw [h]
  rw [updateTask, if_neg hid, hrow]
  show (do
    validateTaskFields outside { row.task with acceptanceCriteria := encodeCriteria criteria }
    if ({ row.task with acceptanceCriteria := encodeCriteria criteria } : Task Attachment Contract) = row.task then
      .ok (rows, row.task)
    else if row.task.state.isTerminal then .error (.terminalTask id row.task.state)
    else
      _) = Except.ok (rows', task') ↔ _
  rw [hnext]
  show (if ({ row.task with acceptanceCriteria := encodeCriteria criteria } : Task Attachment Contract) = row.task then
      _ else _) = _ ↔ _
  by_cases hentries : encodeCriteria criteria = row.task.acceptanceCriteria
  · rw [if_pos (hsame.mpr hentries)]
    constructor
    · intro h
      obtain ⟨rfl, rfl⟩ := Prod.mk.inj (Except.ok.inj h)
      exact Or.inl ⟨hentries, rfl, rfl⟩
    · rintro (⟨-, rfl, rfl⟩ | ⟨hne, -⟩)
      · rfl
      · exact absurd hentries hne
  · rw [if_neg (fun h => hentries (hsame.mp h)), hterminal, if_neg (by decide), checkedNext]
    by_cases hrevision : row.revision + 1 < 2 ^ 64
    · rw [if_pos hrevision]
      constructor
      · intro h
        obtain ⟨rfl, rfl⟩ := Prod.mk.inj (Except.ok.inj h)
        exact Or.inr ⟨hentries, hrevision, rfl, rfl⟩
      · rintro (⟨heq, -⟩ | ⟨-, -, rfl, rfl⟩)
        · exact absurd heq hentries
        · rfl
    · rw [if_neg hrevision]
      refine iff_of_false (by simp) ?_
      rintro (⟨heq, -⟩ | ⟨-, hlt, -⟩)
      · exact hentries heq
      · exact hrevision hlt

/-! ## When a re-derivation keeps its rules -/

/-- **A re-derivation that keeps its rules**: it succeeds; the new criteria hold every user criterion of the row,
every fresh derived one and no other that is not a user's; and a second run changes nothing, whenever it is. -/
def Rederives (rows : Rows Attachment Contract) (id : TaskId) (row : TaskRow Attachment Contract)
    (derived : List Criterion) (now : ℤ) : Prop :=
  ∃ rows' task', rederiveTaskCriteria outside rows id derived now = .ok (rows', task') ∧
    (∀ u ∈ rowUsers outside row, u ∈ decodeCriteria outside task'.acceptanceCriteria) ∧
    (∀ d ∈ freshOf (rowUsers outside row) derived, d ∈ decodeCriteria outside task'.acceptanceCriteria) ∧
    (∀ c ∈ decodeCriteria outside task'.acceptanceCriteria, c.origin.isUser = false →
      c ∈ freshOf (rowUsers outside row) derived) ∧
    ∀ later, rederiveTaskCriteria outside rows' id derived later = .ok (rows', task')

/-- What it needs: the plain goals of the row fit, its user criteria are told apart by their ids, the fresh derived
criteria have distinct texts and name the users' first, and the revision can be raised where it must. -/
structure Rederivable (row : TaskRow Attachment Contract) (derived : List Criterion) : Prop where
  goals : ∀ entry ∈ row.task.acceptanceCriteria, IsGoal outside entry →
    entry.value.utf8ByteSize ≤ maxTaskCriterionTextBytes ∧
      byteLen (Criterion.legacy outside.blake3 entry).encode ≤ maxTaskCriterionBytes
  users : ∀ u ∈ rowUsers outside row, ∀ v ∈ rowUsers outside row, u.id = v.id → u = v
  texts : ((freshOf (rowUsers outside row) derived).map Criterion.text).Nodup
  order : (freshOf (rowUsers outside row) derived).Pairwise fun c d =>
    d.origin.isUser = true → c.origin.isUser = true
  revision : row.revision + 1 < 2 ^ 64 ∨
    encodeCriteria (keepFirst [] (rowUsers outside row) ++ freshOf (rowUsers outside row) derived) =
      row.task.acceptanceCriteria

/-- What the row of a task is after its criteria were set. -/
theorem row_after_set (hid : id ≠ 0) (hrow : rows id = some row)
    (hterminal : row.task.state.isTerminal = false) (hfields : validateTaskFields outside row.task = .ok ())
    (hlength : criteria.length ≤ maxTaskCriteria) (hreads : ∀ c ∈ criteria, ReadsBack outside c)
    (h : setTaskCriteria outside rows id criteria now = .ok (rows', task')) :
    ∃ row', rows' id = some row' ∧ row'.task = task' ∧ task'.acceptanceCriteria = encodeCriteria criteria ∧
      row'.task.state.isTerminal = false ∧ validateTaskFields outside row'.task = .ok () := by
  obtain ⟨hvalid, ⟨hentries, rfl, rfl⟩ | ⟨-, -, rfl, rfl⟩⟩ :=
    (setTaskCriteria_ok_iff outside hid hrow hterminal hfields hlength hreads).mp h
  · exact ⟨row, hrow, rfl, hentries.symm, hterminal, hfields⟩
  · refine ⟨_, Function.update_self .., rfl, rfl, hterminal, ?_⟩
    refine (validateTaskFields_entries outside hfields _).mpr ⟨?_, ?_⟩
    · show (criteria.map Criterion.encodedEntry).length ≤ maxTaskCriteria
      rw [List.length_map]
      exact hlength
    · exact validateEntries_encodeCriteria outside [] hvalid.1 hreads hvalid.2 (by simp)

theorem rederiveTaskCriteria_eq (hid : id ≠ 0) (hrow : rows id = some row)
    (hderived : validateCriteria outside derived = .ok ()) (now : ℤ) :
    rederiveTaskCriteria outside rows id derived now = setTaskCriteria outside rows id
      (mergeDerivedCriteria (decodeCriteria outside row.task.acceptanceCriteria) derived) now := by
  rw [rederiveTaskCriteria, if_neg hid, hderived, hrow]
  rfl

/-- **When a re-derivation keeps its rules.** -/
theorem rederive_iff {rows : Rows Attachment Contract} {id : TaskId} {row : TaskRow Attachment Contract}
    {derived : List Criterion} (now : ℤ) (hid : id ≠ 0) (hrow : rows id = some row)
    (hterminal : row.task.state.isTerminal = false) (hfields : validateTaskFields outside row.task = .ok ())
    (hderived : validateCriteria outside derived = .ok ())
    (hlength : (mergeDerivedCriteria (decodeCriteria outside row.task.acceptanceCriteria) derived).length ≤
      maxTaskCriteria)
    (hreads : ∀ c ∈ rowUsers outside row ++ derived, ReadsBack outside c) :
    Rederives outside rows id row derived now ↔ Rederivable outside row derived := by
  set existing := decodeCriteria outside row.task.acceptanceCriteria with hexisting
  set merged := mergeDerivedCriteria existing derived with hmerged
  have husers : rowUsers outside row = usersOf existing := rfl
  obtain ⟨hderivedLength, hderivedValid, hderivedIds⟩ := (validateCriteria_ok_iff outside derived).mp hderived
  obtain ⟨kept, added, heq, hkept, hadded, haddedTexts, hmergedIds⟩ := mergeDerivedCriteria_spec existing derived
  rw [← hmerged] at heq
  rw [← heq] at hmergedIds
  have hmergedMem : ∀ c ∈ merged, c ∈ rowUsers outside row ++ derived := by
    intro c hc
    rw [heq] at hc
    exact (List.mem_append.mp hc).elim (fun hc => List.mem_append_left _ (hkept c hc))
      fun hc => List.mem_append_right _ (hadded.subset hc)
  have hmergedReads : ∀ c ∈ merged, ReadsBack outside c := fun c hc => hreads c (hmergedMem c hc)
  -- the merge of a row whose criteria are told apart, and the merge once more
  have hagain : Rederivable outside row derived ∨
      ((∀ u ∈ usersOf existing, ∀ v ∈ usersOf existing, u.id = v.id → u = v) ∧
        ((freshOf (usersOf existing) derived).map Criterion.text).Nodup) →
      merged = keepFirst [] (usersOf existing) ++ freshOf (usersOf existing) derived ∧
        mergeDerivedCriteria merged derived = keepFirst [] (usersOf existing) ++
          ((freshOf (usersOf existing) derived).filter (fun c => c.origin.isUser) ++
            (freshOf (usersOf existing) derived).filter fun c => !c.origin.isUser) := by
    intro h
    have hsame : ∀ u ∈ usersOf existing, ∀ v ∈ usersOf existing, u.id = v.id → u = v :=
      h.elim (fun h => h.users) fun h => h.1
    have htexts : ((freshOf (usersOf existing) derived).map Criterion.text).Nodup :=
      h.elim (fun h => h.texts) fun h => h.2
    have hfirst := mergeDerivedCriteria_eq hsame hderivedIds htexts
    rw [← hmerged] at hfirst
    refine ⟨hfirst, ?_⟩
    rw [hfirst] at hmergedIds ⊢
    exact mergeDerivedCriteria_again (fun u hu => (mem_usersOf.mp hu).2) hderivedIds htexts hmergedIds
  constructor
  · rintro ⟨rows', task', hrun, hholdsUsers, hholdsFresh, -, hrerun⟩
    rw [rederiveTaskCriteria_eq outside hid hrow hderived] at hrun
    obtain ⟨⟨hvalid, -⟩, hcases⟩ :=
      (setTaskCriteria_ok_iff outside hid hrow hterminal hfields hlength hmergedReads).mp hrun
    obtain ⟨row', hrow', hrowTask, hentries, hterminal', hfields'⟩ :=
      row_after_set outside hid hrow hterminal hfields hlength hmergedReads hrun
    rw [hentries, decodeCriteria_encodeCriteria outside hvalid hmergedReads] at hholdsUsers hholdsFresh
    have hsame : ∀ u ∈ usersOf existing, ∀ v ∈ usersOf existing, u.id = v.id → u = v := fun u hu v hv h =>
      List.inj_on_of_nodup_map hmergedIds (hholdsUsers u hu) (hholdsUsers v hv) h
    -- a fresh criterion is held because it joined
    have hjoined : ∀ d ∈ freshOf (usersOf existing) derived, d ∈ added := by
      intro d hd
      have hd' := hholdsFresh d hd
      rw [heq] at hd'
      exact (List.mem_append.mp hd').resolve_left fun hk =>
        (mem_freshOf.mp hd).2.1 (List.mem_map_of_mem (hkept d hk))
    have htexts : ((freshOf (usersOf existing) derived).map Criterion.text).Nodup := by
      refine List.Nodup.map_on (fun c hc d hd h => ?_) (hderivedIds.of_map.filter _)
      exact List.inj_on_of_nodup_map haddedTexts (hjoined c hc) (hjoined d hd) h
    obtain ⟨hfirst, hsecond⟩ := hagain (Or.inr ⟨hsame, htexts⟩)
    refine ⟨(valid_rowUsers_iff outside hfields).mp fun u hu => hvalid u (hholdsUsers u hu), hsame, htexts, ?_, ?_⟩
    · have hrerun' := hrerun now
      rw [rederiveTaskCriteria_eq outside hid hrow' hderived, hrowTask, hentries,
        decodeCriteria_encodeCriteria outside hvalid hmergedReads] at hrerun'
      have hperm : (mergeDerivedCriteria merged derived).Perm merged := by
        rw [hsecond, hfirst]
        exact (List.filter_append_perm _ _).append_left _
      have hreads' : ∀ c ∈ mergeDerivedCriteria merged derived, ReadsBack outside c := fun c hc =>
        hmergedReads c (hperm.mem_iff.mp hc)
      obtain ⟨⟨hvalid', -⟩, ⟨hstays, -, -⟩ | ⟨-, -, hrows, -⟩⟩ := (setTaskCriteria_ok_iff outside hid hrow'
        hterminal' hfields' (hperm.length_eq.trans_le hlength) hreads').mp hrerun'
      · rw [hrowTask, hentries] at hstays
        have hstays' := congrArg (decodeCriteria outside) hstays
        rw [decodeCriteria_encodeCriteria outside hvalid' hreads',
          decodeCriteria_encodeCriteria outside hvalid hmergedReads, hsecond, hfirst] at hstays'
        exact (filter_append_filter_not_eq_iff _ _).mp (List.append_cancel_left hstays')
      · -- a raised revision is a change
        have hraised := congrFun hrows id
        rw [hrow', Function.update_self, Option.some.injEq] at hraised
        have hrevision : row'.revision = row'.revision + 1 := congrArg TaskRow.revision hraised
        omega
    · rcases hcases with ⟨hstays, -⟩ | ⟨-, hlt, -⟩
      · rw [hfirst] at hstays
        exact Or.inr hstays
      · exact Or.inl hlt
  · intro hok
    obtain ⟨hfirst, hsecond⟩ := hagain (Or.inl hok)
    have horder := (filter_append_filter_not_eq_iff (fun c : Criterion => c.origin.isUser)
      (freshOf (usersOf existing) derived)).mpr hok.order
    rw [horder, ← hfirst] at hsecond
    have hvalidUsers := (valid_rowUsers_iff outside hfields).mpr hok.goals
    have hvalid : ∀ c ∈ merged, Valid outside c := fun c hc =>
      (List.mem_append.mp (hmergedMem c hc)).elim (hvalidUsers c) (hderivedValid c)
    have hmem : ∀ c, c ∈ merged ↔ c ∈ usersOf existing ∨ c ∈ freshOf (usersOf existing) derived := by
      intro c
      rw [hfirst, List.mem_append, mem_keepFirst]
      simp
    obtain ⟨rows', task', hrun⟩ : ∃ rows' task', setTaskCriteria outside rows id merged now = .ok (rows', task') := by
      by_cases hstays : encodeCriteria merged = row.task.acceptanceCriteria
      · exact ⟨_, _, (setTaskCriteria_ok_iff outside hid hrow hterminal hfields hlength hmergedReads).mpr
          ⟨⟨hvalid, hmergedIds⟩, Or.inl ⟨hstays, rfl, rfl⟩⟩⟩
      · have hlt : row.revision + 1 < 2 ^ 64 := hok.revision.resolve_right fun h => hstays (hfirst.symm ▸ h)
        exact ⟨_, _, (setTaskCriteria_ok_iff outside hid hrow hterminal hfields hlength hmergedReads).mpr
          ⟨⟨hvalid, hmergedIds⟩, Or.inr ⟨hstays, hlt, rfl, rfl⟩⟩⟩
    obtain ⟨row', hrow', hrowTask, hentries, hterminal', hfields'⟩ :=
      row_after_set outside hid hrow hterminal hfields hlength hmergedReads hrun
    have hdecode : decodeCriteria outside task'.acceptanceCriteria = merged := by
      rw [hentries, decodeCriteria_encodeCriteria outside hvalid hmergedReads]
    refine ⟨rows', task', ?_, ?_, ?_, ?_, fun later => ?_⟩
    · rw [rederiveTaskCriteria_eq outside hid hrow hderived]
      exact hrun
    · rw [hdecode]
      exact fun u hu => (hmem u).mpr (Or.inl hu)
    · rw [hdecode]
      exact fun d hd => (hmem d).mpr (Or.inr hd)
    · rw [hdecode]
      intro c hc hnot
      refine ((hmem c).mp hc).resolve_left fun hu => ?_
      rw [(mem_usersOf.mp hu).2] at hnot
      cases hnot
    · rw [rederiveTaskCriteria_eq outside hid hrow' hderived, hrowTask, hdecode, hsecond]
      refine (setTaskCriteria_ok_iff outside hid hrow' hterminal' hfields' hlength hmergedReads).mpr
        ⟨⟨hvalid, hmergedIds⟩, Or.inl ⟨?_, rfl, hrowTask.symm⟩⟩
      rw [hrowTask, hentries]

end Rows

/-- "tests pass", of the project's policy. -/
def policyCriterion : Criterion :=
  ⟨⟨0xc867e24a9d1ffe99, 0x735a07ac79c90c47⟩, .lit "tests pass", .projectPolicy, .required, none, none, none⟩

/-- The same text, of the verification policy. -/
def verificationCriterion : Criterion :=
  ⟨⟨0x485da55da79e5fe7, 0x358650284e2b2ebc⟩, .lit "tests pass", .verificationPolicy, .required, none, none, none⟩

/-- The digests of the two contents. -/
def twoDigests (bytes : List UInt8) : Vector UInt8 32 :=
  if bytes = contentBytes .projectPolicy .required (.lit "tests pass") none then
    #v[0xc8, 0x67, 0xe2, 0x4a, 0x9d, 0x1f, 0xfe, 0x99, 0x73, 0x5a, 0x07, 0xac, 0x79, 0xc9, 0x0c, 0x47,
      0x94, 0x36, 0xbc, 0xa9, 0x6b, 0x81, 0x21, 0x94, 0xff, 0xaf, 0xe5, 0xdc, 0x61, 0x7f, 0x97, 0x75]
  else
    #v[0x48, 0x5d, 0xa5, 0x5d, 0xa7, 0x9e, 0x5f, 0xe7, 0x35, 0x86, 0x50, 0x28, 0x4e, 0x2b, 0x2e, 0xbc,
      0x29, 0x79, 0x94, 0xa5, 0x83, 0xf6, 0x27, 0x05, 0xca, 0x0c, 0x72, 0x13, 0x92, 0xad, 0x11, 0x34]

/-- The hash and the reader on the two criteria. -/
def twoCriteria : Outside Unit Unit where
  blake3 := twoDigests
  fromStr json := ([policyCriterion, verificationCriterion].find? fun c =>
    json = String.ofList c.envelope.json).map Criterion.envelope
  validateAttachment _ := true
  validateContract _ := true

/-- The row of a new task. -/
def newRow : TaskRow Unit Unit where
  task :=
    { taskId := 1
      sessionId := 1
      goal := .lit "fix the parser"
      acceptanceCriteria := []
      plan := []
      attachments := []
      contract := ()
      budget := ⟨none, none, 0, 0⟩
      state := .running
      createdMs := 0
      updatedMs := 0 }
  revision := 1

theorem rederive_iff_new_row : Rederives twoCriteria (fun _ => some newRow) 1 newRow [policyCriterion] 5 := by
  refine (rederive_iff twoCriteria 5 (by decide) rfl rfl (by decide +kernel) (by decide +kernel) (by decide +kernel)
    ?_).mpr ⟨?_, ?_, ?_, ?_, Or.inl (by decide)⟩
  · intro c hc
    rw [List.mem_singleton.mp hc]
    show twoCriteria.fromStr _ = _
    decide +kernel
  · exact fun entry hentry => absurd hentry List.not_mem_nil
  · exact fun u hu => absurd hu List.not_mem_nil
  · decide +kernel
  · decide +kernel

/-- Of two derived criteria of one text the second is left out, though no user criterion has the text. -/
theorem second_text_left_out :
    validateTaskFields twoCriteria newRow.task = .ok () ∧
    validateCriteria twoCriteria [policyCriterion, verificationCriterion] = .ok () ∧
    (mergeDerivedCriteria (decodeCriteria twoCriteria newRow.task.acceptanceCriteria)
      [policyCriterion, verificationCriterion]).length ≤ maxTaskCriteria ∧
    ¬ Rederives twoCriteria (fun _ => some newRow) 1 newRow [policyCriterion, verificationCriterion] 5 := by
  refine ⟨by decide +kernel, by decide +kernel, by decide +kernel, ?_⟩
  rintro ⟨rows', task', hrun, -, hfresh, -⟩
  have hresult : ((rederiveTaskCriteria twoCriteria (fun _ => some newRow) 1
      [policyCriterion, verificationCriterion] 5).map fun r =>
        decodeCriteria twoCriteria r.2.acceptanceCriteria) = .ok [policyCriterion] := by
    decide +kernel
  rw [hrun] at hresult
  have hnew : decodeCriteria twoCriteria task'.acceptanceCriteria = [policyCriterion] := Except.ok.inj hresult
  have hmem := hfresh verificationCriterion (by decide +kernel)
  rw [hnew] at hmem
  exact absurd hmem (by decide +kernel)

end TaskCriteria
