/-
# What a cancellation reaches

A walk from a token marks exactly what its live registrations lead to, and leaves the rest of the heap as it
is.  The registrations of a live token are its calls of `attach` that found it uncancelled, in their order,
for the children that are still alive: a child that is dropped takes its registrations away, so that a chain
of calls through a dropped token leads nowhere.

* `drain_spec`, `cancel_spec` : the walk;
* `Sound` : the invariant of the programs, with one lemma for each operation;
* `cancel_reaches_live_chains` : what `cancel` marks, and what the registration maps hold.
-/
import Mathlib
import Faktor.CancelTokens

namespace Cancellation

open Relation

/-! ## The heap -/

namespace Heap

variable {h : Heap} {t : Token}

theorem Live.lt_length (ht : h.Live t) : t < h.inners.length := by
  by_contra hge
  rw [Live, get, List.getD_eq_getElem?_getD, List.getElem?_eq_none (not_lt.mp hge)] at ht
  exact absurd ht (by decide)

theorem get_modify (ht : h.Live t) (f : Inner → Inner) (x : Token) :
    (h.modify t f).get x = if x = t then f (h.get t) else h.get x := by
  have hlt := ht.lt_length
  rw [get, modify, List.getD_eq_getElem?_getD, List.getElem?_modify]
  by_cases hx : x = t
  · subst hx
    rw [if_pos rfl, get, List.getD_eq_getElem?_getD, List.getElem?_eq_getElem hlt]
    simp
  · rw [if_neg hx, get, List.getD_eq_getElem?_getD]
    simp [Ne.symm hx]

@[simp] theorem length_modify (h : Heap) (t : Token) (f : Inner → Inner) :
    (h.modify t f).inners.length = h.inners.length := List.length_modify ..

end Heap

/-- The flag of a token. -/
def Cancelled (h : Heap) (t : Token) : Prop := (h.get t).cancelled = true

instance (h : Heap) (t : Token) : Decidable (Cancelled h t) := inferInstanceAs (Decidable (_ = true))

/-- The second heap is the first with more flags. -/
structure FlagsOnly (h h' : Heap) : Prop where
  length : h'.inners.length = h.inners.length
  next : h'.nextRegistrationId = h.nextRegistrationId
  get : ∀ x, h'.get x = { h.get x with cancelled := (h'.get x).cancelled }
  keeps : ∀ x, Cancelled h x → Cancelled h' x

theorem FlagsOnly.refl (h : Heap) : FlagsOnly h h := ⟨rfl, rfl, fun _ => rfl, fun _ hx => hx⟩

variable {h h' : Heap}

theorem FlagsOnly.trans {h'' : Heap} (hl : FlagsOnly h h') (hr : FlagsOnly h' h'') : FlagsOnly h h'' where
  length := hr.length.trans hl.length
  next := hr.next.trans hl.next
  get x := by rw [hr.get x, hl.get x]
  keeps x hx := hr.keeps x (hl.keeps x hx)

theorem FlagsOnly.live (hf : FlagsOnly h h') (x : Token) : h'.Live x ↔ h.Live x := by
  rw [Heap.Live, hf.get x, Heap.Live]

theorem FlagsOnly.waiters (hf : FlagsOnly h h') (x : Token) :
    (h'.get x).waiters = (h.get x).waiters := by
  rw [hf.get x]

theorem FlagsOnly.parents (hf : FlagsOnly h h') (x : Token) :
    (h'.get x).parents = (h.get x).parents := by
  rw [hf.get x]

variable {a b : Token}

theorem mem_cascade :
    b ∈ cascade h a ↔ b ∈ (h.get a).waiters.map Prod.snd ∧ h.Live b := by
  rw [cascade, List.mem_filter, decide_eq_true_iff]

theorem FlagsOnly.cascade (hf : FlagsOnly h h') (a b : Token) :
    b ∈ cascade h' a ↔ b ∈ cascade h a := by
  rw [mem_cascade, mem_cascade, hf.waiters, hf.live]

/-! ## The walk -/

variable {t : Token}

theorem drain_cons (queue : List Token) (ht : h.Live t) :
    drain h (t :: queue) =
      if (h.get t).cancelled then drain h queue else drain (mark h t) (queue ++ cascade h t) := by
  have hget : h.inners[t]? = some (h.get t) := by
    rw [Heap.get, List.getD_eq_getElem?_getD, List.getElem?_eq_getElem ht.lt_length, Option.getD_some]
  rw [drain]
  split
  · rename_i hnone
    rw [hget] at hnone
    cases hnone
  · rename_i inner hsome
    obtain rfl := Option.some.inj (hget.symm.trans hsome)
    split
    · rfl
    · rfl

theorem cancelled_mark (ht : h.Live t) (x : Token) :
    Cancelled (mark h t) x ↔ x = t ∨ Cancelled h x := by
  rw [Cancelled, mark, Heap.get_modify ht]
  by_cases hx : x = t
  · simp [hx]
  · simp [hx, Cancelled]

theorem flagsOnly_mark (ht : h.Live t) : FlagsOnly h (mark h t) where
  length := Heap.length_modify ..
  next := rfl
  get x := by
    rw [mark, Heap.get_modify ht]
    split
    · rename_i hx
      rw [hx]
    · rfl
  keeps x hx := (cancelled_mark ht x).mpr (Or.inr hx)

/-- One registration leads from a token to the other. -/
def Leads (h : Heap) (a b : Token) : Prop := b ∈ cascade h a

theorem FlagsOnly.leads (hf : FlagsOnly h h') (hab : ReflTransGen (Leads h') a b) :
    ReflTransGen (Leads h) a b :=
  ReflTransGen.mono (fun a b => (hf.cascade a b).mp) _ _ hab

/-- The cancelled tokens lead to cancelled ones. -/
def Closed (h : Heap) : Prop := ∀ a b, h.Live a → Cancelled h a → Leads h a b → Cancelled h b

/-- **The walk** marks the queue and what it leads to, and nothing else. -/
theorem drain_spec (h : Heap) (queue : List Token) (hqueue : ∀ q ∈ queue, h.Live q) :
    FlagsOnly h (drain h queue) ∧ (∀ q ∈ queue, Cancelled (drain h queue) q) ∧
      (∀ x, Cancelled (drain h queue) x → Cancelled h x ∨ ∃ q ∈ queue, ReflTransGen (Leads h) q x) ∧
      ((∀ a b, h.Live a → Cancelled h a → Leads h a b → Cancelled h b ∨ b ∈ queue) →
        Closed (drain h queue)) := by
  induction h, queue using drain.induct with
  | case1 h =>
    rw [drain]
    refine ⟨FlagsOnly.refl h, by simp, fun x hx => Or.inl hx, fun hclosed a b ha hc hab => ?_⟩
    exact (hclosed a b ha hc hab).resolve_right List.not_mem_nil
  | case2 h t queue hnone ih =>
    have hlt := (hqueue t List.mem_cons_self).lt_length
    rw [List.getElem?_eq_getElem hlt] at hnone
    cases hnone
  | case3 h t queue inner hget hc ih =>
    obtain ⟨ht, hrest⟩ := List.forall_mem_cons.mp hqueue
    have hcancelled : (h.get t).cancelled = true := by
      rw [Heap.get, List.getD_eq_getElem?_getD, hget]
      exact hc
    obtain ⟨hflags, hmarked, honly, hclosed⟩ := ih hrest
    rw [drain_cons queue ht, if_pos hcancelled]
    refine ⟨hflags, List.forall_mem_cons.mpr ⟨hflags.keeps t hcancelled, hmarked⟩, fun x hx => ?_, fun hstart => ?_⟩
    · refine (honly x hx).imp_right ?_
      rintro ⟨q, hq, hreach⟩
      exact ⟨q, List.mem_cons_of_mem _ hq, hreach⟩
    · refine hclosed fun a b ha hca hab => ?_
      rcases hstart a b ha hca hab with hb | hb
      · exact Or.inl hb
      · rcases List.mem_cons.mp hb with rfl | hb
        · exact Or.inl hcancelled
        · exact Or.inr hb
  | case4 h t queue inner hget hc hlt ih =>
    obtain ⟨ht, hrest⟩ := List.forall_mem_cons.mp hqueue
    have hfresh : ¬ (h.get t).cancelled = true := by
      rw [Heap.get, List.getD_eq_getElem?_getD, hget]
      exact hc
    have hmark := flagsOnly_mark ht
    have hlive : ∀ q ∈ queue ++ cascade h t, (mark h t).Live q := by
      intro q hq
      rw [hmark.live]
      rcases List.mem_append.mp hq with hq | hq
      · exact hrest q hq
      · exact (mem_cascade.mp hq).2
    obtain ⟨hflags, hmarked, honly, hclosed⟩ := ih hlive
    rw [drain_cons queue ht, if_neg hfresh]
    refine ⟨hmark.trans hflags, List.forall_mem_cons.mpr ⟨?_, fun q hq => ?_⟩, fun x hx => ?_, fun hstart => ?_⟩
    · exact hflags.keeps t ((cancelled_mark ht t).mpr (Or.inl rfl))
    · exact hmarked q (List.mem_append_left _ hq)
    · -- what is marked was reached from the rest of the queue or from a child of `t`
      rcases honly x hx with hx | ⟨q, hq, hreach⟩
      · rcases (cancelled_mark ht x).mp hx with rfl | hx
        · exact Or.inr ⟨x, List.mem_cons_self, ReflTransGen.refl⟩
        · exact Or.inl hx
      · have hreach' := hmark.leads hreach
        rcases List.mem_append.mp hq with hq | hq
        · exact Or.inr ⟨q, List.mem_cons_of_mem _ hq, hreach'⟩
        · exact Or.inr ⟨t, List.mem_cons_self, ReflTransGen.head hq hreach'⟩
    · refine hclosed fun a b ha hca hab => ?_
      rw [Leads, hmark.cascade] at hab
      rcases (cancelled_mark ht a).mp hca with rfl | hca
      · exact Or.inr (List.mem_append_right _ hab)
      · rcases hstart a b ((hmark.live a).mp ha) hca hab with hb | hb
        · exact Or.inl (hmark.keeps b hb)
        · rcases List.mem_cons.mp hb with rfl | hb
          · exact Or.inl ((cancelled_mark ht b).mpr (Or.inl rfl))
          · exact Or.inr (List.mem_append_left _ hb)

/-- `cancel` marks the token and what it leads to, and nothing else. -/
theorem cancel_spec (ht : h.Live t) (hstart : Closed h) :
    FlagsOnly h (cancel h t).1 ∧ Cancelled (cancel h t).1 t ∧ Closed (cancel h t).1 ∧
      ∀ x, Cancelled (cancel h t).1 x → Cancelled h x ∨ ReflTransGen (Leads h) t x := by
  rw [cancel]
  by_cases hc : (h.get t).cancelled = true
  · rw [if_pos hc]
    exact ⟨FlagsOnly.refl h, hc, hstart, fun x hx => Or.inl hx⟩
  · rw [if_neg hc]
    have hmark := flagsOnly_mark ht
    have hlive : ∀ q ∈ cascade h t, (mark h t).Live q := by
      intro q hq
      rw [hmark.live]
      exact (mem_cascade.mp hq).2
    obtain ⟨hflags, -, honly, hclosed⟩ := drain_spec (mark h t) (cascade h t) hlive
    refine ⟨hmark.trans hflags, hflags.keeps t ((cancelled_mark ht t).mpr (Or.inl rfl)), ?_, fun x hx => ?_⟩
    · refine hclosed fun a b ha hca hab => ?_
      rw [Leads, hmark.cascade] at hab
      rcases (cancelled_mark ht a).mp hca with rfl | hca
      · exact Or.inr hab
      · exact Or.inl (hmark.keeps b (hstart a b ((hmark.live a).mp ha) hca hab))
    · rcases honly x hx with hx | ⟨q, hq, hreach⟩
      · rcases (cancelled_mark ht x).mp hx with rfl | hx
        · exact Or.inr ReflTransGen.refl
        · exact Or.inl hx
      · exact Or.inr (ReflTransGen.head hq (hmark.leads hreach))

/-! ## The invariant -/

/-- The children that the calls of a parent registered and that are alive. -/
def childrenOf (h : Heap) (calls : List Call) (p : Token) : List Token :=
  (calls.filter fun call => call.parent = p ∧ call.registered = true ∧ h.Live call.child).map Call.child

/-- **The invariant of the programs**, with the calls of `attach` so far. -/
structure Sound (h : Heap) (calls : List Call) : Prop where
  callsInHeap : ∀ call ∈ calls, call.parent < h.inners.length ∧ call.child < h.inners.length
  linksInHeap : ∀ c, h.Live c → ∀ link ∈ (h.get c).parents, link.1 < h.inners.length
  ids : ∀ p, h.Live p → ∀ entry ∈ (h.get p).waiters, entry.1 < h.nextRegistrationId
  distinct : ∀ p, h.Live p → ((h.get p).waiters.map Prod.fst).Nodup
  links : ∀ p c id, h.Live p → h.Live c → ((p, id) ∈ (h.get c).parents ↔ (id, c) ∈ (h.get p).waiters)
  entries : ∀ p, h.Live p → (h.get p).waiters.map Prod.snd = childrenOf h calls p
  refused : ∀ call ∈ calls, call.registered = false → h.Live call.parent → Cancelled h call.parent
  closed : ∀ call ∈ calls, h.Live call.parent → h.Live call.child → Cancelled h call.parent →
    Cancelled h call.child

variable {calls : List Call} {p c : Token}

theorem mem_childrenOf :
    c ∈ childrenOf h calls p ↔ h.Live c ∧ ∃ call ∈ calls, call.parent = p ∧ call.registered = true ∧ call.child = c := by
  rw [childrenOf, List.mem_map]
  constructor
  · rintro ⟨call, hcall, rfl⟩
    obtain ⟨hcall, hp⟩ := List.mem_filter.mp hcall
    obtain ⟨hparent, hregistered, hlive⟩ := of_decide_eq_true hp
    exact ⟨hlive, call, hcall, hparent, hregistered, rfl⟩
  · rintro ⟨hlive, call, hcall, hparent, hregistered, rfl⟩
    exact ⟨call, List.mem_filter.mpr ⟨hcall, decide_eq_true ⟨hparent, hregistered, hlive⟩⟩, rfl⟩

theorem Sound.leads_iff (hs : Sound h calls) (ha : h.Live a) :
    Leads h a b ↔ h.Live b ∧ ∃ call ∈ calls, call.parent = a ∧ call.registered = true ∧ call.child = b := by
  rw [Leads, mem_cascade, hs.entries a ha, mem_childrenOf]
  constructor
  · exact fun hb => hb.1
  · exact fun hb => ⟨hb, hb.1⟩

theorem Sound.closed_walk (hs : Sound h calls) : Closed h := by
  intro a b ha hca hab
  obtain ⟨hb, call, hcall, rfl, -, rfl⟩ := (hs.leads_iff ha).mp hab
  exact hs.closed call hcall ha hb hca

/-- The children of a parent depend on which tokens are alive only. -/
theorem childrenOf_congr (hlive : ∀ call ∈ calls, h'.Live call.child ↔ h.Live call.child) :
    childrenOf h' calls p = childrenOf h calls p := by
  rw [childrenOf, childrenOf]
  congr 1
  exact List.filter_congr fun call hcall => by simp only [hlive call hcall]

/-- What the invariant reads: the rest of a heap does not matter. -/
theorem Sound.congr (hs : Sound h calls) (hlength : h'.inners.length = h.inners.length)
    (hnext : h.nextRegistrationId ≤ h'.nextRegistrationId)
    (hget : ∀ x, (h'.Live x ↔ h.Live x) ∧ (h'.get x).waiters = (h.get x).waiters ∧
      (h'.get x).parents = (h.get x).parents ∧ (h'.get x).cancelled = (h.get x).cancelled) :
    Sound h' calls := by
  have hcancelled : ∀ x, Cancelled h' x ↔ Cancelled h x := fun x => by rw [Cancelled, (hget x).2.2.2, Cancelled]
  constructor
  · rw [hlength]
    exact hs.callsInHeap
  · intro c hc link hlink
    rw [(hget c).2.2.1] at hlink
    rw [hlength]
    exact hs.linksInHeap c ((hget c).1.mp hc) link hlink
  · intro p hp entry hentry
    rw [(hget p).2.1] at hentry
    exact (hs.ids p ((hget p).1.mp hp) entry hentry).trans_le hnext
  · intro p hp
    rw [(hget p).2.1]
    exact hs.distinct p ((hget p).1.mp hp)
  · intro p c id hp hc
    rw [(hget p).2.1, (hget c).2.2.1]
    exact hs.links p c id ((hget p).1.mp hp) ((hget c).1.mp hc)
  · intro p hp
    rw [(hget p).2.1, childrenOf_congr fun call _ => (hget call.child).1]
    exact hs.entries p ((hget p).1.mp hp)
  · intro call hcall hr hp
    rw [hcancelled]
    exact hs.refused call hcall hr ((hget _).1.mp hp)
  · intro call hcall hp hc hca
    rw [hcancelled] at hca ⊢
    exact hs.closed call hcall ((hget _).1.mp hp) ((hget _).1.mp hc) hca

/-! ## The operations keep the invariant -/

theorem sound_empty : Sound Heap.empty [] := by
  have hlive : ∀ x, ¬ Heap.empty.Live x := fun x hx => absurd hx.lt_length (Nat.not_lt_zero x)
  exact ⟨by simp, fun c hc => absurd hc (hlive c), fun p hp => absurd hp (hlive p), fun p hp => absurd hp (hlive p),
    fun p _ _ hp => absurd hp (hlive p), fun p hp => absurd hp (hlive p), by simp, by simp⟩

theorem get_new (h : Heap) (x : Token) :
    (new h).1.get x = if x = h.inners.length then Inner.default else h.get x := by
  show (h.inners ++ [Inner.default]).getD x Inner.absent = _
  rw [List.getD_eq_getElem?_getD, Heap.get, List.getD_eq_getElem?_getD]
  by_cases hx : x < h.inners.length
  · rw [if_neg hx.ne, List.getElem?_append_left hx]
  · rw [List.getElem?_append_right (not_lt.mp hx)]
    split
    · rename_i heq
      rw [heq, Nat.sub_self]
      rfl
    · rename_i hne
      have hgt : h.inners.length < x := lt_of_le_of_ne (not_lt.mp hx) (Ne.symm hne)
      rw [List.getElem?_eq_none (Nat.sub_pos_of_lt hgt), List.getElem?_eq_none hgt.le]

variable {x : Token}

theorem live_new : (new h).1.Live x ↔ x = h.inners.length ∨ h.Live x := by
  rw [Heap.Live, get_new]
  by_cases hx : x = h.inners.length
  · simp [hx, Inner.default]
  · simp [hx, Heap.Live]

theorem Sound.new (hs : Sound h calls) : Sound (new h).1 calls := by
  have hlength : (Cancellation.new h).1.inners.length = h.inners.length + 1 := List.length_append
  have hold : ∀ {x}, x < h.inners.length → (Cancellation.new h).1.get x = h.get x := by
    intro x hx
    rw [get_new, if_neg hx.ne]
  have hlast : (Cancellation.new h).1.get h.inners.length = Inner.default := by
    rw [get_new, if_pos rfl]
  have hlive : ∀ {x}, x < h.inners.length → ((Cancellation.new h).1.Live x ↔ h.Live x) := by
    intro x hx
    rw [Heap.Live, hold hx, Heap.Live]
  have hcancelled : ∀ {x}, x < h.inners.length → (Cancelled (Cancellation.new h).1 x ↔ Cancelled h x) := by
    intro x hx
    rw [Cancelled, hold hx, Cancelled]
  refine ⟨fun call hcall => ?_, fun c hc link hlink => ?_, fun p hp entry hentry => ?_, fun p hp => ?_,
    fun p c id hp hc => ?_, fun p hp => ?_, fun call hcall hr hp => ?_, fun call hcall hp hc hca => ?_⟩
  · obtain ⟨hp, hc⟩ := hs.callsInHeap call hcall
    rw [hlength]
    exact ⟨Nat.lt_succ_of_lt hp, Nat.lt_succ_of_lt hc⟩
  · rcases live_new.mp hc with rfl | hc
    · rw [hlast] at hlink
      cases hlink
    · rw [hold hc.lt_length] at hlink
      rw [hlength]
      exact Nat.lt_succ_of_lt (hs.linksInHeap c hc link hlink)
  · rcases live_new.mp hp with rfl | hp
    · rw [hlast] at hentry
      cases hentry
    · rw [hold hp.lt_length] at hentry
      exact hs.ids p hp entry hentry
  · rcases live_new.mp hp with rfl | hp
    · rw [hlast]
      exact List.nodup_nil
    · rw [hold hp.lt_length]
      exact hs.distinct p hp
  · rcases live_new.mp hc with rfl | hc
    · -- the new token has no links, and no registration names it
      rw [hlast]
      refine iff_of_false List.not_mem_nil fun hmem => ?_
      rcases live_new.mp hp with rfl | hp
      · rw [hlast] at hmem
        cases hmem
      · rw [hold hp.lt_length] at hmem
        have hmem' : h.inners.length ∈ (h.get p).waiters.map Prod.snd := List.mem_map_of_mem hmem
        rw [hs.entries p hp] at hmem'
        exact absurd (mem_childrenOf.mp hmem').1.lt_length (lt_irrefl _)
    · rw [hold hc.lt_length]
      rcases live_new.mp hp with rfl | hp
      · rw [hlast]
        refine iff_of_false (fun hmem => ?_) List.not_mem_nil
        exact absurd (hs.linksInHeap c hc _ hmem) (lt_irrefl _)
      · rw [hold hp.lt_length]
        exact hs.links p c id hp hc
  · rw [childrenOf_congr fun call hcall => hlive (hs.callsInHeap call hcall).2]
    rcases live_new.mp hp with rfl | hp
    · have hnone : childrenOf h calls h.inners.length = [] := by
        rw [childrenOf, List.map_eq_nil_iff, List.filter_eq_nil_iff]
        intro call hcall htrue
        exact absurd (of_decide_eq_true htrue).1 (hs.callsInHeap call hcall).1.ne
      rw [hnone, hlast]
      rfl
    · rw [hold hp.lt_length]
      exact hs.entries p hp
  · obtain ⟨hlt, -⟩ := hs.callsInHeap call hcall
    rw [hcancelled hlt]
    exact hs.refused call hcall hr ((hlive hlt).mp hp)
  · obtain ⟨hlt, hlt'⟩ := hs.callsInHeap call hcall
    rw [hcancelled hlt']
    rw [hcancelled hlt] at hca
    exact hs.closed call hcall ((hlive hlt).mp hp) ((hlive hlt').mp hc) hca

theorem Sound.clone (hs : Sound h calls) (ht : h.Live t) :
    Sound (clone h t) calls := by
  refine hs.congr (Heap.length_modify ..) le_rfl fun x => ?_
  rw [Heap.Live, Cancellation.clone, Heap.get_modify ht]
  split
  · rename_i hx
    subst hx
    exact ⟨iff_of_true (Nat.succ_pos _) ht, rfl, rfl, rfl⟩
  · exact ⟨Iff.rfl, rfl, rfl, rfl⟩

theorem Sound.cancel (hs : Sound h calls) (ht : h.Live t) :
    Sound (cancel h t).1 calls := by
  obtain ⟨hflags, -, hclosed, -⟩ := cancel_spec ht hs.closed_walk
  constructor
  · rw [hflags.length]
    exact hs.callsInHeap
  · intro c hc link hlink
    rw [hflags.parents] at hlink
    rw [hflags.length]
    exact hs.linksInHeap c ((hflags.live c).mp hc) link hlink
  · intro p hp entry hentry
    rw [hflags.waiters] at hentry
    rw [hflags.next]
    exact hs.ids p ((hflags.live p).mp hp) entry hentry
  · intro p hp
    rw [hflags.waiters]
    exact hs.distinct p ((hflags.live p).mp hp)
  · intro p c id hp hc
    rw [hflags.waiters, hflags.parents]
    exact hs.links p c id ((hflags.live p).mp hp) ((hflags.live c).mp hc)
  · intro p hp
    rw [hflags.waiters, childrenOf_congr fun call _ => hflags.live call.child]
    exact hs.entries p ((hflags.live p).mp hp)
  · intro call hcall hr hp
    exact hflags.keeps _ (hs.refused call hcall hr ((hflags.live _).mp hp))
  · intro call hcall hp hc hca
    have hp' := (hflags.live _).mp hp
    have hc' := (hflags.live _).mp hc
    cases hr : call.registered with
    | true =>
      refine hclosed call.parent call.child hp hca ?_
      rw [Leads, hflags.cascade]
      exact (hs.leads_iff hp').mpr ⟨hc', call, hcall, rfl, hr, rfl⟩
    | false => exact hflags.keeps _ (hs.closed call hcall hp' hc' (hs.refused call hcall hr hp'))

theorem get_unregister (h : Heap) (link : Token × ℕ) (x : Token) :
    (unregister h link).get x = { h.get x with
      waiters := (h.get x).waiters.filter fun entry => ¬ (h.Live x ∧ (x, entry.1) = link) } := by
  rw [unregister]
  by_cases hlive : h.Live link.1
  · rw [if_pos hlive, Heap.get_modify hlive]
    split
    · rename_i hx
      subst hx
      congr 1
      refine List.filter_congr fun entry _ => ?_
      simp [hlive, Prod.ext_iff]
    · rename_i hx
      have hall : ((h.get x).waiters.filter fun entry => ¬ (h.Live x ∧ (x, entry.1) = link)) =
          (h.get x).waiters := by
        rw [List.filter_eq_self]
        intro entry _
        refine decide_eq_true fun hand => hx ?_
        rw [← hand.2]
      rw [hall]
  · rw [if_neg hlive]
    have hall : ((h.get x).waiters.filter fun entry => ¬ (h.Live x ∧ (x, entry.1) = link)) =
        (h.get x).waiters := by
      rw [List.filter_eq_self]
      intro entry _
      refine decide_eq_true fun hand => hlive ?_
      rw [← hand.2]
      exact hand.1
    rw [hall]

theorem length_unregister (h : Heap) (link : Token × ℕ) : (unregister h link).inners.length = h.inners.length := by
  rw [unregister]
  split
  · exact Heap.length_modify ..
  · rfl

theorem next_unregister (h : Heap) (link : Token × ℕ) :
    (unregister h link).nextRegistrationId = h.nextRegistrationId := by
  rw [unregister]
  split
  · rfl
  · rfl

/-- The links of a dropped token, one after another. -/
theorem foldl_unregister_spec (links : List (Token × ℕ)) (h : Heap) :
    (links.foldl unregister h).inners.length = h.inners.length ∧
      (links.foldl unregister h).nextRegistrationId = h.nextRegistrationId ∧
      ∀ x, (links.foldl unregister h).get x = { h.get x with
        waiters := (h.get x).waiters.filter fun entry => ¬ (h.Live x ∧ (x, entry.1) ∈ links) } := by
  induction links generalizing h with
  | nil =>
    refine ⟨rfl, rfl, fun x => ?_⟩
    have hall : ((h.get x).waiters.filter fun entry => ¬ (h.Live x ∧ (x, entry.1) ∈ ([] : List (Token × ℕ)))) =
        (h.get x).waiters := by
      rw [List.filter_eq_self]
      intro entry _
      simp
    rw [hall]
    rfl
  | cons link links ih =>
    obtain ⟨hlength, hnext, hget⟩ := ih (unregister h link)
    refine ⟨hlength.trans (length_unregister h link), hnext.trans (next_unregister h link), fun x => ?_⟩
    have hlive : (unregister h link).Live x ↔ h.Live x := by
      show 0 < ((unregister h link).get x).strong ↔ _
      rw [get_unregister]
      exact Iff.rfl
    have hfilter : (((h.get x).waiters.filter fun entry => ¬ (h.Live x ∧ (x, entry.1) = link)).filter
        fun entry => ¬ ((unregister h link).Live x ∧ (x, entry.1) ∈ links)) =
        (h.get x).waiters.filter fun entry => ¬ (h.Live x ∧ (x, entry.1) ∈ link :: links) := by
      rw [List.filter_filter]
      refine List.filter_congr fun entry _ => ?_
      rw [← Bool.decide_and]
      refine decide_eq_decide.mpr ?_
      rw [hlive, List.mem_cons]
      tauto
    rw [List.foldl_cons, hget, get_unregister]
    dsimp only
    rw [hfilter]

section

variable (hs : Sound h calls) (ht : h.Live t)
include hs ht

/-- A dropped token leaves nothing: no inner state of its own and no registration of it. -/
theorem dropInner_spec :
    (dropInner h t).inners.length = h.inners.length ∧
      (dropInner h t).nextRegistrationId = h.nextRegistrationId ∧
      (dropInner h t).get t = { h.get t with strong := 0, waiters := [], parents := [] } ∧
      ∀ x, x ≠ t → h.Live x → (dropInner h t).get x = { h.get x with
        waiters := (h.get x).waiters.filter fun entry => entry.2 ≠ t } := by
  obtain ⟨hlength, hnext, hget⟩ := foldl_unregister_spec (h.get t).parents
    (h.modify t fun inner => { inner with strong := 0, waiters := [], parents := [] })
  refine ⟨hlength.trans (Heap.length_modify ..), hnext, ?_, fun x hx hlive => ?_⟩
  · rw [dropInner, hget, Heap.get_modify ht, if_pos rfl]
    rfl
  · have hsame : (h.modify t fun inner => { inner with strong := 0, waiters := [], parents := [] }).get x =
        h.get x := by
      rw [Heap.get_modify ht, if_neg hx]
    have hlive' : (h.modify t fun inner => { inner with strong := 0, waiters := [], parents := [] }).Live x := by
      show 0 < (Heap.get _ x).strong
      rw [hsame]
      exact hlive
    have hfilter : ((h.get x).waiters.filter fun entry => ¬ ((h.modify t fun inner =>
        { inner with strong := 0, waiters := [], parents := [] }).Live x ∧
          (x, entry.1) ∈ (h.get t).parents)) = (h.get x).waiters.filter fun entry => entry.2 ≠ t := by
      refine List.filter_congr fun entry hentry => decide_eq_decide.mpr (not_congr ?_)
      -- the links back of `t` name exactly the registrations of `t`
      have hlink := hs.links x t entry.1 hlive ht
      constructor
      · rintro ⟨-, hmem⟩
        exact congrArg Prod.snd (List.inj_on_of_nodup_map (hs.distinct x hlive) hentry (hlink.mp hmem) rfl)
      · rintro rfl
        exact ⟨hlive', hlink.mpr hentry⟩
    rw [dropInner, hget, hsame, hfilter]

theorem live_dropInner (x : Token) :
    (dropInner h t).Live x ↔ x ≠ t ∧ h.Live x := by
  obtain ⟨-, -, hgone, -⟩ := dropInner_spec hs ht
  obtain ⟨-, -, hget⟩ := foldl_unregister_spec (h.get t).parents
    (h.modify t fun inner => { inner with strong := 0, waiters := [], parents := [] })
  show 0 < ((dropInner h t).get x).strong ↔ _
  by_cases hx : x = t
  · rw [hx, hgone]
    simp
  · rw [dropInner, hget, Heap.get_modify ht, if_neg hx]
    simp [hx, Heap.Live]

theorem Sound.dropInner :
    Sound (dropInner h t) calls := by
  obtain ⟨hlength, hnext, -, hget⟩ := dropInner_spec hs ht
  have hlive := live_dropInner hs ht
  have hcancelled : ∀ {x}, x ≠ t → h.Live x → (Cancelled (Cancellation.dropInner h t) x ↔ Cancelled h x) := by
    intro x hx hxl
    rw [Cancelled, hget x hx hxl, Cancelled]
  constructor
  · rw [hlength]
    exact hs.callsInHeap
  · intro c hc link hlink
    obtain ⟨hct, hc⟩ := (hlive c).mp hc
    rw [hget c hct hc] at hlink
    rw [hlength]
    exact hs.linksInHeap c hc link hlink
  · intro p hp entry hentry
    obtain ⟨hpt, hp⟩ := (hlive p).mp hp
    rw [hget p hpt hp] at hentry
    rw [hnext]
    exact hs.ids p hp entry (List.mem_filter.mp hentry).1
  · intro p hp
    obtain ⟨hpt, hp⟩ := (hlive p).mp hp
    rw [hget p hpt hp]
    exact (hs.distinct p hp).sublist (List.filter_sublist.map _)
  · intro p c id hp hc
    obtain ⟨hpt, hp⟩ := (hlive p).mp hp
    obtain ⟨hct, hc⟩ := (hlive c).mp hc
    rw [hget p hpt hp, hget c hct hc, List.mem_filter, hs.links p c id hp hc]
    simp [hct]
  · intro p hp
    obtain ⟨hpt, hp⟩ := (hlive p).mp hp
    have hmap : ((h.get p).waiters.filter fun entry => entry.2 ≠ t).map Prod.snd =
        ((h.get p).waiters.map Prod.snd).filter fun c => c ≠ t := by
      rw [List.filter_map]
      rfl
    rw [hget p hpt hp]
    dsimp only
    rw [hmap, hs.entries p hp, childrenOf, childrenOf, List.filter_map, List.filter_filter]
    congr 1
    refine List.filter_congr fun call _ => ?_
    simp only [Function.comp_apply, ← Bool.decide_and, hlive]
    refine decide_eq_decide.mpr ?_
    tauto
  · intro call hcall hr hp
    obtain ⟨hpt, hp⟩ := (hlive _).mp hp
    rw [hcancelled hpt hp]
    exact hs.refused call hcall hr hp
  · intro call hcall hp hc hca
    obtain ⟨hpt, hp⟩ := (hlive _).mp hp
    obtain ⟨hct, hc⟩ := (hlive _).mp hc
    rw [hcancelled hpt hp] at hca
    rw [hcancelled hct hc]
    exact hs.closed call hcall hp hc hca

theorem Sound.dropHandle :
    Sound (dropHandle h t) calls := by
  rw [Cancellation.dropHandle]
  split
  · exact hs.dropInner ht
  · rename_i hmore
    refine hs.congr (Heap.length_modify ..) le_rfl fun x => ?_
    rw [Heap.Live, Heap.get_modify ht]
    split
    · rename_i hx
      subst hx
      refine ⟨iff_of_true ?_ ht, rfl, rfl, rfl⟩
      show 0 < (h.get x).strong - 1
      omega
    · exact ⟨Iff.rfl, rfl, rfl, rfl⟩

end

/-- A call that found its parent cancelled: its child is cancelled as well. -/
theorem Sound.addRefused (hs : Sound h calls) (hp : h.Live p) (hc : h.Live c) (hcp : Cancelled h p)
    (hcc : Cancelled h c) : Sound h (calls ++ [⟨p, c, false⟩]) := by
  refine { hs with callsInHeap := ?_, entries := ?_, refused := ?_, closed := ?_ }
  · rw [List.forall_mem_append, List.forall_mem_singleton]
    exact ⟨hs.callsInHeap, hp.lt_length, hc.lt_length⟩
  · intro x hx
    rw [hs.entries x hx, childrenOf, childrenOf, List.filter_append]
    simp
  · rw [List.forall_mem_append, List.forall_mem_singleton]
    exact ⟨hs.refused, fun _ _ => hcp⟩
  · rw [List.forall_mem_append, List.forall_mem_singleton]
    exact ⟨hs.closed, fun _ _ _ => hcc⟩

theorem get_register (hp : h.Live p) (hc : h.Live c) (x : Token) :
    (register h p c).get x = { h.get x with
      waiters := (h.get x).waiters ++ if x = p then [(h.nextRegistrationId, c)] else []
      parents := (h.get x).parents ++ if x = c then [(p, h.nextRegistrationId)] else [] } := by
  have hc' : (h.modify p fun inner => { inner with waiters := inner.waiters ++ [(h.nextRegistrationId, c)] }).Live c := by
    show 0 < (Heap.get _ c).strong
    rw [Heap.get_modify hp]
    split
    · exact hp
    · exact hc
  show ((h.modify p fun inner => { inner with waiters := inner.waiters ++ [(h.nextRegistrationId, c)] }).modify c
    fun inner => { inner with parents := inner.parents ++ [(p, h.nextRegistrationId)] }).get x = _
  rw [Heap.get_modify hc', Heap.get_modify hp, Heap.get_modify hp]
  by_cases hxc : x = c
  · by_cases hxp : x = p
    · subst hxc hxp
      simp
    · subst hxc
      simp [hxp]
  · by_cases hxp : x = p
    · subst hxp
      simp [hxc]
    · simp [hxc, hxp]

/-- A call that registers its child. -/
theorem Sound.register (hs : Sound h calls) (hp : h.Live p) (hc : h.Live c) (hcp : ¬ Cancelled h p) :
    Sound (register h p c) (calls ++ [⟨p, c, true⟩]) := by
  have hget := get_register hp hc
  have hlength : (Cancellation.register h p c).inners.length = h.inners.length := by
    simp [Cancellation.register, Heap.modify]
  have hlive : ∀ x, (Cancellation.register h p c).Live x ↔ h.Live x := by
    intro x
    show 0 < ((Cancellation.register h p c).get x).strong ↔ _
    rw [hget]
    exact Iff.rfl
  have hcancelled : ∀ x, Cancelled (Cancellation.register h p c) x ↔ Cancelled h x := by
    intro x
    rw [Cancelled, hget, Cancelled]
  have hnext : (Cancellation.register h p c).nextRegistrationId = h.nextRegistrationId + 1 := rfl
  constructor
  · rw [hlength, List.forall_mem_append, List.forall_mem_singleton]
    exact ⟨hs.callsInHeap, hp.lt_length, hc.lt_length⟩
  · intro x hx link hlink
    rw [hget] at hlink
    rw [hlength]
    rcases List.mem_append.mp hlink with hlink | hlink
    · exact hs.linksInHeap x ((hlive x).mp hx) link hlink
    · split at hlink
      · rw [List.mem_singleton.mp hlink]
        exact hp.lt_length
      · cases hlink
  · intro x hx entry hentry
    rw [hget] at hentry
    rw [hnext]
    rcases List.mem_append.mp hentry with hentry | hentry
    · exact Nat.lt_succ_of_lt (hs.ids x ((hlive x).mp hx) entry hentry)
    · split at hentry
      · rw [List.mem_singleton.mp hentry]
        exact Nat.lt_succ_self _
      · cases hentry
  · intro x hx
    have hx' := (hlive x).mp hx
    rw [hget]
    dsimp only
    split
    · rw [List.map_append, List.map_singleton]
      refine List.nodup_append_comm.mp (List.nodup_cons.mpr ⟨fun hmem => ?_, hs.distinct x hx'⟩)
      obtain ⟨entry, hentry, heq⟩ := List.mem_map.mp hmem
      have hlt := hs.ids x hx' entry hentry
      rw [heq] at hlt
      exact absurd hlt (lt_irrefl _)
    · rw [List.append_nil]
      exact hs.distinct x hx'
  · intro x y id hx hy
    have hold := hs.links x y id ((hlive x).mp hx) ((hlive y).mp hy)
    rw [hget, hget]
    dsimp only
    rw [List.mem_append, List.mem_append, hold]
    refine or_congr_right ?_
    -- the new link and the new registration are one
    by_cases hxp : x = p
    · by_cases hyc : y = c
      · simp [hxp, hyc]
      · simp [hxp, hyc]
    · by_cases hyc : y = c
      · simp [hxp, hyc]
      · simp [hxp, hyc]
  · intro x hx
    rw [hget]
    dsimp only
    rw [List.map_append, hs.entries x ((hlive x).mp hx), childrenOf_congr fun call _ => hlive call.child, childrenOf,
      childrenOf, List.filter_append, List.map_append]
    congr 1
    by_cases hxp : x = p
    · simp [hxp, hc]
    · simp [hxp, Ne.symm hxp]
  · rw [List.forall_mem_append, List.forall_mem_singleton]
    refine ⟨fun call hcall hr hx => ?_, fun hr => by cases hr⟩
    rw [hcancelled]
    exact hs.refused call hcall hr ((hlive _).mp hx)
  · rw [List.forall_mem_append, List.forall_mem_singleton]
    refine ⟨fun call hcall hx hy hca => ?_, fun _ _ hca => absurd ((hcancelled p).mp hca) hcp⟩
    rw [hcancelled] at hca ⊢
    exact hs.closed call hcall ((hlive _).mp hx) ((hlive _).mp hy) hca

theorem Sound.attach (hs : Sound h calls) (hp : h.Live p) (hc : h.Live c) :
    Sound (attach h p c) (calls ++ [⟨p, c, !(h.get p).cancelled⟩]) := by
  rw [Cancellation.attach]
  by_cases hcp : (h.get p).cancelled = true
  · rw [if_pos hcp, hcp]
    -- the id is spent, and the child is cancelled at once
    set h₁ : Heap := { h with nextRegistrationId := h.nextRegistrationId + 1 } with hh₁
    have hs₁ : Sound h₁ calls :=
      hs.congr rfl (Nat.le_succ _) fun x => ⟨Iff.rfl, rfl, rfl, rfl⟩
    obtain ⟨hflags, hcc, -, -⟩ := cancel_spec (h := h₁) (t := c) hc hs₁.closed_walk
    have hs₂ := (hs₁.cancel (t := c) hc).addRefused ((hflags.live p).mpr hp) ((hflags.live c).mpr hc)
      (hflags.keeps p hcp) hcc
    exact hs₂.dropHandle ((hflags.live c).mpr hc)
  · have hreg : ((Cancellation.register h p c).get p).cancelled = (h.get p).cancelled := by
      rw [get_register hp hc]
    have hlive : (Cancellation.register h p c).Live c := by
      show 0 < ((Cancellation.register h p c).get c).strong
      rw [get_register hp hc]
      exact hc
    rw [if_neg hcp, Bool.not_eq_true] at *
    dsimp only
    rw [hreg, hcp, if_neg (by decide)]
    exact (hs.register hp hc (by rw [Cancelled, hcp]; decide)).dropHandle hlive

theorem Sound.child (hs : Sound h calls) (hp : h.Live p) :
    Sound (child h p).1 (calls ++ [⟨p, h.inners.length, !(h.get p).cancelled⟩]) := by
  have hnew : (Cancellation.new h).1.Live h.inners.length := live_new.mpr (Or.inl rfl)
  have hclone : ∀ x, (Cancellation.clone (Cancellation.new h).1 h.inners.length).Live x ↔
      (Cancellation.new h).1.Live x := by
    intro x
    show 0 < ((Cancellation.clone (Cancellation.new h).1 h.inners.length).get x).strong ↔ _
    rw [Cancellation.clone, Heap.get_modify hnew]
    split
    · rename_i hx
      rw [hx]
      exact iff_of_true (Nat.succ_pos _) hnew
    · exact Iff.rfl
  have hflag : ((Cancellation.clone (Cancellation.new h).1 h.inners.length).get p).cancelled =
      (h.get p).cancelled := by
    rw [Cancellation.clone, Heap.get_modify hnew, if_neg hp.lt_length.ne, get_new, if_neg hp.lt_length.ne]
  have hattach := (hs.new.clone hnew).attach ((hclone p).mpr (live_new.mpr (Or.inr hp))) ((hclone _).mpr hnew)
  rw [hflag] at hattach
  exact hattach

theorem Sound.step {op : Op} (hs : Sound h calls) (hstep : step h op = some h') :
    Sound h' (calls ++ callsOf h op) := by
  cases op with
  | new =>
    obtain rfl := Option.some.inj hstep
    show Sound _ (calls ++ [])
    rw [List.append_nil]
    exact hs.new
  | child t =>
    obtain ⟨ht, heq⟩ := Option.ite_none_right_eq_some.mp hstep
    obtain rfl := Option.some.inj heq
    exact hs.child ht
  | attach t other =>
    obtain ⟨⟨ht, hother, -⟩, heq⟩ := Option.ite_none_right_eq_some.mp hstep
    obtain rfl := Option.some.inj heq
    exact hs.attach ht hother
  | clone t =>
    obtain ⟨ht, heq⟩ := Option.ite_none_right_eq_some.mp hstep
    obtain rfl := Option.some.inj heq
    show Sound _ (calls ++ [])
    rw [List.append_nil]
    exact hs.clone ht
  | drop t =>
    obtain ⟨ht, heq⟩ := Option.ite_none_right_eq_some.mp hstep
    obtain rfl := Option.some.inj heq
    show Sound _ (calls ++ [])
    rw [List.append_nil]
    exact hs.dropHandle ht
  | cancel t =>
    obtain ⟨ht, heq⟩ := Option.ite_none_right_eq_some.mp hstep
    obtain rfl := Option.some.inj heq
    show Sound _ (calls ++ [])
    rw [List.append_nil]
    exact hs.cancel ht

theorem Sound.runFrom {s s' : Heap × List Call} {ops : List Op} (hs : Sound s.1 s.2)
    (hrun : runFrom s ops = some s') : Sound s'.1 s'.2 := by
  induction ops generalizing s with
  | nil =>
    obtain rfl := Option.some.inj hrun
    exact hs
  | cons op ops ih =>
    obtain ⟨h', hstep, hrest⟩ := Option.bind_eq_some_iff.mp hrun
    exact ih (hs.step hstep) hrest

/-! ## What a cancellation marks -/

/-- A chain of calls of `attach` through tokens that are alive. -/
def LiveChain (h : Heap) (calls : List Call) : Token → Token → Prop :=
  ReflTransGen fun a b => h.Live b ∧ ∃ call ∈ calls, call.parent = a ∧ call.child = b

theorem liveChain_of_leads (hs : Sound h calls) (ht : h.Live t) (hreach : ReflTransGen (Leads h) t x) :
    h.Live x ∧ LiveChain h calls t x := by
  induction hreach with
  | refl => exact ⟨ht, ReflTransGen.refl⟩
  | tail _ hbc ih =>
    obtain ⟨hb, hchain⟩ := ih
    obtain ⟨hc, call, hcall, hparent, -, hchild⟩ := (hs.leads_iff hb).mp hbc
    exact ⟨hc, hchain.tail ⟨hc, call, hcall, hparent, hchild⟩⟩

/-- Along a live chain from a cancelled token everything is cancelled. -/
theorem cancelled_of_liveChain (hs : Sound h calls) (ht : h.Live t) (hcancelled : Cancelled h t)
    (hchain : LiveChain h calls t x) : h.Live x ∧ Cancelled h x := by
  induction hchain with
  | refl => exact ⟨ht, hcancelled⟩
  | tail _ hbc ih =>
    obtain ⟨hb, hcb⟩ := ih
    obtain ⟨hc, call, hcall, rfl, rfl⟩ := hbc
    exact ⟨hc, hs.closed call hcall hb hc hcb⟩

/-- **What `cancel` does after any program**: it marks the live tokens that a chain of calls through live tokens
reaches, and changes nothing else; and the registrations of a live token are, in order and under distinct
ids, its calls of `attach` that found it uncancelled, for the children that are still alive. -/
theorem cancel_reaches_live_chains {ops : List Op} {h : Heap} {calls : List Call}
    (hrun : run ops = some (h, calls)) :
    (∀ t, h.Live t →
      (∀ x, h.Live x → (Cancelled (cancel h t).1 x ↔ Cancelled h x ∨ LiveChain h calls t x)) ∧
      FlagsOnly h (cancel h t).1) ∧
    ∀ p, h.Live p → ((h.get p).waiters.map Prod.fst).Nodup ∧
      (h.get p).waiters.map Prod.snd = childrenOf h calls p := by
  have hs : Sound h calls := Sound.runFrom sound_empty hrun
  refine ⟨fun t ht => ?_, fun p hp => ⟨hs.distinct p hp, hs.entries p hp⟩⟩
  obtain ⟨hflags, hmarked, -, honly⟩ := cancel_spec ht hs.closed_walk
  refine ⟨fun x hx => ⟨fun hc => ?_, fun hc => ?_⟩, hflags⟩
  · exact (honly x hc).imp_right fun hreach => (liveChain_of_leads hs ht hreach).2
  · rcases hc with hc | hchain
    · exact hflags.keeps x hc
    · have hchain' : LiveChain (cancel h t).1 calls t x :=
        ReflTransGen.mono (fun a b hab => ⟨(hflags.live b).mpr hab.1, hab.2⟩) _ _ hchain
      exact (cancelled_of_liveChain (hs.cancel ht) ((hflags.live t).mpr ht) hmarked hchain').2

/-- Three tokens in a chain, and the middle one is dropped. -/
def middleDropped : List Op := [.new, .child 0, .child 1, .drop 1]

theorem cancel_reaches_live_chains_middle : ∃ h calls, run middleDropped = some (h, calls) ∧
    ∀ x, h.Live x → (Cancelled (cancel h 0).1 x ↔ Cancelled h x ∨ LiveChain h calls 0 x) := by
  refine ⟨_, _, rfl, fun x hx => ?_⟩
  exact ((@cancel_reaches_live_chains middleDropped _ _ rfl).1 0 (by decide)).1 x hx

/-- A grandchild stays uncancelled where its parent is gone. -/
theorem grandchild_of_dropped_middle_survives : ∃ h calls, run middleDropped = some (h, calls) ∧ h.Live 0 ∧ h.Live 2 ∧
    ReflTransGen (fun a b => ∃ call ∈ calls, call.parent = a ∧ call.child = b) 0 2 ∧
    ¬ Cancelled (cancel h 0).1 2 := by
  refine ⟨_, _, rfl, by decide, by decide, ?_, ?_⟩
  · exact (ReflTransGen.single ⟨⟨0, 1, true⟩, by decide, rfl, rfl⟩).tail ⟨⟨1, 2, true⟩, by decide, rfl, rfl⟩
  · rw [cancel, if_neg (by decide)]
    dsimp only
    rw [show cascade _ 0 = [] from rfl, drain]
    decide

end Cancellation
