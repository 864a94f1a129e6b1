/-
# Chains of digests

A list whose elements name the digest of the one before.  The last digest commits to the whole list, as
long as no two digests collide: two chains of one length that end in one digest are one chain
(`eq_of_last_digest`).
-/
import Mathlib

namespace HashChain

variable {α δ : Type*} (prev digest : α → δ)

/-- The digest that the next element has to name. -/
def tail (genesis : δ) (chain : List α) : δ := (chain.getLast?.map digest).getD genesis

/-- Every element names the digest of the one before it. -/
inductive Chained (genesis : δ) : List α → Prop
  | nil : Chained genesis []
  | concat {chain : List α} {a : α} : Chained genesis chain → prev a = tail digest genesis chain →
      Chained genesis (chain ++ [a])

@[simp] theorem tail_concat (genesis : δ) (chain : List α) (a : α) :
    tail digest genesis (chain ++ [a]) = digest a := by
  simp [tail]

variable {prev digest} {genesis : δ}

theorem Chained.of_concat {chain : List α} {a : α} (h : Chained prev digest genesis (chain ++ [a])) :
    Chained prev digest genesis chain ∧ prev a = tail digest genesis chain := by
  generalize heq : chain ++ [a] = whole at h
  cases h with
  | nil => exact absurd heq (by simp)
  | concat hchain hprev =>
    obtain ⟨rfl, hlast⟩ := List.append_inj' heq rfl
    cases hlast
    exact ⟨hchain, hprev⟩

/-- **The last digest commits to the whole chain**, if equal digests come from equal elements. -/
theorem eq_of_last_digest {l m : List α} (hl : Chained prev digest genesis l)
    (hm : Chained prev digest genesis m) (hlength : l.length = m.length)
    (hlast : tail digest genesis l = tail digest genesis m)
    (hcollision : ∀ a ∈ l, ∀ b ∈ m, digest a = digest b → a = b) : l = m := by
  induction l using List.reverseRecOn generalizing m with
  | nil => exact (List.length_eq_zero_iff.mp hlength.symm).symm
  | append_singleton l a ih =>
    rcases m.eq_nil_or_concat with rfl | ⟨m, b, rfl⟩
    · simp at hlength
    · rw [List.concat_eq_append] at hm hlength hlast hcollision ⊢
      rw [tail_concat, tail_concat] at hlast
      have hab : a = b := hcollision a (by simp) b (by simp) hlast
      subst hab
      obtain ⟨hl, hprev⟩ := hl.of_concat
      obtain ⟨hm, hprev'⟩ := hm.of_concat
      have hlength' : l.length = m.length := by simpa using hlength
      have hrest : l = m := by
        refine ih hl hm hlength' (hprev.symm.trans hprev') ?_
        intro c hc d hd
        exact hcollision c (List.mem_append_left _ hc) d (List.mem_append_left _ hd)
      rw [hrest]

end HashChain
