import KernelIR.Proofs.Arena.Reach

/-!
# The links of nesting

Nesting is kept in both directions, and no step of a view lets the two disagree: a live statement
names a block exactly if the block lists it, and a block names an owner only if the owner's kind
names the block. A tombstone may stay listed, in a block that was discarded with it, but it is in no
other.
-/

namespace KernelIR

namespace View

/-- The links between statements and blocks agree. -/
structure Linked (v : View) : Prop where
  hasBlock_of_child : ∀ s, ∀ b ∈ v.children s, v.HasBlock b
  nodup_children : ∀ s, (v.children s).Nodup
  child_of_owner : ∀ b s, v.owner? b = some s → b ∈ v.children s
  issued_of_listed : ∀ b, ∀ s ∈ v.listed b, v.HasStmt s ∧ v.HasBlock b
  nodup_listed : ∀ b, (v.listed b).Nodup
  listed_once : ∀ b c s, s ∈ v.listed b → s ∈ v.listed c → b = c
  parent_iff : ∀ s, v.erased s = false → ∀ b, v.parent? s = some b ↔ s ∈ v.listed b
  parent_of_erased : ∀ s, v.erased s = true → v.parent? s = none

namespace Linked

variable {v : View} {b c : BlockId} {s t old new : StmtId}

/-! ## Consequences -/

theorem live_of_parent (h : v.Linked) (hp : v.parent? s = some b) : v.erased s = false := by
  rw [← Bool.not_eq_true]
  intro herased
  rw [h.parent_of_erased s herased] at hp
  cases hp

theorem listed_of_parent (h : v.Linked) (hp : v.parent? s = some b) : s ∈ v.listed b :=
  (h.parent_iff s (h.live_of_parent hp) b).1 hp

/-- A statement that can be placed is in no block. -/
theorem not_listed (h : v.Linked) (hs : v.Placeable s) (b : BlockId) : s ∉ v.listed b := by
  intro hmem
  have hp := (h.parent_iff s hs.live b).2 hmem
  rw [hs.detached] at hp
  cases hp

/-- Where an attached statement is, it can be exchanged. -/
theorem place_of_parent (h : v.Linked) (hp : v.parent? s = some b) :
    v.HasBlock b ∧ s ∈ v.listed b := by
  have hmem := h.listed_of_parent hp
  exact ⟨(h.issued_of_listed b s hmem).2, hmem⟩

/-! ## What a change lists -/

theorem mem_listed_insert {i : Nat} (hi : i ≤ (v.listed b).length) :
    t ∈ (v.insert b i s).listed c ↔ (t = s ∧ c = b) ∨ t ∈ v.listed c := by
  by_cases hc : c = b
  · simp [View.insert, hc, List.mem_insertIdx hi]
  · simp [View.insert, hc]

theorem mem_listed_remove :
    t ∈ (v.remove b s).listed c ↔ t ∈ v.listed c ∧ ¬ (t = s ∧ c = b) := by
  by_cases hc : c = b <;> simp [View.remove, hc]

/-- Since a block lists a statement once, exchanging is renaming. -/
theorem listed_exchange_self (h : v.Linked) (old new : StmtId) :
    (v.exchange b old new).listed b = (v.listed b).map (turn old new) := by
  simp only [View.exchange, Function.update_self]
  apply List.ext_getElem
  · simp
  · intro i h₁ h₂
    have hlt : i < (v.listed b).length := by simpa using h₂
    have hat : (v.listed b).idxOf old = i ↔ (v.listed b)[i] = old := by
      constructor
      · rintro rfl
        exact List.getElem_idxOf hlt
      · intro hget
        rw [← hget]
        exact (h.nodup_listed b).idxOf_getElem i hlt
    by_cases heq : (v.listed b)[i] = old
    · simp [turn, hat.2 heq, heq]
    · simp [turn, mt hat.1 heq, heq]

theorem listed_exchange_of_ne (v : View) (hc : c ≠ b) (old new : StmtId) :
    (v.exchange b old new).listed c = v.listed c := by
  simp [View.exchange, hc]

theorem mem_listed_exchange (h : v.Linked) (hold : old ∈ v.listed b) (new : StmtId) :
    t ∈ (v.exchange b old new).listed c ↔ (t = new ∧ c = b) ∨ (t ∈ v.listed c ∧ t ≠ old) := by
  by_cases hc : c = b
  · subst hc
    rw [h.listed_exchange_self, List.mem_map]
    constructor
    · rintro ⟨x, hx, rfl⟩
      by_cases hxo : x = old
      · exact .inl ⟨if_pos hxo, rfl⟩
      · exact .inr (by simpa [turn, hxo] using hx)
    · rintro (⟨rfl, _⟩ | ⟨ht, hto⟩)
      · exact ⟨old, hold, if_pos rfl⟩
      · exact ⟨t, ht, if_neg hto⟩
  · rw [listed_exchange_of_ne v hc]
    constructor
    · intro ht
      refine .inr ⟨ht, ?_⟩
      rintro rfl
      exact hc (h.listed_once c b t ht hold)
    · rintro (⟨_, hcb⟩ | ⟨ht, _⟩)
      · exact absurd hcb hc
      · exact ht

theorem nodup_listed_exchange (h : v.Linked) (hfresh : new ∉ v.listed b) (c : BlockId) :
    ((v.exchange b old new).listed c).Nodup := by
  by_cases hc : c = b
  · subst hc
    rw [h.listed_exchange_self]
    -- Renaming makes no repetition, since `new` was not listed.
    refine (h.nodup_listed c).map_on fun x hx y hy hxy => ?_
    have hxNew : x ≠ new := fun hx' => hfresh (hx' ▸ hx)
    have hyNew : y ≠ new := fun hy' => hfresh (hy' ▸ hy)
    by_cases hxo : x = old <;> by_cases hyo : y = old
    · rw [hxo, hyo]
    · simp only [turn, if_pos hxo, if_neg hyo] at hxy
      exact absurd hxy.symm hyNew
    · simp only [turn, if_neg hxo, if_pos hyo] at hxy
      exact absurd hxy hxNew
    · simpa only [turn, if_neg hxo, if_neg hyo] using hxy
  · rw [listed_exchange_of_ne v hc]
    exact h.nodup_listed c

/-! ## Every step keeps the links -/

theorem createStmt (h : v.Linked) (hindexed : v.Indexed) {k : Kind} (ty : ScalarType)
    (hnodup : k.children.Nodup) (hfree : ∀ b ∈ k.children, v.HasBlock b ∧ v.owner? b = none) :
    (v.createStmt k ty).Linked := by
  have hchildren : ∀ t, (v.createStmt k ty).children t =
      if t = ⟨v.stmtCount⟩ then k.children else v.children t := by
    intro t
    by_cases ht : t = ⟨v.stmtCount⟩ <;> simp [children, View.createStmt, ht]
  -- A handle that was not issued held nothing, so nothing named it as an owner.
  have hnone : v.children ⟨v.stmtCount⟩ = [] :=
    hindexed.children_of_not_hasStmt (Nat.lt_irrefl _)
  refine { h with hasBlock_of_child := ?_, nodup_children := ?_, child_of_owner := ?_,
                  issued_of_listed := ?_ }
  · intro t b hb
    rw [hchildren] at hb
    split at hb
    · exact (hfree b hb).1
    · exact h.hasBlock_of_child t b hb
  · intro t
    rw [hchildren]
    split
    · exact hnodup
    · exact h.nodup_children t
  · intro b t howner
    rw [hchildren]
    by_cases hb : b ∈ k.children
    · have ht : t = ⟨v.stmtCount⟩ := by
        simpa [View.createStmt, hb, eq_comm] using howner
      rwa [if_pos ht]
    · have hold : b ∈ v.children t :=
        h.child_of_owner b t (by simpa [View.createStmt, hb] using howner)
      have ht : t ≠ ⟨v.stmtCount⟩ := by
        rintro rfl
        rw [hnone] at hold
        cases hold
      rwa [if_neg ht]
  · intro b t ht
    have hissued := h.issued_of_listed b t ht
    exact ⟨Nat.lt_succ_of_lt hissued.1, hissued.2⟩

theorem insert (h : v.Linked) {i : Nat} (hs : v.Placeable s) (hb : v.HasBlock b)
    (hi : i ≤ (v.listed b).length) : (v.insert b i s).Linked := by
  -- `s` was in no block, so afterwards it is in `b` only, and there once.
  have hnew := h.not_listed hs
  have hmem := fun c t => mem_listed_insert (v := v) (s := s) (t := t) (c := c) hi
  refine { h with issued_of_listed := ?_, nodup_listed := ?_, listed_once := ?_, parent_iff := ?_,
                  parent_of_erased := ?_ }
  · intro c t ht
    rcases (hmem c t).1 ht with ⟨rfl, rfl⟩ | ht
    · exact ⟨hs.hasStmt, hb⟩
    · exact h.issued_of_listed c t ht
  · intro c
    by_cases hc : c = b
    · have hlisted : (v.insert b i s).listed c = (v.listed b).insertIdx i s := by
        simp [View.insert, hc]
      rw [hlisted, (List.perm_insertIdx s _ hi).nodup_iff, List.nodup_cons]
      exact ⟨hnew b, h.nodup_listed b⟩
    · have hlisted : (v.insert b i s).listed c = v.listed c := by simp [View.insert, hc]
      rw [hlisted]
      exact h.nodup_listed c
  · intro c d t
    rw [hmem, hmem]
    rintro (⟨rfl, rfl⟩ | hc) (⟨hts, rfl⟩ | hd)
    · rfl
    · exact absurd hd (hnew d)
    · exact absurd (hts ▸ hc) (hnew c)
    · exact h.listed_once c d t hc hd
  · intro t ht c
    rw [hmem]
    by_cases hts : t = s
    · subst hts
      simp [View.insert, hnew, eq_comm]
    · simpa [View.insert, hts] using h.parent_iff t ht c
  · intro t ht
    have hts : t ≠ s := by
      rintro rfl
      have hlive := hs.live
      rw [show v.erased t = true from ht] at hlive
      cases hlive
    simpa [View.insert, hts] using h.parent_of_erased t ht

theorem remove (h : v.Linked) (b : BlockId) (s : StmtId) : (v.remove b s).Linked := by
  have hmem := fun c t => mem_listed_remove (v := v) (b := b) (s := s) (t := t) (c := c)
  have hparent : ∀ t, (v.remove b s).parent? t =
      if t = s ∧ v.parent? s = some b then none else v.parent? t := by
    intro t
    by_cases hp : v.parent? s = some b
    · by_cases ht : t = s <;> simp [View.remove, hp, ht]
    · simp [View.remove, hp]
  refine { h with issued_of_listed := ?_, nodup_listed := ?_, listed_once := ?_, parent_iff := ?_,
                  parent_of_erased := ?_ }
  · intro c t ht
    exact h.issued_of_listed c t ((hmem c t).1 ht).1
  · intro c
    by_cases hc : c = b
    · simpa [View.remove, hc] using (h.nodup_listed b).filter _
    · simpa [View.remove, hc] using h.nodup_listed c
  · intro c d t hc hd
    exact h.listed_once c d t ((hmem c t).1 hc).1 ((hmem d t).1 hd).1
  · intro t ht c
    have hiff := h.parent_iff t ht
    rw [hmem, hparent, ← hiff c]
    by_cases hts : t = s
    · subst hts
      -- A statement that is taken out of a block it is not in keeps its parent.
      by_cases hp : v.parent? t = some b
      · simp [hp, eq_comm]
      · simp only [hp, and_false, if_false, true_and]
        constructor
        · intro hc
          refine ⟨hc, ?_⟩
          rintro rfl
          exact hp hc
        · exact And.left
    · simp [hts]
  · intro t ht
    rw [hparent]
    split
    · rfl
    · exact h.parent_of_erased t ht

theorem redirect (h : v.Linked) (old new : StmtId) : (v.redirect old new).Linked := by
  refine { h with hasBlock_of_child := ?_, nodup_children := ?_, child_of_owner := ?_ }
  · intro s
    rw [children_redirect]
    exact h.hasBlock_of_child s
  · intro s
    rw [children_redirect]
    exact h.nodup_children s
  · intro b s howner
    rw [children_redirect]
    exact h.child_of_owner b s howner

theorem exchange (h : v.Linked) (hnew : v.Placeable new) (hp : v.parent? old = some b)
    (hne : old ≠ new) : (v.exchange b old new).Linked := by
  have hold := h.listed_of_parent hp
  have hfresh := h.not_listed hnew
  have hmem := fun c t => h.mem_listed_exchange (t := t) (c := c) hold new
  have hblock := (h.issued_of_listed b old hold).2
  refine { h with issued_of_listed := ?_, nodup_listed := ?_, listed_once := ?_, parent_iff := ?_,
                  parent_of_erased := ?_ }
  · intro c t ht
    rcases (hmem c t).1 ht with ⟨rfl, rfl⟩ | ⟨ht, _⟩
    · exact ⟨hnew.hasStmt, hblock⟩
    · exact h.issued_of_listed c t ht
  · exact h.nodup_listed_exchange (hfresh b)
  · intro c d t
    rw [hmem, hmem]
    rintro (⟨rfl, rfl⟩ | ⟨hc, _⟩) (⟨htn, rfl⟩ | ⟨hd, _⟩)
    · rfl
    · exact absurd hd (hfresh d)
    · exact absurd (htn ▸ hc) (hfresh c)
    · exact h.listed_once c d t hc hd
  · intro t ht c
    rw [hmem]
    by_cases hto : t = old
    · subst hto
      simp [View.exchange, hne]
    · by_cases htn : t = new
      · subst htn
        simp [View.exchange, hto, hfresh, eq_comm]
      · simpa [View.exchange, hto, htn] using h.parent_iff t ht c
  · intro t ht
    by_cases hto : t = old
    · simp [View.exchange, hto]
    · have htn : t ≠ new := by
        rintro rfl
        have hlive := hnew.live
        rw [show v.erased t = true from ht] at hlive
        cases hlive
      simpa [View.exchange, hto, htn] using h.parent_of_erased t ht

theorem erase (h : v.Linked) (doomed : List StmtId) : (v.erase doomed).Linked := by
  refine { h with parent_iff := ?_, parent_of_erased := ?_ }
  · intro t ht c
    have hboth : t ∉ doomed ∧ v.erased t = false := by simpa [View.erase] using ht
    simpa [View.erase, hboth.1] using h.parent_iff t hboth.2 c
  · intro t ht
    by_cases hmem : t ∈ doomed
    · simp [View.erase, hmem]
    · have herased : v.erased t = true := by simpa [View.erase, hmem] using ht
      simpa [View.erase, hmem] using h.parent_of_erased t herased

/-- Every step of a view keeps the links. -/
theorem step (h : v.Linked) (hindexed : v.Indexed) {v' : View} (hstep : Step v v') : v'.Linked := by
  cases hstep with
  | createBlock =>
      refine { h with hasBlock_of_child := ?_, issued_of_listed := ?_ }
      · intro s b hb
        exact Nat.lt_succ_of_lt (h.hasBlock_of_child s b hb)
      · intro b s hs
        have hissued := h.issued_of_listed b s hs
        exact ⟨hissued.1, Nat.lt_succ_of_lt hissued.2⟩
  | createStmt ty _ hnodup hfree => exact h.createStmt hindexed ty hnodup hfree
  | insert hs hb hi => exact h.insert hs hb hi
  | remove _ _ => exact h.remove _ _
  | @release b _ =>
      refine { h with child_of_owner := ?_ }
      intro c s howner
      by_cases hc : c = b
      · simp [View.release, hc] at howner
      · exact h.child_of_owner c s (by simpa [View.release, hc] using howner)
  | redirect _ => exact h.redirect _ _
  | exchange hnew hp _ hne => exact h.exchange hnew hp hne
  | erase _ _ _ => exact h.erase _

end Linked

theorem linked_empty : Arena.empty.view.Linked := by
  rw [Arena.view_empty]
  refine ⟨?_, ?_, ?_, ?_, ?_, ?_, ?_, ?_⟩ <;> simp [children]

end View

theorem Arena.Arises.linked {a : Arena} (h : a.Arises) : a.view.Linked :=
  h.invariant View.linked_empty fun _ _ hindexed hlinked hstep => hlinked.step hindexed hstep

end KernelIR
