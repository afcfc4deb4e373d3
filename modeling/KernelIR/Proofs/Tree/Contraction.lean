import KernelIR.Proofs.Tree.Valid

/-!
# Outermost matches

One pass over the statements of a tree, in pre-order, that replaces a match and then goes on behind
everything below it. What such a pass replaces is outermost, it replaces all that is outermost, and
it leaves the other statements in their order.
-/

namespace KernelIR

namespace View

variable (v : View) (p : Kind → Bool)

/-- Whether the kind of a statement passes the test. -/
def hits (s : StmtId) : Bool :=
  (v.kind? s).elim false p

/-- Strictly below `s` is `t`. -/
def Beneath (t s : StmtId) : Prop :=
  ∃ inner, v.Meets (v.below s) inner ∧ t ∈ inner

/-- Among the statements `ss`, the match `m` is below no other one. -/
structure Outermost (ss : List StmtId) (m : StmtId) : Prop where
  mem : m ∈ ss
  hit : v.hits p m = true
  top : ∀ n ∈ ss, v.hits p n = true → ¬ v.Beneath m n

/-- One pass over `ss` replaces the matches `ms` by the statements with the handles `n`, `n + 1` and
so on, each with all that is below it, and leaves `ts`. -/
inductive Contracts : Nat → List StmtId → List StmtId → List StmtId → Prop
  | nil {n : Nat} : Contracts n [] [] []
  | keep {n : Nat} {s : StmtId} {ss ms ts : List StmtId} :
      v.hits p s = false → Contracts n ss ms ts → Contracts n (s :: ss) ms (s :: ts)
  | swap {n : Nat} {m : StmtId} {segment ss ms ts : List StmtId} :
      v.hits p m = true → v.Meets [m] segment → Contracts (n + 1) ss ms ts →
        Contracts n (segment ++ ss) (m :: ms) (⟨n⟩ :: ts)

variable {v p}

namespace Contracts

variable {n : Nat} {m s : StmtId} {xs ss ms ts ss' ms' ts' segment : List StmtId}

/-! ## Passes in a row -/

theorem append (h : v.Contracts p n ss ms ts) (h' : v.Contracts p (n + ms.length) ss' ms' ts') :
    v.Contracts p n (ss ++ ss') (ms ++ ms') (ts ++ ts') := by
  induction h with
  | nil => exact h'
  | keep hs _ ih => exact .keep hs (ih h')
  | @swap n m segment ss ms ts hm hsegment _ ih =>
      rw [List.append_assoc]
      refine .swap hm hsegment (ih ?_)
      rwa [List.length_cons, Nat.add_comm ms.length, ← Nat.add_assoc] at h'

theorem keep_all (hss : ∀ s ∈ ss, v.hits p s = false) (h : v.Contracts p n ss' ms ts) :
    v.Contracts p n (ss ++ ss') ms (ss ++ ts) := by
  induction ss with
  | nil => exact h
  | cons s ss ih =>
      rcases List.forall_mem_cons.1 hss with ⟨hs, hss⟩
      exact .keep hs (ih hss)

/-- A descent that ends can be passed over. -/
theorem exists_of_meets (h : v.Meets xs ss) (n : Nat) : ∃ ms ts, v.Contracts p n ss ms ts := by
  -- Over the descent itself: a match skips what is below it, and all else is passed over.
  induction h generalizing n with
  | nil => exact ⟨[], [], .nil⟩
  | @cons x xs inner outer hx hinner _ ihInner ihOuter =>
      cases hhit : v.hits p x with
      | true =>
          rcases ihOuter (n + 1) with ⟨ms, ts, hrest⟩
          have hsegment : v.Meets [x] (x :: inner) :=
            Visits.singleton_iff.2 ⟨hx, inner, hinner, rfl⟩
          exact ⟨x :: ms, ⟨n⟩ :: ts, .swap hhit hsegment hrest⟩
      | false =>
          rcases ihInner n with ⟨ms, ts, hbelow⟩
          rcases ihOuter (n + ms.length) with ⟨ms', ts', hrest⟩
          exact ⟨ms ++ ms', x :: (ts ++ ts'), .keep hhit (hbelow.append hrest)⟩

/-- Without a match the pass changes nothing. -/
theorem of_nil (h : v.Contracts p n ss [] ts) : ts = ss ∧ ∀ s ∈ ss, v.hits p s = false := by
  generalize hms : ([] : List StmtId) = ms at h
  induction h with
  | nil => exact ⟨rfl, by simp⟩
  | keep hs _ ih =>
      rcases ih hms with ⟨rfl, hss⟩
      exact ⟨rfl, List.forall_mem_cons.2 ⟨hs, hss⟩⟩
  | swap => cases hms

/-- The first match, with what is before it and what the pass goes on with behind it. -/
theorem of_cons (h : v.Contracts p n ss (m :: ms) ts) :
    ∃ front segment rest ts', ss = front ++ (segment ++ rest) ∧ ts = front ++ ⟨n⟩ :: ts' ∧
      (∀ s ∈ front, v.hits p s = false) ∧ v.hits p m = true ∧ v.Meets [m] segment ∧
      v.Contracts p (n + 1) rest ms ts' := by
  generalize hms : m :: ms = ms₀ at h
  induction h with
  | nil => cases hms
  | keep hs _ ih =>
      rcases ih hms with ⟨front, segment, rest, ts', rfl, rfl, hfront, hhit⟩
      exact ⟨_ :: front, segment, rest, ts', rfl, rfl, List.forall_mem_cons.2 ⟨hs, hfront⟩, hhit⟩
  | @swap n m segment ss ms ts hm hsegment hrest =>
      cases hms
      exact ⟨[], segment, ss, ts, rfl, rfl, by simp, hm, hsegment, hrest⟩

/-- What is replaced first is what a search finds. -/
theorem find?_eq (h : v.Contracts p n ss (m :: ms) ts) : ss.find? (v.hits p) = some m := by
  rcases h.of_cons with ⟨front, segment, rest, _, rfl, _, hfront, hhit, hsegment, _⟩
  rcases Visits.singleton_iff.1 hsegment with ⟨_, inner, _, rfl⟩
  have hnone : front.find? (v.hits p) = none :=
    List.find?_eq_none.2 fun s hs => by simp [hfront s hs]
  rw [List.find?_append, hnone, List.cons_append, List.find?_cons_of_pos hhit]
  rfl

/-- There is one way only to make the pass. -/
theorem unique (h : v.Contracts p n ss ms ts) (h' : v.Contracts p n ss ms' ts') :
    ms = ms' ∧ ts = ts' := by
  induction h generalizing ms' ts' with
  | nil =>
      generalize hss : ([] : List StmtId) = ss₀ at h'
      cases h' with
      | nil => exact ⟨rfl, rfl⟩
      | keep => cases hss
      | swap _ hsegment _ =>
          rcases Visits.singleton_iff.1 hsegment with ⟨_, inner, _, rfl⟩
          cases hss
  | @keep n s ss ms ts hs _ ih =>
      generalize hss : s :: ss = ss₀ at h'
      cases h' with
      | nil => cases hss
      | keep _ hrest =>
          cases hss
          rcases ih hrest with ⟨rfl, rfl⟩
          exact ⟨rfl, rfl⟩
      | swap hhit hsegment _ =>
          rcases Visits.singleton_iff.1 hsegment with ⟨_, inner, _, rfl⟩
          cases hss
          rw [hs] at hhit
          cases hhit
  | @swap n m segment ss ms ts hhit hsegment _ ih =>
      rcases Visits.singleton_iff.1 hsegment with ⟨_, inner, hinner, rfl⟩
      generalize hss : m :: inner ++ ss = ss₀ at h'
      cases h' with
      | nil => cases hss
      | keep hs _ =>
          cases hss
          rw [hs] at hhit
          cases hhit
      | @swap _ m' segment' ss' ms' ts' _ hsegment' hrest =>
          rcases Visits.singleton_iff.1 hsegment' with ⟨_, inner', hinner', rfl⟩
          rcases List.cons.inj hss with ⟨rfl, hbehind⟩
          cases hinner.unique hinner'
          cases List.append_cancel_left hbehind
          rcases ih hrest with ⟨rfl, rfl⟩
          exact ⟨rfl, rfl⟩

/-- The pass looks at tests and descents only. -/
theorem congr {v' : View} (h : v.Contracts p n ss ms ts)
    (hhits : ∀ s ∈ ss, v'.hits p s = v.hits p s)
    (hmeets : ∀ m segment, segment ⊆ ss → v.Meets [m] segment → v'.Meets [m] segment) :
    v'.Contracts p n ss ms ts := by
  induction h with
  | nil => exact .nil
  | @keep n s ss ms ts hs _ ih =>
      rcases List.forall_mem_cons.1 hhits with ⟨hsame, hhits⟩
      refine .keep (hsame.trans hs) (ih hhits ?_)
      exact fun m segment hsub => hmeets m segment (List.subset_cons_of_subset s hsub)
  | @swap n m segment ss ms ts hm hsegment _ ih =>
      have hmem : m ∈ segment := Visits.roots_subset hsegment List.mem_cons_self
      refine .swap ?_ (hmeets m segment (List.subset_append_left segment ss) hsegment) (ih ?_ ?_)
      · rw [hhits m (List.mem_append_left ss hmem), hm]
      · exact fun s hs => hhits s (List.mem_append_right segment hs)
      · intro m segment' hsub
        exact hmeets m segment' (List.subset_append_of_subset_right segment hsub)

/-! ## What is replaced -/

theorem sublist (h : v.Contracts p n ss ms ts) : ms.Sublist ss := by
  induction h with
  | nil => exact .slnil
  | keep _ _ ih => exact ih.cons _
  | @swap n m segment ss ms ts _ hsegment _ ih =>
      rcases Visits.singleton_iff.1 hsegment with ⟨_, inner, _, rfl⟩
      exact (ih.trans (List.sublist_append_right inner ss)).cons_cons m

/-- What is replaced is a match, and goes with all that is below it. -/
theorem exists_segment (h : v.Contracts p n ss ms ts) (hm : m ∈ ms) :
    v.hits p m = true ∧ ∃ segment, v.Meets [m] segment ∧ segment ⊆ ss := by
  induction h with
  | nil => cases hm
  | @keep n s ss ms ts _ _ ih =>
      rcases ih hm with ⟨hhit, segment, hsegment, hsub⟩
      exact ⟨hhit, segment, hsegment, List.subset_cons_of_subset s hsub⟩
  | @swap n m₀ segment₀ ss ms ts hhit₀ hsegment₀ _ ih =>
      rcases List.mem_cons.1 hm with rfl | hm
      · exact ⟨hhit₀, segment₀, hsegment₀, List.subset_append_left segment₀ ss⟩
      · rcases ih hm with ⟨hhit, segment, hsegment, hsub⟩
        exact ⟨hhit, segment, hsegment, List.subset_append_of_subset_right segment₀ hsub⟩

/-- Every match goes with one that is replaced. -/
theorem exists_of_hit (h : v.Contracts p n ss ms ts) (hs : s ∈ ss) (hhit : v.hits p s = true) :
    ∃ m ∈ ms, ∃ segment, v.Meets [m] segment ∧ s ∈ segment := by
  induction h with
  | nil => cases hs
  | @keep n s₀ ss ms ts hs₀ _ ih =>
      rcases List.mem_cons.1 hs with rfl | hs
      · rw [hs₀] at hhit
        cases hhit
      · exact ih hs
  | @swap n m segment ss ms ts _ hsegment _ ih =>
      rcases List.mem_append.1 hs with hs | hs
      · exact ⟨m, List.mem_cons_self, segment, hsegment, hs⟩
      · rcases ih hs with ⟨m', hm', hrest⟩
        exact ⟨m', List.mem_cons_of_mem m hm', hrest⟩

/-- Of two matches that are replaced, neither goes with the other. -/
theorem eq_of_mem_segment (h : v.Contracts p n ss ms ts) (hnodup : ss.Nodup) (hm : m ∈ ms)
    (hsegment : v.Meets [m] segment) (hs : s ∈ ms) (hmem : s ∈ segment) : s = m := by
  induction h with
  | nil => cases hm
  | keep _ _ ih => exact ih (List.nodup_cons.1 hnodup).2 hm hs
  | @swap n m₀ segment₀ ss ms ts _ hsegment₀ hrest ih =>
      rcases List.nodup_append.1 hnodup with ⟨_, hnodup, hapart⟩
      have hbehind : ∀ {t}, t ∈ ms → t ∉ segment₀ := fun ht ht₀ =>
        hapart _ ht₀ _ (hrest.sublist.subset ht) rfl
      rcases List.mem_cons.1 hm with rfl | hmRest
      · rw [hsegment.unique hsegment₀] at hmem
        rcases List.mem_cons.1 hs with rfl | hsRest
        · rfl
        · exact absurd hmem (hbehind hsRest)
      · rcases List.mem_cons.1 hs with rfl | hsRest
        · rcases hrest.exists_segment hmRest with ⟨_, segment', hsegment', hsub⟩
          rw [hsegment.unique hsegment'] at hmem
          have hself : s ∈ segment₀ := Visits.roots_subset hsegment₀ List.mem_cons_self
          exact absurd rfl (hapart s hself s (hsub hmem))
        · exact ih hnodup hmRest hsRest

/-- What is replaced is what is outermost. -/
theorem mem_iff_outermost (h : v.Contracts p n ss ms ts) (hnodup : ss.Nodup) :
    m ∈ ms ↔ v.Outermost p ss m := by
  constructor
  · intro hm
    refine ⟨h.sublist.subset hm, (h.exists_segment hm).1, ?_⟩
    rintro s hs hhit ⟨inner, hinner, hmem⟩
    rcases h.exists_of_hit hs hhit with ⟨m', hm', segment, hsegment, hsmem⟩
    -- What is below `s` goes with `m'`, too, so `m'` is `m`, and `m` would be below itself.
    rcases Visits.exists_below hsegment hsmem with ⟨inner', hinner', hsub, _⟩
    rw [hinner.unique hinner'] at hmem
    have heq := h.eq_of_mem_segment hnodup hm' hsegment hm (hsub hmem)
    subst heq
    rcases Visits.singleton_iff.1 hsegment with ⟨_, below, hbelow, rfl⟩
    have hnot : m ∉ below := Visits.not_mem_below hbelow
    rcases List.mem_cons.1 hsmem with rfl | hsmem
    · rw [hinner'.unique hbelow] at hmem
      exact hnot hmem
    · have hin := hinner'.subset_of_roots_subset hbelow (Visits.below_subset hbelow hsmem)
      exact hnot (hin hmem)
  · intro hm
    rcases h.exists_of_hit hm.mem hm.hit with ⟨m', hm', segment, hsegment, hmem⟩
    rcases Visits.singleton_iff.1 hsegment with ⟨_, inner, hinner, rfl⟩
    rcases List.mem_cons.1 hmem with rfl | hmem
    · exact hm'
    · have htree := h.sublist.subset hm'
      exact absurd ⟨inner, hinner, hmem⟩ (hm.top m' htree (h.exists_segment hm').1)

end Contracts

end View

end KernelIR
