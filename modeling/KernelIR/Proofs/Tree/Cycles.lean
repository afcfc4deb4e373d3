import KernelIR.Proofs.Tree.Checks
import Mathlib.Data.Fintype.Card
import Mathlib.Data.Fintype.EquivFin

/-!
# Blocks inside themselves

A descent goes from a block to the blocks of the statements that it lists, whoever owns these. In an
arena whose lists and kinds name only what was created there is one way for it not to end: some
block on the way is inside itself. So finite descents can be told from the graph of blocks alone,
and that graph is all that matters to what an exchange of two statements does to them.
-/

namespace KernelIR

namespace View

/-- The descent from `root` comes to the block `b`. -/
inductive Enters (v : View) (root : Node) : BlockId → Prop
  | block {b : BlockId} : root = .block b → Enters v root b
  | child {s : StmtId} {b : BlockId} : root = .stmt s → b ∈ v.children s → Enters v root b
  | inside {b c : BlockId} {t : StmtId} :
      Enters v root b → t ∈ v.listed b → c ∈ v.children t → Enters v root c

/-- The block `c` is somewhere inside the block `b`. -/
def Inside (v : View) (c b : BlockId) : Prop :=
  ∃ t ∈ v.listed b, v.Enters (.stmt t) c

/-- No block to which the descent from `root` comes is inside itself. -/
def Acyclic (v : View) (root : Node) : Prop :=
  ∀ b, v.Enters root b → ¬ v.Inside b b

variable {v : View} {root : Node} {b c d : BlockId} {s t : StmtId} {ss : List StmtId}

/-! ## Entering -/

theorem Enters.trans (h : v.Enters root b) (ht : t ∈ v.listed b) (h' : v.Enters (.stmt t) c) :
    v.Enters root c := by
  induction h' with
  | block hroot => cases hroot
  | child hroot hc =>
      cases hroot
      exact h.inside ht hc
  | inside _ hu hc ih => exact ih.inside hu hc

theorem Inside.trans (h : v.Inside d c) (h' : v.Inside c b) : v.Inside d b := by
  rcases h with ⟨t, ht, hd⟩
  rcases h' with ⟨u, hu, hc⟩
  exact ⟨u, hu, hc.trans ht hd⟩

theorem Enters.hasBlock (hclosed : v.Closed) (hroot : v.HasNode root) (h : v.Enters root b) :
    v.HasBlock b := by
  cases h with
  | block heq =>
      subst heq
      exact hroot
  | child heq hb => exact hclosed.hasBlock_of_child _ _ hb
  | inside _ _ hb => exact hclosed.hasBlock_of_child _ _ hb

/-! ## Descents that end -/

/-- What a descent that ends comes to, it comes to at the start or from a statement that it
meets. -/
theorem MeetsFrom.cases_of_enters (h : v.MeetsFrom root ss) (hb : v.Enters root b) :
    root = .block b ∨ ∃ s ∈ ss, b ∈ v.children s := by
  induction hb with
  | block heq => exact .inl heq
  | child heq hb =>
      subst heq
      exact .inr ⟨_, Visits.roots_subset h.2 List.mem_cons_self, hb⟩
  | @inside b c t _ ht hc ih =>
      refine .inr ⟨t, ?_, hc⟩
      rcases ih with rfl | ⟨s, hs, hb⟩
      · exact Visits.roots_subset h.2 ht
      · exact Visits.below_subset h.2 hs (mem_below.2 ⟨b, hb, ht⟩)

theorem MeetsFrom.mem_of_enters (h : v.MeetsFrom root ss) (hb : v.Enters root b)
    (ht : t ∈ v.listed b) : t ∈ ss := by
  rcases h.cases_of_enters hb with rfl | ⟨s, hs, hb⟩
  · exact Visits.roots_subset h.2 ht
  · exact Visits.below_subset h.2 hs (mem_below.2 ⟨b, hb, ht⟩)

theorem MeetsFrom.hasNode (h : v.MeetsFrom root ss) : v.HasNode root := by
  cases root with
  | block b => exact h.1 b rfl
  | stmt s => exact (Visits.enter_of_mem h.2 (Visits.roots_subset h.2 List.mem_cons_self)).1

/-- What is met is where the descent starts, or is listed in a block to which it comes. -/
theorem MeetsFrom.cases_of_mem (h : v.MeetsFrom root ss) (hs : s ∈ ss) :
    root = .stmt s ∨ ∃ b, v.Enters root b ∧ s ∈ v.listed b := by
  refine Visits.forall_mem (P := fun t => root = .stmt t ∨ ∃ b, v.Enters root b ∧ t ∈ v.listed b)
    h.2 ?_ ?_ s hs
  · intro t ht
    cases root with
    | block b => exact .inr ⟨b, .block rfl, ht⟩
    | stmt r => exact .inl (by rw [List.mem_singleton.1 ht])
  · intro p _ hp t ht
    rcases mem_below.1 ht with ⟨c, hc, htc⟩
    rcases hp with heq | ⟨b, hb, hpb⟩
    · exact .inr ⟨c, .child heq hc, htc⟩
    · exact .inr ⟨c, hb.inside hpb hc, htc⟩

/-- A descent that ends does not come to the block of the statement where it starts: it would come
back to that statement from below it. -/
theorem MeetsFrom.not_enters (h : v.MeetsFrom (.stmt t) ss) (ht : t ∈ v.listed b) :
    ¬ v.Enters (.stmt t) b := by
  intro hb
  rcases Visits.singleton_iff.1 h.2 with ⟨_, inner, hinner, rfl⟩
  have hnot : t ∉ inner := Visits.not_mem_below hinner
  rcases h.cases_of_enters hb with heq | ⟨p, hp, hbp⟩
  · cases heq
  · have htp : t ∈ v.below p := mem_below.2 ⟨b, hbp, ht⟩
    rcases List.mem_cons.1 hp with rfl | hp
    · exact hnot (Visits.roots_subset hinner htp)
    · exact hnot (Visits.below_subset hinner hp htp)

theorem MeetsFrom.acyclic (h : v.MeetsFrom root ss) : v.Acyclic root := by
  rintro b hb ⟨t, ht, hback⟩
  rcases Visits.exists_segment h.2 (h.mem_of_enters hb ht) with ⟨_, segment, _, hsegment, _⟩
  have hmeets : v.MeetsFrom (.stmt t) segment := meetsFrom_stmt.2 hsegment
  exact hmeets.not_enters ht hback

/-- A statement has a finite descent if each of its blocks has one. -/
theorem Closed.exists_meets (hclosed : v.Closed) (ht : v.HasStmt t)
    (h : ∀ b ∈ v.children t, ∃ ss, v.Meets (v.listed b) ss) : ∃ ss, v.Meets [t] ss := by
  rcases Visits.exists_flatMap h with ⟨inner, hinner⟩
  exact ⟨_, Visits.singleton_iff.2 ⟨⟨ht, hclosed.hasBlock_of_child t⟩, inner, hinner, rfl⟩⟩

/-- Without a block inside itself the blocks on the way are well founded by what is inside what, as
there are finitely many of them. -/
theorem Acyclic.exists_meets (h : v.Acyclic root) (hclosed : v.Closed) (hroot : v.HasNode root)
    (hb : v.Enters root b) : ∃ ss, v.Meets (v.listed b) ss := by
  let Entered := {b : BlockId // v.Enters root b}
  have hfinite : Finite Entered := by
    refine Finite.of_injective
      (fun b : Entered => (⟨b.1.index, b.2.hasBlock hclosed hroot⟩ : Fin v.blockCount)) ?_
    rintro ⟨⟨i⟩, _⟩ ⟨⟨j⟩, _⟩ heq
    have hij : i = j := Fin.mk.inj_iff.1 heq
    subst hij
    rfl
  let inside : Entered → Entered → Prop := fun c b => v.Inside c.1 b.1
  have htrans : IsTrans Entered inside := ⟨fun _ _ _ hd hc => Inside.trans hd hc⟩
  have hirrefl : Std.Irrefl inside := ⟨fun b => h b.1 b.2⟩
  have hwf : WellFounded inside := Finite.wellFounded_of_trans_of_irrefl inside
  suffices hall : ∀ b : Entered, ∃ ss, v.Meets (v.listed b.1) ss from hall ⟨b, hb⟩
  intro b
  induction b using hwf.induction with
  | _ b ih =>
      refine Visits.exists_of_forall fun t ht => ?_
      refine hclosed.exists_meets (hclosed.hasStmt_of_listed b.1 t ht) fun c hc => ?_
      exact ih ⟨c, b.2.inside ht hc⟩ ⟨t, ht, .child rfl hc⟩

/-- A descent ends exactly if it comes to no block that is inside itself. -/
theorem Closed.exists_meetsFrom_iff (hclosed : v.Closed) (hroot : v.HasNode root) :
    (∃ ss, v.MeetsFrom root ss) ↔ v.Acyclic root := by
  constructor
  · rintro ⟨ss, hmeets⟩
    exact hmeets.acyclic
  · intro h
    cases root with
    | block b =>
        rcases h.exists_meets hclosed hroot (.block rfl) with ⟨ss, hss⟩
        refine ⟨ss, ?_, hss⟩
        rintro c heq
        cases heq
        exact hroot
    | stmt s =>
        rcases hclosed.exists_meets hroot fun b hb =>
          h.exists_meets hclosed hroot (.child rfl hb) with ⟨ss, hss⟩
        exact ⟨ss, meetsFrom_stmt.2 hss⟩

end View

end KernelIR
