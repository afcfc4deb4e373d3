import KernelIR.Proofs.Tree.Cycles

/-!
# Three views of nesting

What is inside a block can be told from below, by climbing from a statement to the blocks around it,
and from above, by a descent through what the statements hold or only through what they own. On a
tree that the check of ownership accepts the three agree. There is one way up from each statement,
it leads to the root of the tree, and it goes through exactly the blocks from which a descent comes
to the statement. No block is on it twice, so the climb ends within the levels that it is granted.
-/

namespace KernelIR

namespace View

/-- The blocks on the way up from the block `c` to `root`, `c` first. -/
inductive Way (v : View) (root : BlockId) : BlockId → List BlockId → Prop
  | root : Way v root root [root]
  | up {b c : BlockId} {t : StmtId} {way : List BlockId} :
      Way v root b way → t ∈ v.listed b → c ∈ v.children t → Way v root c (c :: way)

variable {v : View} {root : BlockId} {node : Node} {b c : BlockId} {s t : StmtId}
  {ss inner : List StmtId} {way : List BlockId}

/-! ## Ways up -/

/-- A descent that comes to a block has gone down a way. -/
theorem Enters.exists_way (h : v.Enters (.block root) c) : ∃ way, v.Way root c way := by
  induction h with
  | block heq =>
      cases heq
      exact ⟨_, .root⟩
  | child heq _ => cases heq
  | inside _ ht hc ih =>
      rcases ih with ⟨way, hway⟩
      exact ⟨_, hway.up ht hc⟩

namespace Way

theorem enters (h : v.Way root c way) : v.Enters (.block root) c := by
  induction h with
  | root => exact .block rfl
  | up _ ht hc ih => exact ih.inside ht hc

theorem enters_of_mem (h : v.Way root c way) (hb : b ∈ way) : v.Enters (.block root) b := by
  induction h with
  | root => exact .block (by rw [List.mem_singleton.1 hb])
  | up hway ht hc ih =>
      rcases List.mem_cons.1 hb with rfl | hb
      · exact hway.enters.inside ht hc
      · exact ih hb

/-- Above the block where a way starts are the blocks that it is inside. -/
theorem eq_or_inside (h : v.Way root c way) (hb : b ∈ way) : b = c ∨ v.Inside c b := by
  induction h with
  | root => exact .inl (List.mem_singleton.1 hb)
  | @up d c t way _ ht hc ih =>
      rcases List.mem_cons.1 hb with rfl | hb
      · exact .inl rfl
      · have hinside : v.Inside c d := ⟨t, ht, .child rfl hc⟩
        rcases ih hb with rfl | hd
        · exact .inr hinside
        · exact .inr (hinside.trans hd)

theorem self_mem (h : v.Way root c way) : c ∈ way := by
  cases h <;> exact List.mem_cons_self

/-- Without a block inside itself a way does not come through any block twice. -/
theorem nodup (h : v.Way root c way) (hacyclic : v.Acyclic (.block root)) : way.Nodup := by
  induction h with
  | root => exact List.nodup_singleton root
  | @up d c t way hway ht hc ih =>
      have hinside : v.Inside c d := ⟨t, ht, .child rfl hc⟩
      have hself := hacyclic c (hway.enters.inside ht hc)
      refine List.nodup_cons.2 ⟨fun hmem => hself ?_, ih⟩
      rcases hway.eq_or_inside hmem with rfl | hback
      · exact hinside
      · exact hinside.trans hback

end Way

/-! ## Descents between blocks -/

theorem Enters.within (h : v.Enters node b) (h' : v.Enters (.block b) c) : v.Enters node c := by
  induction h' with
  | block heq =>
      cases heq
      exact h
  | child heq _ => cases heq
  | inside _ ht hc ih => exact ih.inside ht hc

/-- A descent that ends does so from each block to which it comes. -/
theorem MeetsFrom.exists_meetsFrom (h : v.MeetsFrom node ss) (hb : v.Enters node b)
    (hissued : v.HasBlock b) : ∃ inner, v.MeetsFrom (.block b) inner := by
  have hall : ∃ inner, v.Meets (v.listed b) inner := by
    refine Visits.exists_of_forall fun t ht => ?_
    rcases Visits.exists_segment h.2 (h.mem_of_enters hb ht) with ⟨_, segment, _, hsegment, _⟩
    exact ⟨segment, hsegment⟩
  rcases hall with ⟨inner, hinner⟩
  refine ⟨inner, ?_, hinner⟩
  rintro c heq
  cases heq
  exact hissued

/-! ## Trees in order -/

namespace InOrder

theorem hasBlock (h : v.InOrder (.block root) ss) (hb : v.Enters (.block root) b) :
    v.HasBlock b := by
  rcases h.meets.cases_of_enters hb with heq | ⟨s, hs, hb⟩
  · exact h.meets.1 b heq
  · exact (Visits.enter_of_mem h.meets.2 hs).2 b hb

/-- Every statement names the block where the descent finds it. -/
theorem parent (h : v.InOrder (.block root) ss) (hb : v.Enters (.block root) b)
    (ht : t ∈ v.listed b) : v.parent? t = some b := by
  rcases h.meets.cases_of_enters hb with heq | ⟨s, hs, hb⟩
  · exact h.named b heq t ht
  · exact (h.tidy s hs).named b hb t ht

theorem owner (h : v.InOrder (.block root) ss) (hb : v.Enters (.block root) b)
    (ht : t ∈ v.listed b) (hc : c ∈ v.children t) : v.owner? c = some t :=
  (h.tidy t (h.meets.mem_of_enters hb ht)).owns c hc

/-- What is below a statement of the tree is owned by it. -/
theorem exists_owns (h : v.InOrder node ss) (hs : s ∈ ss) :
    ∃ segment, v.Meets [s] segment ∧ v.Owns s segment := by
  rcases Visits.exists_segment h.meets.2 hs with ⟨front, segment, back, hsegment, rfl⟩
  refine ⟨segment, hsegment, Meets.owns hsegment fun t ht => (h.tidy t ?_).owns⟩
  exact List.mem_append_right front (List.mem_append_left back ht)

/-- The way up from a block to which the descent from `b` comes goes through `b`: parents and owners
leave no other way. -/
theorem mem_way (h : v.InOrder (.block root) ss) (howner : v.owner? root = none)
    (hb : v.Enters (.block root) b) (hc : v.Enters (.block b) c) (hway : v.Way root c way) :
    b ∈ way := by
  induction hc generalizing way with
  | block heq =>
      cases heq
      exact hway.self_mem
  | child heq _ => cases heq
  | @inside d c t hd ht hc ih =>
      have hhere := h.owner (hb.within hd) ht hc
      cases hway with
      | root =>
          rw [howner] at hhere
          cases hhere
      | @up d' _ t' way' hway' ht' hc' =>
          -- The holder of `c` is `t`, and `t` is in no other block than `d`.
          have hholder : some t' = some t := (h.owner hway'.enters ht' hc').symm.trans hhere
          cases hholder
          have hplace : some d' = some d :=
            (h.parent hway'.enters ht').symm.trans (h.parent (hb.within hd) ht)
          cases hplace
          exact List.mem_cons_of_mem c (ih hway')

/-- A statement is met in exactly the blocks on the way up from its own. -/
theorem mem_way_iff (h : v.InOrder (.block root) ss) (howner : v.owner? root = none)
    (hb : v.Enters (.block root) b) (hinner : v.MeetsFrom (.block b) inner)
    (hway : v.Way root c way) (hs : s ∈ v.listed c) : b ∈ way ↔ s ∈ inner := by
  constructor
  · intro hmem
    rcases hway.eq_or_inside hmem with rfl | ⟨t, ht, hc⟩
    · exact Visits.roots_subset hinner.2 hs
    · have hroot : v.Enters (.block b) b := .block rfl
      exact hinner.mem_of_enters (hroot.trans ht hc) hs
  · intro hmem
    rcases hinner.cases_of_mem hmem with heq | ⟨d, hd, hsd⟩
    · cases heq
    · have hplace : some d = some c :=
        (h.parent (hb.within hd) hsd).symm.trans (h.parent hway.enters hs)
      cases hplace
      exact h.mem_way howner hb hd hway

end InOrder

end View

namespace Arena

variable {a : Arena} {root b c : BlockId} {ss : List StmtId} {way : List BlockId} {height : Nat}

/-- No way is longer than there are blocks. -/
theorem length_way_le (h : a.view.InOrder (.block root) ss) (hway : a.view.Way root c way) :
    way.length ≤ a.blocks.size := by
  have hsub : way.toFinset ⊆ a.blockIds := by
    intro b hb
    exact mem_blockIds.2 (h.hasBlock (hway.enters_of_mem (List.mem_toFinset.1 hb)))
  calc
    way.length = way.toFinset.card :=
      (List.toFinset_card_of_nodup (hway.nodup h.meets.acyclic)).symm
    _ ≤ a.blockIds.card := Finset.card_le_card hsub
    _ ≤ a.blocks.size := a.card_blockIds_le

/-- The climb goes along the way and answers whether `b` is on it. -/
theorem climb_eq (h : a.view.InOrder (.block root) ss) (howner : a.view.owner? root = none)
    (hway : a.view.Way root c way) (hheight : way.length ≤ height) :
    a.climb b height (some c) = .ok (decide (b ∈ way)) := by
  induction hway generalizing height with
  | root =>
      rcases height with _ | height
      · simp at hheight
      · have hup := owner_eq_ok.2 ⟨h.hasBlock (.block rfl), howner⟩
        by_cases heq : root = b
        · simp [climb, heq]
        · simp [climb, heq, hup, Ne.symm heq]
  | @up d c t way hway ht hc ih =>
      rcases height with _ | height
      · simp at hheight
      · have hentered := hway.enters
        have hup : a.owner c = .ok (some t) :=
          owner_eq_ok.2 ⟨h.hasBlock (hentered.inside ht hc), h.owner hentered ht hc⟩
        have hissued : a.view.HasStmt t :=
          (Visits.enter_of_mem h.meets.2 (h.meets.mem_of_enters hentered ht)).1
        have hparent : a.parent t = .ok (some d) :=
          parent_eq_ok.2 ⟨hissued, h.parent hentered ht⟩
        by_cases heq : c = b
        · simp [climb, heq]
        · simp [climb, heq, Ne.symm heq, hup, hparent, ih (Nat.le_of_succ_le_succ hheight)]

/-- Let the check of ownership accept the tree at a block that has no owner. Then what a statement
of the tree owns is what the descent from it meets, in the same order, and a block of the tree
encloses a statement of the tree exactly if the descent from the block meets it. -/
theorem nestings_agree (a : Arena) {root : BlockId} (howner : a.owner root = .ok none)
    {report : Report} (hreport : a.ownershipReport (.block root) = .ok report)
    (hok : report.isOk = true) :
    ∃ ss, a.collect (.block root) = .ok ss ∧
      (∀ s ∈ ss, ∃ segment, a.owned s = .ok segment ∧ a.collect (.stmt s) = .ok segment) ∧
      ∀ b, a.view.Enters (.block root) b → ∃ inner, a.collect (.block b) = .ok inner ∧
        ∀ s ∈ ss, a.encloses b s = .ok (decide (s ∈ inner)) := by
  rcases bind_eq_ok.1 hreport with ⟨ownership, hownership, hdone⟩
  cases hdone
  simp only [Report.isOk, List.isEmpty_nil, Bool.and_true, List.isEmpty_iff] at hok
  subst hok
  rcases ownershipDefects_eq_nil_iff.1 hownership with ⟨ss, h⟩
  have hunowned := (owner_eq_ok.1 howner).2
  refine ⟨ss, collect_eq_ok.2 h.meets, ?_, ?_⟩
  · intro s hs
    rcases h.exists_owns hs with ⟨segment, hsegment, howns⟩
    exact ⟨segment, owned_eq_ok.2 howns, collect_eq_ok.2 (View.meetsFrom_stmt.2 hsegment)⟩
  · intro b hb
    rcases h.meets.exists_meetsFrom hb (h.hasBlock hb) with ⟨inner, hinner⟩
    refine ⟨inner, collect_eq_ok.2 hinner, ?_⟩
    intro s hs
    obtain ⟨c, hc, hlisted⟩ : ∃ c, a.view.Enters (.block root) c ∧ s ∈ a.view.listed c := by
      rcases h.meets.cases_of_mem hs with heq | hlisted
      · cases heq
      · exact hlisted
    rcases hc.exists_way with ⟨way, hway⟩
    have hparent : a.parent s = .ok (some c) :=
      parent_eq_ok.2 ⟨(Visits.enter_of_mem h.meets.2 hs).1, h.parent hc hlisted⟩
    have hlength := length_way_le h hway
    calc
      a.encloses b s = a.climb b (a.blocks.size + 1) (some c) := by rw [encloses, hparent, ok_bind]
      _ = .ok (decide (b ∈ way)) := climb_eq h hunowned hway (Nat.le_succ_of_le hlength)
      _ = .ok (decide (s ∈ inner)) := by
        simp only [h.mem_way_iff hunowned hb hinner hway hlisted]

/-- Two loops, one in the other with a constant in it, another constant behind them, and a detached
loop beside the tree. -/
def loopsBesideConst : Arena := ofEdits
  [.createBlock, .createBlock, .createBlock, .createBlock,
    .createStmt (.whileLoop ⟨1⟩) .void, .push ⟨0⟩ ⟨0⟩,
    .createStmt (.whileLoop ⟨2⟩) .void, .push ⟨1⟩ ⟨1⟩,
    .createStmt (.const (.int 1)) .i32, .push ⟨2⟩ ⟨2⟩,
    .createStmt (.const (.int 2)) .i32, .push ⟨0⟩ ⟨3⟩,
    .createStmt (.whileLoop ⟨3⟩) .void]

theorem nestings_agree_in_loops :
    loopsBesideConst.ownershipReport (.block ⟨0⟩) = .ok ⟨[], [], [], []⟩ ∧
      loopsBesideConst.owned ⟨0⟩ = .ok [⟨0⟩, ⟨1⟩, ⟨2⟩] ∧
      loopsBesideConst.encloses ⟨1⟩ ⟨2⟩ = .ok true ∧
      loopsBesideConst.encloses ⟨1⟩ ⟨3⟩ = .ok false := by
  have howner : loopsBesideConst.owner ⟨0⟩ = .ok none := by decide +kernel
  have hreport : loopsBesideConst.ownershipReport (.block ⟨0⟩) = .ok ⟨[], [], [], []⟩ := by
    decide +kernel
  have hcollect : loopsBesideConst.collect (.block ⟨0⟩) = .ok [⟨0⟩, ⟨1⟩, ⟨2⟩, ⟨3⟩] := by
    decide +kernel
  have hloop : loopsBesideConst.collect (.stmt ⟨0⟩) = .ok [⟨0⟩, ⟨1⟩, ⟨2⟩] := by decide +kernel
  have hbody : loopsBesideConst.collect (.block ⟨1⟩) = .ok [⟨1⟩, ⟨2⟩] := by decide +kernel
  have hentered : loopsBesideConst.view.Enters (.block ⟨0⟩) ⟨1⟩ :=
    .inside (t := ⟨0⟩) (.block rfl) (by decide +kernel) (by decide +kernel)
  rcases loopsBesideConst.nestings_agree howner hreport rfl with ⟨ss, hss, howned, hencloses⟩
  cases hcollect.symm.trans hss
  rcases howned ⟨0⟩ (by decide) with ⟨segment, howns, hsegment⟩
  cases hloop.symm.trans hsegment
  rcases hencloses ⟨1⟩ hentered with ⟨inner, hinner, hall⟩
  cases hbody.symm.trans hinner
  exact ⟨hreport, howns, hall ⟨2⟩ (by decide), hall ⟨3⟩ (by decide)⟩

end Arena

end KernelIR
