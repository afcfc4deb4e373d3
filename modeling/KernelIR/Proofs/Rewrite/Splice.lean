import KernelIR.Proofs.Arena.Replacing
import KernelIR.Proofs.Rewrite.Drafts
import KernelIR.Proofs.Tree.Valid

/-!
# Splicing in a draft

A statement `s` of a valid tree gives way to a replacement `r` that was drafted for it. What the new
tree meets is named by the old one: `r` stands where `s` stood, every other old statement stands
where it stood, and all else is new and holds nothing. So the descent of the new tree ends because
that of the old one did, and what goes with `s` is not met any more.
-/

namespace KernelIR

namespace View

/-- `r` was drafted, from `v` to `v'`, for the statement `s` of the valid tree at `root`, and can
take its place while `doomed` goes. -/
structure Splice (v v' : View) (root : Node) (ss : List StmtId) (s r : StmtId)
    (doomed : List StmtId) : Prop where
  valid : v.Valid root ss
  mem : s ∈ ss
  indexed : v.Indexed
  linked : v.Linked
  linked' : v'.Linked
  keeps : v.Keeps s v'
  fresh : ¬ v.HasStmt r
  leaves : ∀ n, ¬ v.HasStmt n → n ≠ r → v'.children n = []
  reads : ∀ n, ¬ v.HasStmt n → ∀ t ∈ v'.operands n,
    t = s ∨ (v'.erased t = false ∧ v'.parent? t ≠ none)
  placeable : v'.Placeable r
  owns : v'.Owns s doomed
  unread : v'.UnreadBut s doomed

namespace Splice

variable {v v' : View} {root : Node} {ss doomed : List StmtId} {s r t y : StmtId} {b c : BlockId}

theorem hasStmt_of_mem (h : Splice v v' root ss s r doomed) (ht : t ∈ ss) : v.HasStmt t :=
  (Visits.enter_of_mem h.valid.meets.2 ht).1

theorem ne_of_mem (h : Splice v v' root ss s r doomed) (ht : t ∈ ss) : t ≠ r := by
  rintro rfl
  exact h.fresh (h.hasStmt_of_mem ht)

/-- What was in the tree, and what is new, is live before the replacement. -/
theorem live_of_mem (h : Splice v v' root ss s r doomed) (ht : t ∈ ss) : v'.erased t = false := by
  rw [h.keeps.erased]
  exact h.valid.live t ht

theorem live_of_not_hasStmt (h : Splice v v' root ss s r doomed) (ht : ¬ v.HasStmt t) :
    v'.erased t = false := by
  rw [h.keeps.erased]
  exact h.indexed.live_of_not_hasStmt ht

theorem parent_match (h : Splice v v' root ss s r doomed) : v'.parent? s = v.parent? s :=
  h.keeps.parent s (h.hasStmt_of_mem h.mem)

/-- A new statement is listed next to the match only. -/
theorem parent_of_listed_new (h : Splice v v' root ss s r doomed) (ht : ¬ v.HasStmt t)
    (hmem : t ∈ v'.listed c) : v.parent? s = some c :=
  h.keeps.parent_new t c ht ((h.linked'.parent_iff t (h.live_of_not_hasStmt ht) c).2 hmem)

/-! ## What goes -/

/-- What goes besides the match is in a block owned by something that goes. -/
theorem owner_of_doomed (h : Splice v v' root ss s r doomed) (ht : t ∈ doomed) (hne : t ≠ s)
    (hmem : t ∈ v'.listed c) : ∃ q ∈ doomed, v'.owner? c = some q := by
  rcases h.owns.mem_cases ht with hself | ⟨q, hq, b, _, howner, hb⟩
  · exact absurd hself hne
  · exact ⟨q, hq, h.linked'.listed_once b c t hb hmem ▸ howner⟩

/-- The block of the match stays. -/
theorem not_doomed_of_not_hasStmt (h : Splice v v' root ss s r doomed) (ht : ¬ v.HasStmt t) :
    t ∉ doomed := by
  intro hmem
  rcases h.owns.mem_cases hmem with rfl | ⟨q, hq, b, hb, howner, hlisted⟩
  · exact ht (h.hasStmt_of_mem h.mem)
  · have hp : v'.parent? s = some b := h.parent_match.trans (h.parent_of_listed_new ht hlisted)
    refine h.owns.not_mem_ownedChildren (h.linked'.listed_of_parent hp) hq ?_
    exact List.mem_filter.2 ⟨hb, decide_eq_true howner⟩

theorem doomed_subset (h : Splice v v' root ss s r doomed) : doomed ⊆ ss := by
  intro t ht
  refine Visits.forall_mem (P := fun t => t ∈ ss) h.owns ?_ ?_ t ht
  · intro y hy
    exact List.mem_singleton.1 hy ▸ h.mem
  · intro p hp hpTree y hy
    have hyOld : v.HasStmt y := by
      by_contra hnew
      exact h.not_doomed_of_not_hasStmt hnew (Visits.below_subset h.owns hp hy)
    rcases mem_ownedBelow.1 hy with ⟨b, hb, _, hlisted⟩
    rw [h.keeps.children (h.hasStmt_of_mem hpTree)] at hb
    exact h.valid.below_subset hpTree (mem_below.2 ⟨b, hb, (h.keeps.listed b y hyOld).1 hlisted⟩)

theorem not_doomed_of_top (h : Splice v v' root ss s r doomed) (ht : t ∈ v.tops root)
    (hne : t ≠ s) : t ∉ doomed := by
  intro hmem
  have htTree : t ∈ ss := Visits.roots_subset h.valid.meets.2 ht
  rcases h.owns.mem_cases hmem with hself | ⟨q, hq, b, hb, _, hlisted⟩
  · exact hne hself
  · have hqTree := h.doomed_subset hq
    rw [h.keeps.children (h.hasStmt_of_mem hqTree)] at hb
    have hlistedOld := (h.keeps.listed b t (h.hasStmt_of_mem htTree)).1 hlisted
    exact h.valid.not_mem_tops h.linked hqTree (mem_below.2 ⟨b, hb, hlistedOld⟩) ht

/-! ## Where things stand -/

/-- A new statement other than the replacement. -/
structure Leaf (v v' : View) (r n : StmtId) : Prop where
  hasStmt : v'.HasStmt n
  new : ¬ v.HasStmt n
  ne : n ≠ r

/-- A block lists, after the replacement, what it listed before it, and leaves. -/
theorem listed_replaced (h : Splice v v' root ss s r doomed)
    (hy : y ∈ (v'.replaced s r doomed).listed c) :
    Leaf v v' r y ∨ ∃ z ∈ v.listed c, y = turn s r z := by
  rcases (h.linked'.mem_listed_replaced (h.live_of_mem h.mem)).1 hy with ⟨rfl, hp⟩ | ⟨hmem, hne⟩
  · rw [h.parent_match] at hp
    exact .inr ⟨s, h.linked.listed_of_parent hp, (turn_self s y).symm⟩
  -- What is new here was inserted, and the replacement was in no block.
  · by_cases hold : v.HasStmt y
    · exact .inr ⟨y, (h.keeps.listed c y hold).1 hmem, (turn_of_ne hne r).symm⟩
    · refine .inl ⟨(h.linked'.issued_of_listed c y hmem).1, hold, ?_⟩
      rintro rfl
      exact h.linked'.not_listed h.placeable c hmem

/-- A block that was there and is now held by the replacement was held by the match. -/
theorem child_of_child_turn (h : Splice v v' root ss s r doomed) (ht : t ∈ ss)
    (hc : c ∈ v'.children (turn s r t)) (hold : v.HasBlock c) : c ∈ v.children t := by
  by_cases hts : t = s
  · subst hts
    rw [turn_self] at hc
    by_contra hcs
    have howner := h.keeps.owner_new r h.fresh c hc
    rw [h.keeps.owner c hold hcs] at howner
    have hheld := h.linked.child_of_owner c r howner
    rw [h.indexed.children_of_not_hasStmt h.fresh] at hheld
    cases hheld
  · rwa [turn_of_ne hts, h.keeps.children (h.hasStmt_of_mem ht)] at hc

theorem below_replaced (h : Splice v v' root ss s r doomed) (ht : t ∈ ss)
    (hy : y ∈ (v'.replaced s r doomed).below (turn s r t)) :
    Leaf v v' r y ∨ ∃ z ∈ v.below t, y = turn s r z := by
  rcases mem_below.1 hy with ⟨c, hc, hyc⟩
  rw [children_replaced] at hc
  rcases h.listed_replaced hyc with hleaf | ⟨z, hz, rfl⟩
  · exact .inl hleaf
  · have hold := (h.linked.issued_of_listed c z hz).2
    exact .inr ⟨z, mem_below.2 ⟨c, h.child_of_child_turn ht hc hold, hz⟩, rfl⟩

theorem tops_replaced (h : Splice v v' root ss s r doomed)
    (hy : y ∈ (v'.replaced s r doomed).tops (root.follow s r)) :
    Leaf v v' r y ∨ ∃ z ∈ v.tops root, y = turn s r z := by
  cases root with
  | stmt t =>
      refine .inr ⟨t, List.mem_singleton_self t, ?_⟩
      by_cases hts : t = s
      · simp only [Node.follow, hts, if_true, tops, List.mem_singleton] at hy
        rw [hy, hts, turn_self]
      · simp only [Node.follow, Node.stmt.injEq, hts, if_false, tops, List.mem_singleton] at hy
        rw [hy, turn_of_ne hts]
  | block b => exact h.listed_replaced hy

/-! ## The descent still ends -/

theorem resolves_replaced (h : Splice v v' root ss s r doomed) (ht : v'.HasStmt t) :
    (v'.replaced s r doomed).Resolves t :=
  View.resolves_replaced.2 ⟨ht, h.linked'.hasBlock_of_child t⟩

/-- Nothing is below a leaf. -/
theorem meets_leaf (h : Splice v v' root ss s r doomed) (hy : Leaf v v' r y) :
    (v'.replaced s r doomed).Meets [y] [y] := by
  have hnone : (v'.replaced s r doomed).below y = [] := by
    rw [below, children_replaced, h.leaves y hy.new hy.ne, List.flatMap_nil]
  exact Visits.singleton_of_below (h.resolves_replaced hy.hasStmt) hnone

/-- The induction goes upward through the old tree: below what stands where `t` stood there are
leaves, and what stands where something below `t` stood. -/
theorem exists_meets_turn (h : Splice v v' root ss s r doomed) : ∀ t ∈ ss,
    ∃ here, (v'.replaced s r doomed).Meets [turn s r t] here := by
  refine Visits.forall_mem_of_below h.valid.meets.2 ?_
  intro t ht hbelow
  have hinner : ∀ y ∈ (v'.replaced s r doomed).below (turn s r t),
      ∃ here, (v'.replaced s r doomed).Meets [y] here := by
    intro y hy
    rcases h.below_replaced ht hy with hleaf | ⟨z, hz, rfl⟩
    · exact ⟨[y], h.meets_leaf hleaf⟩
    · exact hbelow z hz
  rcases Visits.exists_of_forall hinner with ⟨inner, hmeets⟩
  have hissued : v'.HasStmt (turn s r t) := by
    by_cases hts : t = s
    · rw [hts, turn_self]
      exact h.placeable.hasStmt
    · rw [turn_of_ne hts]
      exact h.keeps.hasStmt t (h.hasStmt_of_mem ht)
  exact ⟨_, Visits.singleton_iff.2 ⟨h.resolves_replaced hissued, inner, hmeets, rfl⟩⟩

theorem exists_meetsFrom (h : Splice v v' root ss s r doomed) :
    ∃ ss', (v'.replaced s r doomed).MeetsFrom (root.follow s r) ss' := by
  have htops : ∀ y ∈ (v'.replaced s r doomed).tops (root.follow s r),
      ∃ here, (v'.replaced s r doomed).Meets [y] here := by
    intro y hy
    rcases h.tops_replaced hy with hleaf | ⟨z, hz, rfl⟩
    · exact ⟨[y], h.meets_leaf hleaf⟩
    · exact h.exists_meets_turn z (Visits.roots_subset h.valid.meets.2 hz)
  rcases Visits.exists_of_forall htops with ⟨ss', hmeets⟩
  refine ⟨ss', ?_, hmeets⟩
  intro b hb
  have hroot : root = .block b := by
    cases root with
    | stmt t =>
        simp only [Node.follow] at hb
        split at hb <;> cases hb
    | block c => exact hb
  exact hasBlock_replaced.2 (h.keeps.hasBlock b (h.valid.meets.1 b hroot))

/-! ## The descent stays with what is kept -/

/-- What the new tree may meet: what is new, and what was in the old tree and does not go. -/
def Kept (v : View) (ss doomed : List StmtId) (t : StmtId) : Prop :=
  ¬ v.HasStmt t ∨ (t ∈ ss ∧ t ∉ doomed)

theorem not_doomed_of_kept (h : Splice v v' root ss s r doomed) (ht : Kept v ss doomed t) :
    t ∉ doomed := by
  rcases ht with hnew | ⟨_, hstays⟩
  · exact h.not_doomed_of_not_hasStmt hnew
  · exact hstays

theorem live_of_kept (h : Splice v v' root ss s r doomed) (ht : Kept v ss doomed t) :
    v'.erased t = false := by
  rcases ht with hnew | ⟨htree, _⟩
  · exact h.live_of_not_hasStmt hnew
  · exact h.live_of_mem htree

/-- Blocks of the match were handed on to what is new, all others are owned as they were. -/
theorem owner_of_kept (h : Splice v v' root ss s r doomed) (ht : Kept v ss doomed t) :
    ∀ b ∈ v'.children t, v'.owner? b = some t := by
  rcases ht with hnew | ⟨htree, hstays⟩
  · exact h.keeps.owner_new t hnew
  · intro b hb
    rw [h.keeps.children (h.hasStmt_of_mem htree)] at hb
    have howner := h.valid.owns t htree b hb
    -- A block of the match would make `t` the match, which goes.
    have hbs : b ∉ v.children s := by
      intro hbs
      rw [h.valid.owns s h.mem b hbs] at howner
      exact hstays (Option.some.inj howner ▸ h.owns.self_mem)
    rw [h.keeps.owner b (h.linked.hasBlock_of_child t b hb) hbs]
    exact howner

/-- Where something kept is below, it is so in a block that goes on being owned by what is kept. -/
theorem kept_below (h : Splice v v' root ss s r doomed) {p : StmtId} (hp : Kept v ss doomed p)
    (hy : y ∈ (v'.replaced s r doomed).below p) : Kept v ss doomed y := by
  rcases mem_below.1 hy with ⟨c, hc, hyc⟩
  rw [children_replaced] at hc
  -- Unless it is a leaf, which holds no block, `p` stands where a statement of the old tree stood.
  have hplace : ∃ t ∈ ss, p = turn s r t := by
    rcases hp with hnew | ⟨htree, hstays⟩
    · by_cases hpr : p = r
      · exact ⟨s, h.mem, hpr.trans (turn_self s r).symm⟩
      · rw [h.leaves p hnew hpr] at hc
        cases hc
    · refine ⟨p, htree, (turn_of_ne ?_ r).symm⟩
      rintro rfl
      exact hstays h.owns.self_mem
  rcases hplace with ⟨t, ht, rfl⟩
  rcases (h.linked'.mem_listed_replaced (h.live_of_mem h.mem)).1 hyc with ⟨rfl, _⟩ | ⟨hmem, hne⟩
  · exact .inl h.fresh
  · by_cases hold : v.HasStmt y
    · have hlisted := (h.keeps.listed c y hold).1 hmem
      have hheld := h.child_of_child_turn ht hc (h.linked.issued_of_listed c y hlisted).2
      refine .inr ⟨h.valid.below_subset ht (mem_below.2 ⟨c, hheld, hlisted⟩), ?_⟩
      intro hgoes
      rcases h.owner_of_doomed hgoes hne hmem with ⟨q, hq, howner⟩
      rw [h.owner_of_kept hp c hc] at howner
      exact h.not_doomed_of_kept hp (Option.some.inj howner ▸ hq)
    · exact .inl hold

theorem kept_of_top (h : Splice v v' root ss s r doomed)
    (hy : y ∈ (v'.replaced s r doomed).tops (root.follow s r)) : Kept v ss doomed y := by
  rcases h.tops_replaced hy with hleaf | ⟨z, hz, rfl⟩
  · exact .inl hleaf.new
  · by_cases hzs : z = s
    · rw [hzs, turn_self]
      exact .inl h.fresh
    · rw [turn_of_ne hzs]
      exact .inr ⟨Visits.roots_subset h.valid.meets.2 hz, h.not_doomed_of_top hz hzs⟩

/-! ## What is read is still there -/

/-- What is read before the replacement is live, and in a block unless the tree starts there. -/
theorem read_of_kept (h : Splice v v' root ss s r doomed) (ht : Kept v ss doomed t) {x : StmtId}
    (hx : x ∈ v'.operands t) :
    v'.HasStmt x ∧ v'.erased x = false ∧ (v'.parent? x = none → root = .stmt x) := by
  rcases ht with hnew | ⟨htree, _⟩
  · rcases h.reads t hnew x hx with rfl | ⟨hlive, hattached⟩
    · refine ⟨h.keeps.hasStmt x (h.hasStmt_of_mem h.mem), h.live_of_mem h.mem, ?_⟩
      rw [h.parent_match]
      exact h.valid.root_of_detached h.linked h.mem
    · rcases Option.ne_none_iff_exists'.1 hattached with ⟨b, hb⟩
      refine ⟨(h.linked'.issued_of_listed b x (h.linked'.listed_of_parent hb)).1, hlive, ?_⟩
      exact fun hnone => absurd hnone hattached
  · rw [h.keeps.operands (h.hasStmt_of_mem htree)] at hx
    rcases h.valid.reads t htree x hx with ⟨hissued, hlive, hroot⟩
    refine ⟨h.keeps.hasStmt x hissued, ?_, ?_⟩
    · rw [h.keeps.erased]
      exact hlive
    · rw [h.keeps.parent x hissued]
      exact hroot

theorem reads_replaced (h : Splice v v' root ss s r doomed) (ht : Kept v ss doomed t) {x : StmtId}
    (hx : x ∈ (v'.replaced s r doomed).operands t) :
    (v'.replaced s r doomed).HasStmt x ∧ (v'.replaced s r doomed).erased x = false ∧
      ((v'.replaced s r doomed).parent? x = none → root.follow s r = .stmt x) := by
  rw [operands_replaced (h.live_of_kept ht), List.mem_map] at hx
  rcases hx with ⟨z, hz, rfl⟩
  rcases h.read_of_kept ht hz with ⟨hissued, hlive, hroot⟩
  have hrStays := h.not_doomed_of_not_hasStmt h.fresh
  by_cases hzs : z = s
  · -- Who read the match reads the replacement, which is in its place.
    subst hzs
    rw [turn_self, hasStmt_replaced, erased_replaced,
      parent_replaced h.placeable hrStays h.owns.self_mem, if_pos rfl]
    refine ⟨h.placeable.hasStmt, by simp [hrStays, h.placeable.live], ?_⟩
    intro hnone
    rw [Node.follow, if_pos (hroot hnone)]
  · -- What goes is read only from within, and the reader is kept.
    have hzStays : z ∉ doomed := by
      intro hgoes
      rcases List.getElem?_of_mem hz with ⟨i, hi⟩
      have hreading : v'.reading? ⟨t, i⟩ = some z :=
        reading?_eq_some.2 ⟨h.live_of_kept ht, hi⟩
      exact h.not_doomed_of_kept ht (h.unread z hgoes hzs ⟨t, i⟩ hreading)
    have hzr : z ≠ r := by
      rintro rfl
      have htop : z ∈ v.tops root := by
        rw [hroot h.placeable.detached]
        exact List.mem_singleton_self z
      exact h.ne_of_mem (Visits.roots_subset h.valid.meets.2 htop) rfl
    rw [turn_of_ne hzs, hasStmt_replaced, erased_replaced,
      parent_replaced h.placeable hzStays h.owns.self_mem, if_neg hzr]
    refine ⟨hissued, by simp [hzStays, hlive], ?_⟩
    intro hnone
    have hne : root ≠ .stmt s := by
      rw [hroot hnone]
      exact fun heq => hzs (Node.stmt.inj heq)
    rw [Node.follow, if_neg hne]
    exact hroot hnone

/-- The new tree is valid. -/
theorem valid_replaced (h : Splice v v' root ss s r doomed) :
    ∃ ss', (v'.replaced s r doomed).Valid (root.follow s r) ss' := by
  rcases h.exists_meetsFrom with ⟨ss', hmeets⟩
  have hkept : ∀ t ∈ ss', Kept v ss doomed t :=
    Visits.forall_mem hmeets.2 (fun _ hy => h.kept_of_top hy) fun _ _ hp _ hy => h.kept_below hp hy
  refine ⟨ss', hmeets, ?_, ?_, ?_⟩
  · intro t ht
    simp [erased_replaced, h.not_doomed_of_kept (hkept t ht), h.live_of_kept (hkept t ht)]
  · intro t ht
    rw [children_replaced, owner_replaced]
    exact h.owner_of_kept (hkept t ht)
  · intro t ht x hx
    exact h.reads_replaced (hkept t ht) hx

end Splice

end View

end KernelIR
