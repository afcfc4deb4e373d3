import KernelIR.Proofs.Rewrite.Acceptance
import KernelIR.Proofs.Rewrite.Additions
import KernelIR.Proofs.Rewrite.Preservation
import KernelIR.Proofs.Tree.Contraction

/-!
# Fresh leaves

A replacement that reads nothing and holds nothing is never refused. Where it takes the place of a
match, all that was below the match goes, and what is left of the tree stands as it stood. So a pass
over the outermost matches goes on behind it as if nothing had happened.
-/

namespace KernelIR

namespace Kind

/-- A kind that reads nothing and holds nothing. -/
structure IsLeaf (k : Kind) : Prop where
  operands : k.operands = []
  children : k.children = []

end Kind

namespace View

variable {v : View} {p : Kind → Bool} {root : Node} {b : BlockId} {m r s t : StmtId} {k : Kind}
  {ty : ScalarType} {xs ss ms ts segment doomed : List StmtId} {n : Nat}

/-! ## A fresh leaf -/

theorem Indexed.operands_createStmt (h : v.Indexed) (hk : k.IsLeaf) (ty : ScalarType) (s : StmtId) :
    (v.createStmt k ty).operands s = v.operands s := by
  by_cases hs : s = ⟨v.stmtCount⟩
  · subst hs
    rw [h.operands_of_not_hasStmt (Nat.lt_irrefl _)]
    simp [operands, View.createStmt, hk.operands]
  · simp [operands, View.createStmt, hs]

theorem Indexed.unreadBut_createStmt (h : v.Indexed) (hk : k.IsLeaf) (ty : ScalarType) :
    (v.createStmt k ty).UnreadBut s doomed ↔ v.UnreadBut s doomed := by
  have hreading : ∀ u, (v.createStmt k ty).reading? u = v.reading? u := by
    intro u
    rw [reading?, h.operands_createStmt hk]
    rfl
  simp only [UnreadBut, hreading]

/-! ## After a replacement -/

theorem hits_replaced (hslots : ∀ k f, p (k.mapSlots f) = p k) (v : View) (m r : StmtId)
    (doomed : List StmtId) (s : StmtId) : (v.replaced m r doomed).hits p s = v.hits p s := by
  -- Of what a kind is only the slots are written.
  simp only [hits, kind_replaced, redirect]
  cases v.erased s with
  | true => rfl
  | false => cases v.kind? s <;> simp [hslots]

/-! ## A leaf in the place of a match -/

/-- In `v'` the leaf `r` stands where `m` stands in `v`, and the test passes for the same statements
otherwise. -/
structure LeafFor (p : Kind → Bool) (v v' : View) (m r : StmtId) : Prop where
  hasBlock : ∀ c, v.HasBlock c → v'.HasBlock c
  listed : ∀ c, v'.listed c = (v.listed c).map (turn m r)
  resolves : ∀ s, v.Resolves s → v'.Resolves s
  below : ∀ s, v'.below s = (v.below s).map (turn m r)
  hits : ∀ s, s ≠ r → v'.hits p s = v.hits p s
  resolves_leaf : v'.Resolves r
  below_leaf : v'.below r = []
  hits_leaf : v'.hits p r = false

namespace LeafFor

variable {v' : View}

/-- What does not come to `m` is as it was. -/
theorem meets (h : LeafFor p v v' m r) (hmeets : v.Meets [s] ss) (hm : m ∉ ss) :
    v'.Meets [s] ss := by
  have hsm : s ≠ m := by
    rintro rfl
    exact hm (Visits.roots_subset hmeets List.mem_cons_self)
  have hrenamed := Visits.rename hmeets hm (fun y hy => turn_of_ne hy r)
    (fun y hy => h.resolves y (Visits.enter_of_mem hmeets hy)) fun y _ => h.below y
  rwa [List.map_singleton, turn_of_ne hsm] at hrenamed

/-- The first match of a pass has given way to the leaf, and the rest of the pass is a pass over the
new tree. -/
theorem contracts (h : LeafFor p v v' m ⟨n⟩) (hmeets : v.MeetsFrom (.block b) ss)
    (hnodup : ss.Nodup) (hfresh : ⟨n⟩ ∉ ss) (hcontracts : v.Contracts p n ss (m :: ms) ts) :
    ∃ ss', v'.MeetsFrom (.block b) ss' ∧ v'.Contracts p (n + 1) ss' ms ts := by
  rcases hcontracts.of_cons with
    ⟨front, segment, rest, ts', rfl, rfl, hfront, _, hsegment, hrest⟩
  rcases Visits.singleton_iff.1 hsegment with ⟨_, inner, hinner, rfl⟩
  have hmem : m ∈ front ++ (m :: inner ++ rest) := by simp
  have hleaf : v'.Meets [⟨n⟩] [⟨n⟩] := Visits.singleton_of_below h.resolves_leaf h.below_leaf
  rcases Visits.exchange hmeets.2 hmem hnodup (fun y hy => turn_of_ne hy ⟨n⟩) (turn_self m ⟨n⟩)
    hleaf (fun y hy => h.resolves y (Visits.enter_of_mem hmeets.2 hy)) (fun y _ => h.below y) with
    ⟨front', segment', back, hsplit, hsegment', hvisits⟩
  -- `m` occurs once, so this splits the tree where the pass does.
  have hnotBehind : m ∉ inner ++ rest := (List.nodup_cons.1 (List.nodup_append.1 hnodup).2.1).1
  have hnotFront : m ∉ front := fun hin =>
    (List.nodup_append.1 hnodup).2.2 m hin m List.mem_cons_self rfl
  rw [← hsegment.unique hsegment'] at hsplit
  rcases (List.append_cons_inj_of_notMem hnotFront hnotBehind).1 hsplit with ⟨rfl, _, hback⟩
  cases List.append_cancel_left hback
  have hnewMeets : v'.MeetsFrom (.block b) (front ++ ⟨n⟩ :: rest) := by
    refine ⟨?_, ?_⟩
    · intro c hc
      exact h.hasBlock c (hmeets.1 c hc)
    · show v'.Meets (v'.listed b) _
      rw [h.listed]
      exact hvisits
  have hsame : ∀ s ∈ front ++ (m :: inner ++ rest), v'.hits p s = v.hits p s := by
    intro s hs
    refine h.hits s ?_
    rintro rfl
    exact hfresh hs
  -- The new pass keeps what is in front and the leaf, and goes on behind the leaf.
  refine ⟨_, hnewMeets, .keep_all ?_ (.keep h.hits_leaf (hrest.congr ?_ ?_))⟩
  · intro s hs
    rw [hsame s (List.mem_append_left _ hs), hfront s hs]
  · intro s hs
    exact hsame s (List.mem_append_right _ (List.mem_append_right _ hs))
  · intro m' segment hsub hsegment'
    exact h.meets hsegment' fun hin => hnotBehind (List.mem_append_right _ (hsub hin))

end LeafFor

/-- A fresh leaf replaces `m`. -/
theorem Indexed.leafFor_replaced (h : v.Indexed) (hslots : ∀ k f, p (k.mapSlots f) = p k)
    (hk : k.IsLeaf) (hpk : p k = false) (hlinked : (v.createStmt k ty).Linked)
    (hm : v.erased m = false) (doomed : List StmtId) :
    LeafFor p v ((v.createStmt k ty).replaced m ⟨v.stmtCount⟩ doomed) m ⟨v.stmtCount⟩ := by
  have hadds := h.adds_createStmt hk.children ty
  have hbelow : ∀ s, ((v.createStmt k ty).replaced m ⟨v.stmtCount⟩ doomed).below s =
      (v.below s).map (turn m ⟨v.stmtCount⟩) := by
    intro s
    rw [hlinked.below_replaced hm, hadds.below]
  have hnone : v.children ⟨v.stmtCount⟩ = [] := h.children_of_not_hasStmt (Nat.lt_irrefl _)
  refine ⟨?_, ?_, ?_, hbelow, ?_, ?_, ?_, ?_⟩
  · exact fun c hc => hasBlock_replaced.2 hc
  · exact fun c => hlinked.listed_replaced hm c
  · exact fun s hs => resolves_replaced.2 (hadds.resolves hs)
  · intro s hs
    rw [hits_replaced hslots]
    simp [View.hits, View.createStmt, hs]
  · refine resolves_replaced.2 ⟨Nat.lt_succ_self _, ?_⟩
    rw [hadds.children, hnone]
    exact List.forall_mem_nil _
  · rw [hbelow, View.below, hnone]
    rfl
  · rw [hits_replaced hslots]
    simp [View.hits, View.createStmt, hpk]

/-- A statement of a valid tree owns all that is below it. -/
theorem Valid.owns_segment (h : v.Valid root ss) (hm : m ∈ ss) (hsegment : v.Meets [m] segment) :
    v.Owns m segment := by
  refine hsegment.owns fun y hy => h.owns y ?_
  exact Visits.subset_of_roots_subset hsegment h.meets.2 (by simpa using hm) hy

theorem Valid.exists_owns (h : v.Valid root ss) (hm : m ∈ ss) : ∃ doomed, v.Owns m doomed := by
  rcases Visits.exists_segment h.meets.2 hm with ⟨_, segment, _, hsegment, _⟩
  exact ⟨segment, h.owns_segment hm hsegment⟩

end View

namespace Arena

variable {a : Arena} {s r : StmtId} {doomed : List StmtId}

/-- Nothing speaks against a fresh leaf. -/
theorem refusal?_leaf (hne : r ≠ s) (hr : a.view.Placeable r) (hreads : a.view.operands r = [])
    (hholds : a.view.children r = []) (howns : a.view.Owns s doomed) :
    a.refusal? s r = .ok none := by
  rcases exists_kind_iff.2 hr.hasStmt with ⟨k, hk⟩
  rcases exists_kind_iff.2 (howns.hasStmt howns.self_mem) with ⟨k', hk'⟩
  rw [View.operands_of_kind hk] at hreads
  rw [View.children_of_kind hk] at hholds
  -- It reads nothing that goes, and holds no block that could be around `s`.
  have hdiscarded : a.readsDiscardedWith s r = .ok false := by
    simp only [readsDiscardedWith, kind_eq_ok.2 hk', kind_eq_ok.2 hk, owned_eq_ok.2 howns, ok_bind,
      hreads]
    split <;> rfl
  have haround : a.ownsBlockAround s r = .ok false := by
    simp only [ownsBlockAround, kind_eq_ok.2 hk, ok_bind, hholds]
    rfl
  simp only [refusal?, hne, isErased_eq, hr.live, parent_eq_ok.2 ⟨hr.hasStmt, hr.detached⟩,
    kind_eq_ok.2 hk, hreads, hdiscarded, haround, ok_bind]
  rfl

/-- Making a leaf is a draft, whatever the match is. -/
theorem Arises.drafted_leaf (h : a.Arises) {k : Kind} {ty : ScalarType} {a' : Arena}
    (hk : k.IsLeaf) (hcreate : a.createStmt k ty = .ok (r, a')) (s : StmtId) :
    a.Drafted s a' r := by
  rcases of_createStmt hcreate with ⟨rfl, _, _, _, hview⟩
  have happly : ((Edit.createStmt k ty).apply a).result = .ok (.stmt ⟨a.view.stmtCount⟩, a') :=
    Edit.apply_createStmt_eq_ok.2 ⟨_, hcreate, rfl⟩
  refine ⟨.edit .start ?_ happly, Nat.lt_irrefl _, ?_, ?_⟩
  · intro b hb
    rw [hk.children] at hb
    cases hb
  · intro n hn _
    rw [hview, (h.indexed.adds_createStmt hk.children ty).children,
      h.indexed.children_of_not_hasStmt hn]
  · intro n hn t ht
    rw [hview, h.indexed.operands_createStmt hk, h.indexed.operands_of_not_hasStmt hn] at ht
    cases ht

/-- A new leaf can be placed, and reads and holds nothing. -/
theorem Arises.created_leaf (h : a.Arises) {k : Kind} {ty : ScalarType} {a' : Arena}
    (hk : k.IsLeaf) (hcreate : a.createStmt k ty = .ok (r, a')) :
    a'.Arises ∧ ¬ a.view.HasStmt r ∧ a'.view.Placeable r ∧ a'.view.operands r = [] ∧
      a'.view.children r = [] := by
  have harises := h.apply (Edit.apply_createStmt_eq_ok.2 ⟨_, hcreate, rfl⟩)
  rcases of_createStmt hcreate with ⟨rfl, _, _, _, hview⟩
  have hfresh : ¬ a.view.HasStmt ⟨a.view.stmtCount⟩ := Nat.lt_irrefl _
  refine ⟨harises, hfresh, ?_, ?_, ?_⟩
  · rw [hview]
    exact ⟨Nat.lt_succ_self _, h.indexed.live_of_not_hasStmt hfresh, parent_of_not_hasStmt hfresh⟩
  · rw [hview, h.indexed.operands_createStmt hk, h.indexed.operands_of_not_hasStmt hfresh]
  · rw [hview, (h.indexed.adds_createStmt hk.children ty).children,
      h.indexed.children_of_not_hasStmt hfresh]

/-- A new leaf is never refused, and it takes the place of a statement exactly if nothing outside
reads what goes with that one. -/
theorem Arises.replace_by_leaf (h : a.Arises) {k : Kind} {ty : ScalarType} {a' : Arena}
    (howns : a.view.Owns s doomed) (hk : k.IsLeaf) (hcreate : a.createStmt k ty = .ok (r, a')) :
    a'.refusal? s r = .ok none ∧
      (a.view.UnreadBut s doomed → ∃ e, a'.replace s r = .ok e ∧
        e.arena.view = (a.view.createStmt k ty).replaced s r doomed) ∧
      (¬ a.view.UnreadBut s doomed →
        ∃ t ∈ doomed, ∃ n, a'.replace s r = .error (.erasedUsed t n)) := by
  rcases h.created_leaf hk hcreate with ⟨harises, hfresh, hplaceable, hreads, hholds⟩
  rcases of_createStmt hcreate with ⟨_, _, _, _, hview⟩
  have hne : r ≠ s := by
    rintro rfl
    exact hfresh (howns.hasStmt howns.self_mem)
  -- Creating the leaf leaves the match with what it owned and with its readers.
  have howns' : a'.view.Owns s doomed := by
    rw [hview]
    exact (h.indexed.adds_createStmt hk.children ty).owns howns
  have hunread : a'.view.UnreadBut s doomed ↔ a.view.UnreadBut s doomed := by
    rw [hview]
    exact h.indexed.unreadBut_createStmt hk ty
  have hclean : ∀ t ∈ a'.view.operands r, t ∉ doomed := by
    rw [hreads]
    exact fun t ht => nomatch ht
  rcases replace_of_owns harises hne.symm hplaceable howns' hclean with ⟨hok, hfault⟩
  refine ⟨refusal?_leaf hne hplaceable hreads hholds howns', ?_, ?_⟩
  · intro hbefore
    rcases hok (hunread.2 hbefore) with ⟨e, he, hafter, _⟩
    exact ⟨e, he, hview ▸ hafter⟩
  · intro hbefore
    exact hfault (mt hunread.1 hbefore)

/-- After a leaf has taken the place of a live statement, the blocks list it there, and the
tombstones are those that were there and what has gone. -/
theorem Arises.links_of_leaf (h : a.Arises) {k : Kind} {ty : ScalarType} {a' : Arena} {e : Erasure}
    (hk : k.IsLeaf) (hcreate : a.createStmt k ty = .ok (r, a')) (hlive : a.view.erased s = false)
    (hview : e.arena.view = (a.view.createStmt k ty).replaced s r doomed) :
    (∀ c, e.arena.view.listed c = (a.view.listed c).map (View.turn s r)) ∧
      ∀ t, e.arena.view.erased t = (decide (t ∈ doomed) || a.view.erased t) := by
  have hlinked := (h.created_leaf hk hcreate).1.linked
  rcases of_createStmt hcreate with ⟨_, _, _, _, hcreated⟩
  rw [hcreated] at hlinked
  rw [hview]
  exact ⟨fun c => hlinked.listed_replaced hlive c, fun t => View.erased_replaced _ s r doomed t⟩

/-- A match that nothing outside reads into gives way to a fresh leaf. -/
theorem Arises.replace_leaf (h : a.Arises) {b : BlockId} {ss segment : List StmtId} {k : Kind}
    {ty : ScalarType} {a' : Arena} (hvalid : a.view.Valid (.block b) ss) (hs : s ∈ ss)
    (hsegment : a.view.Meets [s] segment) (hunread : a.view.UnreadBut s segment) (hk : k.IsLeaf)
    (hcreate : a.createStmt k ty = .ok (r, a')) :
    a'.refusal? s r = .ok none ∧ ∃ e, a'.replace s r = .ok e ∧
      e.arena.view = (a.view.createStmt k ty).replaced s r segment ∧ e.arena.Arises ∧
      ∃ ss', e.arena.view.Valid (.block b) ss' := by
  have howns := hvalid.owns_segment hs hsegment
  rcases h.replace_by_leaf howns hk hcreate with ⟨haccepted, hok, _⟩
  rcases hok hunread with ⟨e, he, hafter⟩
  rcases (h.drafted_leaf hk hcreate s).valid_of_replace h hvalid hs he with ⟨harises, hvalid'⟩
  exact ⟨haccepted, e, he, hafter, harises, hvalid'⟩

end Arena

end KernelIR
