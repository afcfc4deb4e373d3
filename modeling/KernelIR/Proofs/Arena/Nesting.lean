import KernelIR.Proofs.Arena.View
import KernelIR.Proofs.Descent
import KernelIR.Tree.Walk

/-!
# Nesting

Two descents go down an arena. `Meets` goes through every block that a kind names, `Owns` only
through those that the statement still owns. Both are stated of the view and end or do not end
there; the functions of the arena that carry them out answer exactly if they end.
-/

namespace KernelIR

namespace View

variable (v : View)

/-- A descent can go on from `s`: it was created, and so was every block that its kind names. -/
def Resolves (s : StmtId) : Prop :=
  v.HasStmt s ∧ ∀ b ∈ v.children s, v.HasBlock b

/-- The statements in the blocks that `s` names, in order. -/
def below (s : StmtId) : List StmtId :=
  (v.children s).flatMap v.listed

/-- The blocks that `s` names and still owns. -/
def ownedChildren (s : StmtId) : List BlockId :=
  (v.children s).filter fun b => v.owner? b = some s

def ownedBelow (s : StmtId) : List StmtId :=
  (v.ownedChildren s).flatMap v.listed

/-- The descent from `xs` ends and meets `ss`. -/
def Meets (xs ss : List StmtId) : Prop :=
  Visits v.Resolves v.below xs ss

/-- `s` owns `doomed`, itself included: this is what is erased together with it. -/
def Owns (s : StmtId) (doomed : List StmtId) : Prop :=
  Visits v.Resolves v.ownedBelow [s] doomed

/-- Where a descent from a node starts. -/
def tops : Node → List StmtId
  | .block b => v.listed b
  | .stmt s => [s]

/-- The descent from a node ends and meets `ss`. -/
def MeetsFrom (root : Node) (ss : List StmtId) : Prop :=
  (∀ b, root = .block b → v.HasBlock b) ∧ v.Meets (v.tops root) ss

variable {v}

theorem meetsFrom_stmt {s : StmtId} {ss : List StmtId} :
    v.MeetsFrom (.stmt s) ss ↔ v.Meets [s] ss := by
  constructor
  · intro h
    exact h.2
  · intro h
    refine ⟨?_, h⟩
    intro b heq
    cases heq

theorem mem_below {s t : StmtId} : t ∈ v.below s ↔ ∃ b ∈ v.children s, t ∈ v.listed b :=
  List.mem_flatMap

theorem mem_ownedBelow {s t : StmtId} :
    t ∈ v.ownedBelow s ↔ ∃ b ∈ v.children s, v.owner? b = some s ∧ t ∈ v.listed b := by
  simp [ownedBelow, ownedChildren, and_assoc]

/-- Where every statement on the way owns the blocks that it names, the two descents go the same
way. -/
theorem Meets.owns {s : StmtId} {segment : List StmtId} (h : v.Meets [s] segment)
    (howns : ∀ t ∈ segment, ∀ b ∈ v.children t, v.owner? b = some t) : v.Owns s segment := by
  refine Visits.congr h (fun t ht => Visits.enter_of_mem h ht) ?_
  intro t ht
  have hall : v.ownedChildren t = v.children t :=
    List.filter_eq_self.2 fun b hb => decide_eq_true (howns t ht b hb)
  rw [ownedBelow, hall]
  rfl

/-- What is owned by a statement is below it. -/
theorem Owns.subset {s : StmtId} {doomed segment : List StmtId} (h : v.Owns s doomed)
    (hsegment : v.Meets [s] segment) : doomed ⊆ segment := by
  refine Visits.forall_mem h (Visits.roots_subset hsegment) ?_
  intro p _ hp t ht
  rcases mem_ownedBelow.1 ht with ⟨b, hb, _, hmem⟩
  exact Visits.below_subset hsegment hp (mem_below.2 ⟨b, hb, hmem⟩)

theorem Owns.self_mem {s : StmtId} {doomed : List StmtId} (h : v.Owns s doomed) : s ∈ doomed :=
  Visits.roots_subset h List.mem_cons_self

theorem Owns.hasStmt {s t : StmtId} {doomed : List StmtId} (h : v.Owns s doomed)
    (ht : t ∈ doomed) : v.HasStmt t :=
  (Visits.enter_of_mem h ht).1

/-- What is owned besides `s` is in a block that something owned owns. -/
theorem Owns.mem_cases {s t : StmtId} {doomed : List StmtId} (h : v.Owns s doomed)
    (ht : t ∈ doomed) : t = s ∨
      ∃ p ∈ doomed, ∃ b ∈ v.children p, v.owner? b = some p ∧ t ∈ v.listed b := by
  rcases Visits.mem_cases h ht with hroot | ⟨p, hp, hbelow⟩
  · exact .inl (List.mem_singleton.1 hroot)
  · exact .inr ⟨p, hp, mem_ownedBelow.1 hbelow⟩

end View

namespace Arena

variable {a : Arena}

/-! ## Carrying out a descent -/

/-- Descending block by block is descending through all that the blocks list. -/
theorem gather_blocks {f : StmtId → Except Fault (List StmtId)}
    {g : BlockId → Except Fault (List StmtId)} (enterBlock : BlockId → Prop)
    [DecidablePred enterBlock]
    (hg : ∀ b ss, g b = .ok ss ↔ a.view.HasBlock b ∧
      (if enterBlock b then gather f (a.view.listed b) else .ok []) = .ok ss)
    (bs : List BlockId) (ss : List StmtId) :
    gather g bs = .ok ss ↔ (∀ b ∈ bs, a.view.HasBlock b) ∧
      gather f ((bs.filter (enterBlock ·)).flatMap a.view.listed) = .ok ss := by
  induction bs generalizing ss with
  | nil => simp
  | cons b bs ih =>
      simp only [gather_cons_eq_ok, hg, ih, List.forall_mem_cons]
      by_cases hb : enterBlock b
      · simp only [hb, if_true, List.filter_cons, decide_true, List.flatMap_cons, gather_append,
          bind_eq_ok, pure_eq_ok]
        constructor
        · rintro ⟨here, ⟨hissued, hhere⟩, rest, ⟨hall, hrest⟩, rfl⟩
          exact ⟨⟨hissued, hall⟩, here, hhere, rest, hrest, rfl⟩
        · rintro ⟨⟨hissued, hall⟩, here, hhere, rest, hrest, rfl⟩
          exact ⟨here, ⟨hissued, hhere⟩, rest, ⟨hall, hrest⟩, rfl⟩
      · simp only [hb, if_false, List.filter_cons, decide_false, Except.ok.injEq]
        constructor
        · rintro ⟨here, ⟨hissued, rfl⟩, rest, ⟨hall, hrest⟩, rfl⟩
          exact ⟨⟨hissued, hall⟩, hrest⟩
        · rintro ⟨⟨hissued, hall⟩, hrest⟩
          exact ⟨[], ⟨hissued, rfl⟩, ss, ⟨hall, hrest⟩, rfl⟩

theorem descends_collectWithin (a : Arena) :
    Descends a.collectWithin a.view.Resolves a.view.below := by
  refine ⟨fun _ _ h => (nomatch h), fun depth s ss => ?_⟩
  have hblock : ∀ b ss,
      (a.listing b >>= fun stmts => gather (a.collectWithin depth) stmts) = .ok ss ↔
        a.view.HasBlock b ∧
          (if True then gather (a.collectWithin depth) (a.view.listed b) else .ok []) = .ok ss := by
    intro b ss
    simp only [bind_eq_ok, listing_eq_ok, if_true]
    constructor
    · rintro ⟨stmts, ⟨hissued, rfl⟩, h⟩
      exact ⟨hissued, h⟩
    · rintro ⟨hissued, h⟩
      exact ⟨_, ⟨hissued, rfl⟩, h⟩
  -- One level of the function is one step of the descent.
  have hunfold : a.collectWithin (depth + 1) s = a.kind s >>= fun k =>
      gather (fun b => a.listing b >>= fun stmts => gather (a.collectWithin depth) stmts)
        k.children >>= fun inner => pure (s :: inner) := by
    simp [collectWithin, gather]
  simp only [hunfold, bind_eq_ok, gather_blocks (fun _ => True) hblock, kind_eq_ok, pure_eq_ok,
    View.Resolves, ← exists_kind_iff]
  constructor
  · rintro ⟨k, hk, inner, ⟨hissued, hinner⟩, rfl⟩
    refine ⟨⟨⟨k, hk⟩, by rwa [View.children_of_kind hk]⟩, inner, ?_, rfl⟩
    simpa [View.below, View.children_of_kind hk] using hinner
  · rintro ⟨⟨⟨k, hk⟩, hissued⟩, inner, hinner, rfl⟩
    rw [View.children_of_kind hk] at hissued
    refine ⟨k, hk, inner, ⟨hissued, ?_⟩, rfl⟩
    simpa [View.below, View.children_of_kind hk] using hinner

theorem descends_ownedWithin (a : Arena) :
    Descends a.ownedWithin a.view.Resolves a.view.ownedBelow := by
  refine ⟨fun _ _ h => (nomatch h), fun depth s ss => ?_⟩
  have hblock : ∀ b ss, (a.block b >>= fun data =>
      if data.owner = some s then gather (a.ownedWithin depth) data.stmts else pure []) = .ok ss ↔
      a.view.HasBlock b ∧ (if a.view.owner? b = some s
        then gather (a.ownedWithin depth) (a.view.listed b) else .ok []) = .ok ss := by
    intro b ss
    simp only [bind_eq_ok, block_eq_ok]
    constructor
    · rintro ⟨⟨stmts, owner⟩, ⟨hissued, rfl, rfl⟩, h⟩
      exact ⟨hissued, h⟩
    · rintro ⟨hissued, h⟩
      exact ⟨⟨a.view.listed b, a.view.owner? b⟩, ⟨hissued, rfl, rfl⟩, h⟩
  -- Blocks with another owner are passed over, so what is entered is what is owned.
  have hunfold : a.ownedWithin (depth + 1) s = a.kind s >>= fun k =>
      gather (fun b => a.block b >>= fun data =>
          if data.owner = some s then gather (a.ownedWithin depth) data.stmts else pure [])
        k.children >>= fun inner => pure (s :: inner) := by
    simp [ownedWithin, gather]
  simp only [hunfold, bind_eq_ok, gather_blocks (fun b => a.view.owner? b = some s) hblock,
    kind_eq_ok, pure_eq_ok, View.Resolves, ← exists_kind_iff]
  constructor
  · rintro ⟨k, hk, inner, ⟨hissued, hinner⟩, rfl⟩
    refine ⟨⟨⟨k, hk⟩, by rwa [View.children_of_kind hk]⟩, inner, ?_, rfl⟩
    simpa [View.ownedBelow, View.ownedChildren, View.children_of_kind hk] using hinner
  · rintro ⟨⟨⟨k, hk⟩, hissued⟩, inner, hinner, rfl⟩
    rw [View.children_of_kind hk] at hissued
    refine ⟨k, hk, inner, ⟨hissued, ?_⟩, rfl⟩
    simpa [View.ownedBelow, View.ownedChildren, View.children_of_kind hk] using hinner

/-! ## The levels suffice -/

/-- The blocks of an arena. -/
def blockIds (a : Arena) : Finset BlockId :=
  (Finset.range a.blocks.size).image BlockId.mk

theorem mem_blockIds {b : BlockId} : b ∈ a.blockIds ↔ a.view.HasBlock b := by
  rcases b with ⟨i⟩
  simp [blockIds, View.HasBlock, view]

theorem card_blockIds_le (a : Arena) : a.blockIds.card ≤ a.blocks.size :=
  Finset.card_image_le.trans (Finset.card_range a.blocks.size).le

theorem collectWithin_maxDepth_eq_ok {s : StmtId} {ss : List StmtId} :
    a.collectWithin a.maxDepth s = .ok ss ↔ a.view.Meets [s] ss := by
  constructor
  · exact a.descends_collectWithin.visits
  · intro h
    refine a.descends_collectWithin.eq_ok_of_visits a.view.children a.view.listed (fun _ => rfl) h
      ?_ a.card_blockIds_le
    intro t ht b hb
    exact mem_blockIds.2 ((h.enter_of_mem ht).2 b hb)

/-- Erasing finds what a statement owns exactly if that descent ends. -/
theorem owned_eq_ok {s : StmtId} {doomed : List StmtId} :
    a.owned s = .ok doomed ↔ a.view.Owns s doomed := by
  constructor
  · exact a.descends_ownedWithin.visits
  · intro h
    refine a.descends_ownedWithin.eq_ok_of_visits a.view.ownedChildren a.view.listed
      (fun _ => rfl) h ?_ a.card_blockIds_le
    intro t ht b hb
    exact mem_blockIds.2 ((Visits.enter_of_mem h ht).2 b (List.mem_filter.1 hb).1)

/-- Collecting answers exactly if the descent ends, and then with what it meets. -/
theorem collect_eq_ok {root : Node} {ss : List StmtId} :
    a.collect root = .ok ss ↔ a.view.MeetsFrom root ss := by
  cases root with
  | stmt s => simp [collect, View.MeetsFrom, View.tops, collectWithin_maxDepth_eq_ok]
  | block b =>
      have hunfold : a.collect (.block b) =
          a.listing b >>= gather (a.collectWithin a.maxDepth) := rfl
      simp only [hunfold, bind_eq_ok, listing_eq_ok, View.MeetsFrom, View.tops, Node.block.injEq,
        forall_eq']
      constructor
      · rintro ⟨stmts, ⟨hissued, rfl⟩, h⟩
        exact ⟨hissued, a.descends_collectWithin.visits_gather h⟩
      · rintro ⟨hissued, h⟩
        refine ⟨_, ⟨hissued, rfl⟩, Descends.gather_eq_ok_of_forall h fun s _ here hhere _ => ?_⟩
        exact collectWithin_maxDepth_eq_ok.2 hhere

end Arena

end KernelIR
