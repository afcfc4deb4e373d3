import KernelIR.Construction.Program
import KernelIR.Proofs.Construction.Growth
import KernelIR.Proofs.Tree.Rendering
import KernelIR.Proofs.Tree.Valid

/-!
# Programs build trees in order

A program that reads only what it has a handle of, and gives leaves only kinds that name no blocks,
never faults. The tree that it builds is valid and holds everything that was created, in the order
of the handles, so its listing names each statement and each operand by its handle.
-/

namespace KernelIR

namespace Arena

/-- An arena as programs leave it. -/
structure Built (a : Arena) : Prop where
  arises : a.Arises
  orderly : a.view.Orderly

variable {a : Arena} {b : BlockId} {bs : List BlockId}

/-! ## Steps -/

theorem Built.createBlock (h : a.Built) : a.createBlock.2.Built := by
  refine ⟨h.arises.apply (Edit.apply_createBlock_eq_ok.2 ⟨rfl, rfl⟩), ?_⟩
  rw [view_createBlock]
  exact ⟨h.orderly.live, h.orderly.owns, h.orderly.reads⟩

/-- The bodies of a container are the next blocks, and its kind names them. -/
theorem exists_prepare (h : a.Built) (hd : Header) :
    ∃ k a', hd.prepare a = (k, a.view.nextBlocks hd.bodyCount, a') ∧ k.operands = hd.operands ∧
      k.children = a.view.nextBlocks hd.bodyCount ∧ a'.Built ∧
      a'.view = a.view.addBlocks hd.bodyCount := by
  have hone := h.createBlock
  have hview := view_createBlock a
  cases hd with
  | ifElse cond =>
      have hbodies : [a.createBlock.1, a.createBlock.2.createBlock.1] = a.view.nextBlocks 2 := by
        have hsecond : a.createBlock.2.createBlock.1 = ⟨a.blocks.size + 1⟩ :=
          congrArg BlockId.mk (Array.size_push _)
        rw [hsecond]
        rfl
      refine ⟨.ifElse cond a.createBlock.1 (some a.createBlock.2.createBlock.1),
        a.createBlock.2.createBlock.2, ?_, rfl, hbodies, hone.createBlock, ?_⟩
      · rw [Header.bodyCount, ← hbodies]
        rfl
      · rw [view_createBlock, hview]
        rfl
  | ifThen cond => exact ⟨_, _, rfl, rfl, rfl, hone, hview⟩
  | whileLoop => exact ⟨_, _, rfl, rfl, rfl, hone, hview⟩
  | rangeFor start stop => exact ⟨_, _, rfl, rfl, rfl, hone, hview⟩
  | structFor snode => exact ⟨_, _, rfl, rfl, rfl, hone, hview⟩

/-- A statement is put at the end of a block if it reads statements that there are and names
different blocks without an owner. -/
theorem exists_append (h : a.Built) (hb : a.view.HasBlock b) {k : Kind} (ty : ScalarType)
    (hreads : ∀ t ∈ k.operands, a.view.HasStmt t) (hnodup : k.children.Nodup)
    (hfree : ∀ c ∈ k.children, a.view.HasBlock c ∧ a.view.owner? c = none) :
    ∃ a', a.append b k ty = .ok (⟨a.view.stmtCount⟩, a') ∧ a'.Built ∧
      a'.view = (a.view.createStmt k ty).insert b (a.view.listed b).length ⟨a.view.stmtCount⟩ := by
  -- The new statement is detached, so it can be pushed.
  rcases exists_createStmt ty (fun t _ => h.orderly.live t) hnodup hfree with ⟨a₁, hcreate⟩
  rcases of_createStmt hcreate with ⟨_, _, _, _, hview₁⟩
  have harises₁ := h.arises.apply (Edit.apply_createStmt_eq_ok.2 ⟨_, hcreate, rfl⟩)
  have hplaceable : a₁.view.Placeable ⟨a.view.stmtCount⟩ := by
    rw [hview₁]
    exact ⟨Nat.lt_succ_self _, h.orderly.live _, parent_of_not_hasStmt (Nat.lt_irrefl _)⟩
  have hb₁ : a₁.view.HasBlock b := by rwa [hview₁]
  rcases exists_push hplaceable hb₁ with ⟨a₂, hpush⟩
  rcases of_push hpush with ⟨_, _, hview₂⟩
  have harises₂ := harises₁.apply (Edit.apply_push_eq_ok.2 ⟨rfl, hpush⟩)
  have horderly := h.orderly.createStmt ty hreads fun c hc => (hfree c hc).2
  rw [hview₁] at hview₂
  refine ⟨a₂, ?_, ⟨harises₂, ?_⟩, hview₂⟩
  · rw [append, hcreate, ok_bind]
    simp only [hpush, ok_bind]
    rfl
  · rw [hview₂]
    exact ⟨horderly.live, horderly.owns, horderly.reads⟩

theorem exists_resolve {r : Recipe} (h : ∀ t ∈ r.kind.operands, a.view.HasStmt t) :
    ∃ ty, r.resolve a = .ok (r.kind, ty) := by
  have htype : ∀ t ∈ r.kind.operands, ∃ ty, a.type t = .ok ty := fun t ht => by
    rcases exists_type_of_hasStmt (h t ht) with ⟨ty, hty⟩
    exact ⟨ty, type_eq_ok.2 hty⟩
  cases r with
  | unary op x =>
      rcases htype x (List.mem_singleton_self x) with ⟨ty, hty⟩
      cases op with
      | cast ty => exact ⟨ty, rfl⟩
      | _ => exact ⟨ty, by show (a.type x >>= fun ty => pure _) = _; rw [hty]; rfl⟩
  | binary op x y =>
      rcases htype x List.mem_cons_self with ⟨ty, hty⟩
      rw [Recipe.resolve]
      split
      · exact ⟨.i1, rfl⟩
      · exact ⟨ty, by rw [hty]; rfl⟩
  | localLoad ptr | globalLoad ptr =>
      rcases htype ptr (List.mem_singleton_self ptr) with ⟨ty, hty⟩
      exact ⟨ty, by rw [Recipe.resolve, hty]; rfl⟩
  | _ => exact ⟨_, rfl⟩

theorem exists_addLeaf (h : a.Built) (hb : a.view.HasBlock b) {r : Recipe}
    (hreads : ∀ t ∈ r.kind.operands, a.view.HasStmt t) (hholds : r.kind.children = []) :
    ∃ a', a.addLeaf b r = .ok (⟨a.view.stmtCount⟩, a') ∧ a'.Built ∧
      a.view.Opens b [] a'.view := by
  rcases exists_resolve hreads with ⟨ty, hresolve⟩
  rcases exists_append h hb ty hreads (by simp [hholds]) (by simp [hholds]) with
    ⟨a', happend, hbuilt, hview⟩
  refine ⟨a', by rw [addLeaf, hresolve]; exact happend, hbuilt, ?_⟩
  rw [hview]
  exact View.opens_insert (n := 0) h.arises.indexed h.arises.linked hb ty hholds

theorem exists_openContainer (h : a.Built) (hb : a.view.HasBlock b) {hd : Header}
    (hreads : ∀ t ∈ hd.operands, a.view.HasStmt t) :
    ∃ a', a.openContainer b hd =
        .ok (⟨⟨a.view.stmtCount⟩, a.view.nextBlocks hd.bodyCount⟩, a') ∧
      a'.Built ∧ a.view.Opens b (a.view.nextBlocks hd.bodyCount) a'.view := by
  rcases exists_prepare h hd with ⟨k, a₁, hprepare, hoperands, hchildren, hbuilt₁, hview₁⟩
  have hb₁ : a₁.view.HasBlock b := by
    rw [hview₁]
    exact Nat.lt_of_lt_of_le hb (Nat.le_add_right _ _)
  have hfree : ∀ c ∈ k.children, a₁.view.HasBlock c ∧ a₁.view.owner? c = none := by
    intro c hc
    rw [hchildren] at hc
    rcases View.mem_nextBlocks.1 hc with ⟨hnew, hissued⟩
    rw [hview₁]
    refine ⟨hissued, ?_⟩
    -- A block that was not created has no owner.
    by_contra howner
    rcases Option.ne_none_iff_exists'.1 howner with ⟨s, hs⟩
    exact hnew (h.arises.linked.hasBlock_of_child s c (h.arises.linked.child_of_owner c s hs))
  have hnodup : k.children.Nodup := hchildren ▸ View.nodup_nextBlocks _ _
  rcases exists_append hbuilt₁ hb₁ .void (by rwa [hoperands, hview₁]) hnodup hfree with
    ⟨a', happend, hbuilt, hview⟩
  rw [hview₁] at happend hview
  refine ⟨a', ?_, hbuilt, ?_⟩
  · rw [openContainer, hprepare]
    show (a₁.append b k .void >>= fun added => pure _) = _
    rw [happend]
    rfl
  · rw [hview]
    exact View.opens_insert h.arises.indexed h.arises.linked hb .void hchildren

/-! ## Fillers -/

/-- At the end of any block, of an arena with `n` statements, `f` puts statements with `size` new
ones in all. -/
def Appends (f : Filler) (n size : Nat) : Prop :=
  ∀ a b, a.Built → a.view.HasBlock b → a.view.stmtCount = n →
    ∃ a', f b a = .ok a' ∧ a'.Built ∧ a.view.Grows [b] size a'.view

/-- The fillers do so one after another, the first of them with `n` statements. -/
inductive AppendInTurn : List Filler → Nat → Nat → Prop
  | nil (n : Nat) : AppendInTurn [] n 0
  | cons {f : Filler} {fs : List Filler} {n m k : Nat} :
      Appends f n m → AppendInTurn fs (n + m) k → AppendInTurn (f :: fs) n (m + k)

namespace Appends

variable {f g : Filler} {n m k : Nat}

theorem done (n : Nat) : Appends (fun _ a => pure a) n 0 :=
  fun a b h _ _ => ⟨a, rfl, h, View.Grows.refl h.arises.indexed [b]⟩

theorem trans (hf : Appends f n m) (hg : Appends g (n + m) k) :
    Appends (fun b a => f b a >>= g b) n (m + k) := by
  intro a b h hb hcount
  rcases hf a b h hb hcount with ⟨a₁, hfirst, hbuilt₁, hgrows₁⟩
  rcases hg a₁ b hbuilt₁ (hgrows₁.hasBlock hb) (by rw [hgrows₁.stmtCount, hcount]) with
    ⟨a₂, hsecond, hbuilt₂, hgrows₂⟩
  exact ⟨a₂, bind_eq_ok.2 ⟨a₁, hfirst, hsecond⟩, hbuilt₂, hgrows₁.trans hgrows₂ hb⟩

theorem leaf {r : Recipe} (hreads : ∀ t ∈ r.kind.operands, t.index < n)
    (hholds : r.kind.children = []) : Appends (putLeaf r) n 1 := by
  intro a b h hb hcount
  subst hcount
  rcases exists_addLeaf h hb hreads hholds with ⟨a₁, hadd, hbuilt, hopens⟩
  exact ⟨a₁, bind_eq_ok.2 ⟨_, hadd, rfl⟩, hbuilt, hopens.grows (.refl hbuilt.arises.indexed []) hb⟩

end Appends

/-- Fillers that take their turns fill different blocks. -/
theorem AppendInTurn.exists_fill {fs : List Filler} {n size : Nat} (hfs : AppendInTurn fs n size)
    (h : a.Built) (hcount : a.view.stmtCount = n) (hlength : bs.length = fs.length)
    (hnodup : bs.Nodup) (hblocks : ∀ c ∈ bs, a.view.HasBlock c) :
    ∃ a', fill fs bs a = .ok a' ∧ a'.Built ∧ a.view.Grows bs size a'.view := by
  induction hfs generalizing a bs with
  | nil n =>
      rw [List.length_eq_zero_iff.1 hlength]
      exact ⟨a, rfl, h, .refl h.arises.indexed []⟩
  | @cons f fs n m k hf _ ih =>
      rcases List.exists_cons_of_length_eq_add_one hlength with ⟨b, bs, rfl⟩
      rcases List.nodup_cons.1 hnodup with ⟨hb, hbs⟩
      rcases List.forall_mem_cons.1 hblocks with ⟨hissued, hrest⟩
      rcases hf a b h hissued hcount with ⟨a₁, hfirst, hbuilt₁, hgrows₁⟩
      rcases ih hbuilt₁ (by rw [hgrows₁.stmtCount, hcount]) (by simpa using hlength) hbs
        (fun c hc => hgrows₁.hasBlock (hrest c hc)) with ⟨a₂, hfill, hbuilt₂, hgrows₂⟩
      exact ⟨a₂, by rw [fill, hfirst, ok_bind, hfill], hbuilt₂, hgrows₁.cons hgrows₂ hb hblocks⟩

/-- A container and the fillings of its bodies. -/
theorem Appends.enclose {hd : Header} {fs : List Filler} {n size : Nat}
    (hreads : ∀ t ∈ hd.operands, t.index < n) (hfs : AppendInTurn fs (n + 1) size)
    (hlength : fs.length = hd.bodyCount) : Appends (enclose hd fs) n (1 + size) := by
  intro a b h hb hcount
  subst hcount
  rcases exists_openContainer h hb hreads with ⟨a₁, hopen, hbuilt₁, hopens⟩
  rcases hfs.exists_fill hbuilt₁ hopens.stmtCount (by simp [View.nextBlocks, hlength])
    (View.nodup_nextBlocks _ _) (fun c hc => (hopens.bodies c hc).2.1) with
    ⟨a₂, hfill, hbuilt₂, hgrows⟩
  exact ⟨a₂, by rw [Arena.enclose, hopen]; exact hfill, hbuilt₂, hopens.grows hgrows hb⟩

end Arena

/-! ## Programs -/

namespace Program

theorem appends (p : Program) {n : Nat} (hscoped : p.Scoped n) (hleaves : p.LeavesHoldNothing) :
    Arena.Appends p.run n p.size := by
  induction p generalizing n with
  | done => exact .done n
  | leaf r rest ih =>
      have hleaf := Arena.Appends.leaf hscoped.1 hleaves.1
      exact hleaf.trans (ih hscoped.2 hleaves.2)
  | enclose c body rest ihBody ihRest =>
      -- The body starts after its container, and the rest after the body.
      rcases hscoped with ⟨hreads, hbody, hrest⟩
      have hbodies : Arena.AppendInTurn [body.run] (n + 1) (body.size + 0) :=
        .cons (ihBody hbody hleaves.1) (.nil _)
      have hcontainer : Arena.Appends (Arena.enclose c.header [body.run]) n (1 + body.size) :=
        .enclose hreads hbodies (by cases c <;> rfl)
      exact hcontainer.trans (ihRest (by rwa [← Nat.add_assoc]) hleaves.2)
  | branch cond thenBody elseBody rest ihThen ihElse ihRest =>
      rcases hscoped with ⟨hcond, hthen, helse, hrest⟩
      have hbodies : Arena.AppendInTurn [thenBody.run, elseBody.run] (n + 1)
          (thenBody.size + (elseBody.size + 0)) :=
        .cons (ihThen hthen hleaves.1) (.cons (ihElse helse hleaves.2.1) (.nil _))
      have hcontainer : Arena.Appends
          (Arena.enclose (.ifElse cond) [thenBody.run, elseBody.run]) n
          (1 + thenBody.size + elseBody.size) := by
        rw [Nat.add_assoc]
        exact .enclose (by simpa [Header.operands] using hcond) hbodies rfl
      exact hcontainer.trans (ihRest (by rwa [← Nat.add_assoc, ← Nat.add_assoc]) hleaves.2.2)

end Program

/-! ## Names by handle -/

/-- Every statement is numbered and written by its handle. -/
def Naming.byHandle : Naming where
  number := StmtId.index
  operand _ t := "%" ++ toString t.index

/-- Statements that are met in the order of their handles have these as numbers, and what they read
has its number by then. -/
theorem Naming.follows_byHandle {a : Arena} (h : a.view.Orderly) (n : Nat) :
    Naming.byHandle.Follows a (handles 0 n) := by
  intro done s rest hss
  have hat : (handles 0 n)[done.length]? = some s := by simp [hss]
  have hlength : done.length < n := by
    have hn : (handles 0 n).length = n := by simp [handles]
    rw [← hn, hss]
    simp
  rw [getElem?_handles hlength] at hat
  cases hat
  refine ⟨rfl, fun t ht => ?_⟩
  have hbefore : t.index < done.length := h.reads _ t ht
  -- `t` is in its place among the statements met so far.
  have hplace : (done ++ [(⟨done.length⟩ : StmtId)])[t.index]? = some t := by
    have hsame : (handles 0 n)[t.index]? = some t := getElem?_handles (hbefore.trans hlength)
    rw [hss, List.getElem?_append_left hbefore] at hsame
    rw [List.getElem?_append_left hbefore, hsame]
  have hnodup : (done ++ [(⟨done.length⟩ : StmtId)]).Nodup := by
    have hall := nodup_handles 0 n
    rw [hss, List.append_cons] at hall
    exact (List.nodup_append.1 hall).1
  rw [Arena.nameIn, idxOf?_of_getElem? hnodup hplace, Arena.isErased_eq, h.live]
  rfl

/-! ## Trees in order -/

theorem Arena.built_empty : Arena.empty.Built := by
  refine ⟨⟨[], rfl⟩, ?_⟩
  rw [Arena.view_empty]
  refine ⟨?_, ?_, ?_⟩ <;> simp [View.children, View.operands]

/-- If the descent from a block meets every statement, the tree there is valid. -/
theorem Arena.Built.valid {a : Arena} (h : a.Built) {b : BlockId} (hb : a.view.HasBlock b)
    (hmeets : a.view.Meets (a.view.listed b) (handles 0 a.view.stmtCount)) :
    a.view.Valid (.block b) (handles 0 a.view.stmtCount) := by
  have hfrom : a.view.MeetsFrom (.block b) (handles 0 a.view.stmtCount) := by
    refine ⟨?_, hmeets⟩
    rintro c hc
    exact Node.block.inj hc ▸ hb
  have hmem : ∀ t, t ∈ handles 0 a.view.stmtCount ↔ a.view.HasStmt t := by
    intro t
    simp [mem_handles, View.HasStmt]
  refine ⟨hfrom, fun s _ => h.orderly.live s, fun s _ => h.orderly.owns s, fun s hs t ht => ?_⟩
  have hissued : a.view.HasStmt t := (h.orderly.reads s t ht).trans ((hmem s).1 hs)
  refine ⟨hissued, h.orderly.live t, fun hdetached => ?_⟩
  -- What the descent meets some block lists, so `t` has a parent.
  have hlisted : ∃ c, t ∈ a.view.listed c := by
    rcases Visits.mem_cases hmeets ((hmem t).2 hissued) with htop | ⟨p, _, hbelow⟩
    · exact ⟨b, htop⟩
    · rcases View.mem_below.1 hbelow with ⟨c, _, hc⟩
      exact ⟨c, hc⟩
  rcases hlisted with ⟨c, hc⟩
  rw [(h.arises.linked.parent_iff t (h.orderly.live t) c).2 hc] at hdetached
  cases hdetached

namespace Program

/-- A program that reads what it has a handle of, and gives leaves only kinds that name no blocks,
is carried out without a fault. Its tree is valid and meets all that was created in the order of the
handles, and the listing names every statement and every operand by its handle. -/
theorem build_in_order (p : Program) (hscoped : p.Scoped 0) (hleaves : p.LeavesHoldNothing) :
    ∃ a lines, p.build = .ok a ∧ a.stmts.size = p.size ∧ a.Passes (.block ⟨0⟩) ∧
      a.collect (.block ⟨0⟩) = .ok (handles 0 a.stmts.size) ∧
      a.render Naming.byHandle (.block ⟨0⟩) = .ok lines ∧
      a.print (.block ⟨0⟩) = .ok (String.join (lines.map (· ++ "\n"))) := by
  have hroot : Arena.empty.createBlock.2.view.HasBlock ⟨0⟩ := by decide
  rcases p.appends hscoped hleaves _ ⟨0⟩ Arena.built_empty.createBlock hroot rfl with
    ⟨a, hrun, hbuilt, hgrows⟩
  have hsize : a.view.stmtCount = p.size := by
    rw [hgrows.stmtCount]
    exact Nat.zero_add _
  rcases hgrows.appended with ⟨added, hadded, hmeets⟩
  have hlisted : a.view.listed ⟨0⟩ = added ⟨0⟩ := hadded ⟨0⟩ List.mem_cons_self
  have hall : a.view.Meets (a.view.listed ⟨0⟩) (handles 0 a.view.stmtCount) := by
    rw [List.flatMap_singleton] at hmeets
    rw [hlisted, hsize]
    exact hmeets
  have hvalid := hbuilt.valid (hgrows.hasBlock hroot) hall
  have hcollect := Arena.collect_eq_ok.2 hvalid.meets
  rcases Arena.lines_eq_render (Naming.follows_byHandle hbuilt.orderly _) (nodup_handles 0 _)
    hcollect with ⟨lines, hrender, hlines⟩
  refine ⟨a, lines, hrun, hsize, hbuilt.arises.passes_of_valid hvalid, hcollect, hrender, ?_⟩
  rw [Arena.print, hlines]
  rfl

/-- A loop around a branch whose second body reads what the first one created, and a reader of the
loop's body after the loop. -/
def countdown : Program :=
  .leaf (.constI32 0) <| .leaf (.constI32 4) <| .leaf (.constBool true) <|
    .enclose (.rangeFor ⟨0⟩ ⟨1⟩)
      (.leaf (.loopIndex ⟨3⟩ 0) <|
        .branch ⟨2⟩
          (.leaf (.binary .sub ⟨1⟩ ⟨4⟩) .done)
          (.enclose .whileLoop (.leaf (.print ⟨6⟩) .done) .done)
          .done) <|
    .leaf (.print ⟨4⟩) .done

theorem build_in_order_countdown : countdown.Scoped 0 ∧ countdown.LeavesHoldNothing ∧
    ∃ a lines, countdown.build = .ok a ∧ a.stmts.size = 10 ∧ a.Passes (.block ⟨0⟩) ∧
      a.collect (.block ⟨0⟩) = .ok (handles 0 a.stmts.size) ∧
      a.render Naming.byHandle (.block ⟨0⟩) = .ok lines ∧
      a.print (.block ⟨0⟩) = .ok (String.join (lines.map (· ++ "\n"))) :=
  ⟨by decide, by decide, build_in_order countdown (by decide) (by decide)⟩

example : (do (← countdown.build).lines (.block ⟨0⟩) : Except Fault (List String)) =
    .ok ["%0 = const 0 : i32", "%1 = const 4 : i32", "%2 = const true : i1",
      "%3 = range_for %0, %1 \x7b", "  %4 = loop_index %3, 0 : i32", "  %5 = if %2 \x7b",
      "    %6 = sub %1, %4 : i32", "  \x7d else \x7b", "    %7 = while \x7b",
      "      %8 = print %6", "    \x7d", "  \x7d", "\x7d", "%9 = print %4"] := by
  decide +kernel

/-- A loop, and a leaf that is a loop with the body of the first. -/
def sharedBody : Program :=
  .enclose .whileLoop .done <| .leaf (.ofKind (.whileLoop ⟨1⟩) .void) .done

/-- The condition on leaves is needed: a leaf can name a block that a container holds, and there is
a fault since that block has an owner. -/
theorem build_sharedBody :
    sharedBody.Scoped 0 ∧ sharedBody.build = .error (.blockOwned ⟨1⟩ ⟨0⟩ ⟨1⟩) :=
  ⟨by decide, by rfl⟩

end Program

end KernelIR
