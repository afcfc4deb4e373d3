import KernelIR.Proofs.Rewrite.Acceptance
import KernelIR.Proofs.Tree.Cycles

/-!
# Replacements inside themselves

A replacement that takes over a block must not go into that block. Whether it does is found out by
climbing from the matched statement through the owners of blocks, while a tree is descended through
the kinds of its statements. The two agree where what is below the replacement owns its blocks. A
block released on the way hides all that encloses it: the replacement is then accepted, and the tree
has no finite descent any more.
-/

namespace KernelIR

namespace View

variable {v v' : View} {root : Node} {s r : StmtId} {b c : BlockId}

/-! ## One statement in the place of another -/

/-- In `v'` the statement `r` is listed where `s` is in `v`, and all else as it is there. -/
structure Exchanged (v v' : View) (s r : StmtId) : Prop where
  children : ∀ t, v'.children t = v.children t
  listed : ∀ c t, t ∈ v'.listed c ↔
    (t = r ∧ v.parent? s = some c) ∨ (t ∈ v.listed c ∧ ¬ (t = s ∧ v.parent? s = some c))

/-- The descent of `v` goes the same way in `v'` until it comes to the block of `s`. -/
theorem Exchanged.enters_or (h : Exchanged v v' s r) (hc : v.Enters root c) :
    v'.Enters root c ∨ ∃ b, v.parent? s = some b ∧ v'.Enters root b := by
  induction hc with
  | block heq => exact .inl (.block heq)
  | child heq hc => exact .inl (.child heq (by rwa [h.children]))
  | @inside b c t _ ht hc ih =>
      rcases ih with hb | hplace
      -- Only in the block of `s` can `t` be missing, and there the way has arrived.
      · by_cases hp : v.parent? s = some b
        · exact .inr ⟨b, hp, hb⟩
        · have ht' : t ∈ v'.listed b := (h.listed b t).2 (.inr ⟨ht, fun hs => hp hs.2⟩)
          exact .inl (hb.inside ht' (by rwa [h.children]))
      · exact .inr hplace

/-- The descent of `v'` comes to nothing new, except through `r` in the block of `s`. -/
theorem Exchanged.of_enters (h : Exchanged v v' s r) (hc : v'.Enters root c) :
    v.Enters root c ∨
      ∃ b, v.parent? s = some b ∧ v.Enters root b ∧ v.Enters (.stmt r) c := by
  induction hc with
  | block heq => exact .inl (.block heq)
  | child heq hc => exact .inl (.child heq (by rwa [← h.children]))
  | @inside b c t _ ht hc ih =>
      rw [h.children] at hc
      rcases (h.listed b t).1 ht with ⟨rfl, hp⟩ | ⟨ht, _⟩
      -- Here the way of `v'` turns into `r`, and the rest of it starts anew from there.
      · refine .inr ⟨b, hp, ?_, .child rfl hc⟩
        rcases ih with hb | ⟨b', hp', hb', _⟩
        · exact hb
        · rw [hp] at hp'
          cases hp'
          exact hb'
      · rcases ih with hb | ⟨b', hp', hb', hb⟩
        · exact .inl (hb.inside ht hc)
        · exact .inr ⟨b', hp', hb', hb.inside ht hc⟩

/-- An exchange puts a block inside itself exactly if the block of `s`, on the way from the root, is
also on the way from `r`. -/
theorem Exchanged.acyclic_iff (h : Exchanged v v' s r) (hroot : v.Acyclic root)
    (hr : v.Acyclic (.stmt r)) : v'.Acyclic root ↔
      ∀ b, v.parent? s = some b → v.Enters root b → ¬ v.Enters (.stmt r) b := by
  constructor
  · intro hacyclic b hp hb hrb
    -- Both ways come to `b` in `v'`, and there `b` lists `r`.
    have harrives : ∀ {n}, v.Enters n b → v'.Enters n b := by
      intro n hn
      rcases h.enters_or hn with hn' | ⟨b', hp', hn'⟩
      · exact hn'
      · rw [hp] at hp'
        cases hp'
        exact hn'
    have hlisted : r ∈ v'.listed b := (h.listed b r).2 (.inl ⟨rfl, hp⟩)
    exact hacyclic b (harrives hb) ⟨r, hlisted, harrives hrb⟩
  · rintro hapart b hb ⟨t, ht, hback⟩
    rcases (h.listed b t).1 ht with ⟨rfl, hp⟩ | ⟨ht, _⟩
    -- The way back starts at `r`, so `b` is the block of `s`.
    · have hrb : v.Enters (.stmt t) b := by
        rcases h.of_enters hback with hrb | ⟨_, _, _, hrb⟩
        · exact hrb
        · exact hrb
      rcases h.of_enters hb with hb | ⟨b', hp', hb', _⟩
      · exact hapart b hp hb hrb
      · rw [hp] at hp'
        cases hp'
        exact hapart b hp hb' hrb
    -- The way back starts as it does in `v`, and if it stays there, `b` was inside itself.
    · rcases h.of_enters hback with hback | ⟨b', hp', hplace, hrb⟩
      · rcases h.of_enters hb with hb | ⟨_, _, _, hrb⟩
        · exact hroot b hb ⟨t, ht, hback⟩
        · exact hr b hrb ⟨t, ht, hback⟩
      · have hrPlace := hrb.trans ht hplace
        rcases h.of_enters hb with hb | ⟨b'', hp'', hb'', _⟩
        · exact hapart b' hp' (hb.trans ht hplace) hrPlace
        · rw [hp'] at hp''
          cases hp''
          exact hapart b' hp' hb'' hrPlace

theorem Linked.exchanged_replaced (h : v.Linked) (s r : StmtId) (doomed : List StmtId) :
    Exchanged v (v.replaced s r doomed) s r := by
  refine ⟨children_replaced v s r doomed, ?_⟩
  intro c t
  cases hp : v.parent? s with
  | none =>
      have hsame : (v.replaced s r doomed).listed c = v.listed c := by
        show (v.settle s r).listed c = _
        rw [settle_of_detached hp]
        rfl
      simp [hsame]
  | some b =>
      rw [h.mem_listed_replaced (h.live_of_parent hp), hp]
      -- Only its own block lists `s`.
      have hs : s ∈ v.listed c → b = c := fun hs => h.listed_once b c s (h.listed_of_parent hp) hs
      refine or_congr Iff.rfl (and_congr_right fun ht => not_congr ?_)
      constructor
      · rintro rfl
        exact ⟨rfl, congrArg some (hs ht)⟩
      · exact And.left

theorem hasNode_replaced {doomed : List StmtId} :
    (v.replaced s r doomed).HasNode root ↔ v.HasNode root := by
  cases root with
  | block b => exact hasBlock_replaced
  | stmt t => exact hasStmt_replaced

end View

namespace Arena

variable {a : Arena} {root : Node} {s r : StmtId} {b : BlockId} {ss rs : List StmtId} {e : Erasure}

/-! ## Climbing -/

/-- From a block below `r` the climb finds a block of `r`, if every block on the way is owned by the
statement that holds it, and every such statement is in the block that lists it. -/
theorem climb_ne_false_of_enters (hlinked : a.view.Linked) (hr : a.view.Placeable r)
    (howns : ∀ b t, a.view.Enters (.stmt r) b → t ∈ a.view.listed b → t ≠ r →
      a.view.erased t = false ∧ ∀ c ∈ a.view.children t, a.view.owner? c = some t)
    (hb : a.view.Enters (.stmt r) b) :
    ∃ c ∈ a.view.children r, ∀ height, a.climb c height (some b) ≠ .ok false := by
  induction hb with
  | block heq => cases heq
  | @child s b heq hb =>
      cases heq
      -- The climb starts at the block that it looks for.
      refine ⟨b, hb, ?_⟩
      rintro (_ | height) hclimb
      · cases hclimb
      · simp [climb] at hclimb
  | @inside b b' t hb ht hb' ih =>
      rcases ih with ⟨c, hc, hfinds⟩
      refine ⟨c, hc, ?_⟩
      have hne : t ≠ r := by
        rintro rfl
        exact hlinked.not_listed hr b ht
      rcases howns b t hb ht hne with ⟨hlive, howner⟩
      have hparent : a.parent t = .ok (some b) :=
        parent_eq_ok.2 ⟨(hlinked.issued_of_listed b t ht).1, (hlinked.parent_iff t hlive b).2 ht⟩
      have hup : a.owner b' = .ok (some t) :=
        owner_eq_ok.2 ⟨hlinked.hasBlock_of_child t b' hb', howner b' hb'⟩
      -- One level up from `b'` is `b`, so a climb that misses from `b'` misses from `b`, too.
      rintro (_ | height) hclimb
      · cases hclimb
      · by_cases heq : b' = c
        · simp [climb, heq] at hclimb
        · simp only [climb, heq, if_false, hup, ok_bind, hparent] at hclimb
          exact hfinds height hclimb

/-- A replacement that holds a block around `s` is refused, if what is below it owns its blocks. -/
theorem not_enters_of_accepted (hlinked : a.view.Linked)
    (haccepted : a.refusal? s r = .ok none)
    (howns : ∀ b t, a.view.Enters (.stmt r) b → t ∈ a.view.listed b → t ≠ r →
      a.view.erased t = false ∧ ∀ c ∈ a.view.children t, a.view.owner? c = some t)
    (hp : a.view.parent? s = some b) : ¬ a.view.Enters (.stmt r) b := by
  intro hb
  rcases not_refused haccepted with ⟨_, hr, _, _, haround⟩
  rcases climb_ne_false_of_enters hlinked hr howns hb with ⟨c, hc, hfinds⟩
  simp only [ownsBlockAround, bind_eq_ok, kind_eq_ok, anyM_eq_ok_false] at haround
  rcases haround with ⟨k, hk, hnone⟩
  rw [View.children_of_kind hk] at hc
  have hmiss := hnone c hc
  have hparent : a.parent s = .ok (some b) :=
    parent_eq_ok.2 ⟨(hlinked.issued_of_listed b s (hlinked.listed_of_parent hp)).1, hp⟩
  rw [encloses, hparent, ok_bind] at hmiss
  exact hfinds _ hmiss

/-! ## Accepted replacements -/

/-- A replacement is accepted and carried out, and both the tree and what the replacement holds had
finite descents. The tree still has one exactly if no block is inside itself, which is to say that
the block of the match, if the tree reaches it, is not below the replacement. Where all that is
below the replacement owns its blocks, acceptance guarantees as much. -/
theorem Arises.ends_iff_of_accepted (h : a.Arises) (haccepted : a.refusal? s r = .ok none)
    (hreplace : a.replace s r = .ok e) (hroot : a.collect root = .ok ss)
    (hr : a.collect (.stmt r) = .ok rs) :
    ((∃ ss', e.arena.collect (root.follow s r) = .ok ss') ↔
        e.arena.view.Acyclic (root.follow s r)) ∧
      (e.arena.view.Acyclic (root.follow s r) ↔
        ∀ b, a.view.parent? s = some b → a.view.Enters (root.follow s r) b →
          ¬ a.view.Enters (.stmt r) b) ∧
      ((∀ t ∈ rs, t ≠ r → a.isErased t = false ∧
          ∀ b ∈ a.view.children t, a.view.owner? b = some t) →
        e.arena.view.Acyclic (root.follow s r)) := by
  have hlinked := h.linked
  have hmeets := collect_eq_ok.1 hroot
  have hmeetsR := collect_eq_ok.1 hr
  rcases replaced_of_replace h hreplace with ⟨_, _, doomed, _, _, hview⟩
  have hexchanged := hlinked.exchanged_replaced s r doomed
  -- The tree starts where it did, or at the replacement.
  have hstart : ∃ ts, a.view.MeetsFrom (root.follow s r) ts := by
    rw [Node.follow]
    split
    · exact ⟨rs, hmeetsR⟩
    · exact ⟨ss, hmeets⟩
  rcases hstart with ⟨ts, hstart⟩
  have hiff := hexchanged.acyclic_iff hstart.acyclic hmeetsR.acyclic
  rw [← hview] at hiff
  refine ⟨?_, hiff, ?_⟩
  · have harises : e.arena.Arises := h.apply (Edit.apply_replace_eq_ok.2 ⟨rfl, e, hreplace, rfl⟩)
    have hnode : e.arena.view.HasNode (root.follow s r) := by
      rw [hview]
      exact View.hasNode_replaced.2 hstart.hasNode
    simp only [collect_eq_ok]
    exact harises.linked.closed.exists_meetsFrom_iff hnode
  · intro howns
    rw [hiff]
    intro b hp _
    refine not_enters_of_accepted hlinked haccepted ?_ hp
    intro c t hc ht hne
    exact howns t (hmeetsR.mem_of_enters hc ht) hne

/-- Two loops, one in the other, and a constant in the inner one. -/
def nestedLoops : Arena := ofEdits
  [.createBlock, .createBlock, .createBlock,
    .createStmt (.whileLoop ⟨1⟩) .void, .push ⟨0⟩ ⟨0⟩,
    .createStmt (.whileLoop ⟨2⟩) .void, .push ⟨1⟩ ⟨1⟩,
    .createStmt (.const (.int 1)) .i32, .push ⟨2⟩ ⟨2⟩]

/-- Both bodies are released, and a new loop takes over the outer one; a new constant, too, is
made. -/
def releasedBodies : Arena := ofEdits
  [.createBlock, .createBlock, .createBlock,
    .createStmt (.whileLoop ⟨1⟩) .void, .push ⟨0⟩ ⟨0⟩,
    .createStmt (.whileLoop ⟨2⟩) .void, .push ⟨1⟩ ⟨1⟩,
    .createStmt (.const (.int 1)) .i32, .push ⟨2⟩ ⟨2⟩,
    .detachBlock ⟨1⟩, .detachBlock ⟨2⟩, .createStmt (.whileLoop ⟨1⟩) .void,
    .createStmt (.const (.int 0)) .i32]

/-- The new loop goes into the constant's place, inside the body that it took over. -/
theorem accepted_inside_itself :
    nestedLoops.validate (.block ⟨0⟩) = .ok ⟨[], [], [], []⟩ ∧
      (Edit.applyAll nestedLoops [.detachBlock ⟨1⟩, .detachBlock ⟨2⟩,
        .createStmt (.whileLoop ⟨1⟩) .void, .createStmt (.const (.int 0)) .i32]).result =
          .ok releasedBodies ∧
      releasedBodies.refusal? ⟨2⟩ ⟨3⟩ = .ok none ∧
      releasedBodies.collect (.block ⟨0⟩) = .ok [⟨0⟩, ⟨1⟩, ⟨2⟩] ∧
      releasedBodies.collect (.stmt ⟨3⟩) = .ok [⟨3⟩, ⟨1⟩, ⟨2⟩] ∧
      (∃ e, releasedBodies.replace ⟨2⟩ ⟨3⟩ = .ok e ∧ ¬ e.arena.view.Acyclic (.block ⟨0⟩) ∧
        ¬ ∃ ss, e.arena.collect (.block ⟨0⟩) = .ok ss) ∧
      ∃ e, releasedBodies.replace ⟨2⟩ ⟨4⟩ = .ok e ∧ e.arena.view.Acyclic (.block ⟨0⟩) := by
  have harises : releasedBodies.Arises := arises_ofEdits _
  have haccepted : releasedBodies.refusal? ⟨2⟩ ⟨3⟩ = .ok none := by decide +kernel
  have hroot : releasedBodies.collect (.block ⟨0⟩) = .ok [⟨0⟩, ⟨1⟩, ⟨2⟩] := by decide +kernel
  have hloop : releasedBodies.collect (.stmt ⟨3⟩) = .ok [⟨3⟩, ⟨1⟩, ⟨2⟩] := by decide +kernel
  refine ⟨by decide +kernel, by decide +kernel, haccepted, hroot, hloop, ?_, ?_⟩
  · have hok : (releasedBodies.replace ⟨2⟩ ⟨3⟩).isOk = true := by decide +kernel
    cases hreplace : releasedBodies.replace ⟨2⟩ ⟨3⟩ with
    | error fault =>
        rw [hreplace] at hok
        cases hok
    | ok e =>
        rcases harises.ends_iff_of_accepted haccepted hreplace hroot hloop with ⟨hends, hapart, _⟩
        have hcyclic : ¬ e.arena.view.Acyclic (.block ⟨0⟩) := by
          intro hacyclic
          -- The block of the constant is reached through the outer loop, and through the new one.
          refine hapart.1 hacyclic ⟨2⟩ (by decide +kernel) ?_ ?_
          · have houter : releasedBodies.view.Enters (.block ⟨0⟩) ⟨1⟩ :=
              .inside (t := ⟨0⟩) (.block rfl) (by decide +kernel) (by decide +kernel)
            exact houter.inside (t := ⟨1⟩) (by decide +kernel) (by decide +kernel)
          · have hbody : releasedBodies.view.Enters (.stmt ⟨3⟩) ⟨1⟩ :=
              .child rfl (by decide +kernel)
            exact hbody.inside (t := ⟨1⟩) (by decide +kernel) (by decide +kernel)
        exact ⟨e, rfl, hcyclic, fun hfinite => hcyclic (hends.1 hfinite)⟩
  · have hok : (releasedBodies.replace ⟨2⟩ ⟨4⟩).isOk = true := by decide +kernel
    have hconst : releasedBodies.collect (.stmt ⟨4⟩) = .ok [⟨4⟩] := by decide +kernel
    cases hreplace : releasedBodies.replace ⟨2⟩ ⟨4⟩ with
    | error fault =>
        rw [hreplace] at hok
        cases hok
    | ok e =>
        rcases harises.ends_iff_of_accepted (by decide +kernel) hreplace hroot hconst with
          ⟨_, _, hguarded⟩
        refine ⟨e, rfl, hguarded fun t ht hne => absurd (List.mem_singleton.1 ht) hne⟩

end Arena

end KernelIR
