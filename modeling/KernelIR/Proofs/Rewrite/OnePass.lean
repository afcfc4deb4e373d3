import KernelIR.Proofs.Rewrite.Bounds
import KernelIR.Proofs.Rewrite.Leaves

/-!
# Runs as one pass

A rule that tests the kind of a statement only, and replaces it by a fresh statement that reads and
holds nothing and does not pass itself, rewrites a tree in one pass over its outermost matches: each
round replaces the first of them, and what is left to be done is the same pass over the new tree.
So what the pass leaves is known before the run starts, and each round only gets closer to it.
-/

namespace KernelIR

namespace Rule

variable {σ : Type} {rule : Rule σ} {options : RunOptions} {x y : Position σ} {p : Kind → Bool}
  {b : BlockId} {m r : StmtId} {ss ms ts : List StmtId}

/-! ## Renaming -/

/-- Each of the matches `ms` renamed to the handle that a pass gives its replacement, from `n`
on. -/
def renamed (n : Nat) (ms : List StmtId) (t : StmtId) : StmtId :=
  (ms.idxOf? t).elim t fun i => ⟨n + i⟩

theorem renamed_nil (n : Nat) : renamed n [] = id :=
  rfl

/-- Renaming the first match and then the others is renaming them all, as no match has a handle that
the pass gives. -/
theorem renamed_cons {n : Nat} (hfresh : ⟨n⟩ ∉ ms) (t : StmtId) :
    renamed (n + 1) ms (View.turn m ⟨n⟩ t) = renamed n (m :: ms) t := by
  by_cases htm : t = m
  · subst htm
    have hnone : ms.idxOf? (⟨n⟩ : StmtId) = none := List.idxOf?_eq_none_iff.2 hfresh
    simp [renamed, List.idxOf?_cons, hnone]
  · have hmt : ¬ m = t := fun heq => htm heq.symm
    rw [View.turn_of_ne htm]
    simp only [renamed, List.idxOf?_cons, beq_iff_eq, hmt, if_false]
    cases ms.idxOf? t with
    | none => rfl
    | some i => simp [Nat.add_assoc, Nat.add_comm 1]

/-! ## Rules for kinds -/

/-- What the test answers is said by the kind of the statement. Its state may change. -/
def TestsKind (rule : Rule σ) (p : Kind → Bool) : Prop :=
  ∀ a s k st, a.kind s = .ok k → ∃ st', (rule.test a s).run st = .ok (p k, st')

/-- The generator makes a leaf that does not pass, and does nothing else. -/
def MakesLeaf (rule : Rule σ) (p : Kind → Bool) (a : Arena) (st : σ) : Prop :=
  ∃ k ty r a' st', k.IsLeaf ∧ p k = false ∧ a.createStmt k ty = .ok (r, a') ∧
    ((rule.generate a).run st).result = .ok ((.ok r, a'), st')

/-- Wherever a run from `x` comes to a match, the generator makes a leaf. -/
def LeavesFrom (rule : Rule σ) (options : RunOptions) (p : Kind → Bool) (x : Position σ) : Prop :=
  ∀ y s st, rule.Reaches options x y →
    (rule.findMatch y.arena y.root).run y.state = .ok (some s, st) → rule.MakesLeaf p y.arena st

theorem TestsKind.findMatch (h : rule.TestsKind p) {a : Arena} {root : Node}
    (hmeets : a.view.MeetsFrom root ss) (st : σ) :
    ∃ st', (rule.findMatch a root).run st = .ok (ss.find? (a.view.hits p), st') := by
  -- The traversal scans the statements in pre-order, and each answer is that of its kind.
  rw [findMatch_eq_scan hmeets]
  have hissued : ∀ s ∈ ss, a.view.HasStmt s := fun s hs => (Visits.enter_of_mem hmeets.2 hs).1
  clear hmeets
  induction ss generalizing st with
  | nil => exact ⟨st, rfl⟩
  | cons s ss ih =>
      rcases List.forall_mem_cons.1 hissued with ⟨hs, hissued⟩
      rcases Arena.exists_kind_iff.2 hs with ⟨k, hk⟩
      rcases h a s k st (Arena.kind_eq_ok.2 hk) with ⟨st₁, htest⟩
      have hhits : a.view.hits p s = p k := by simp [View.hits, hk]
      rw [scan_cons, StateT.run_bind, htest, List.find?_cons, hhits]
      cases p k with
      | true => exact ⟨st₁, rfl⟩
      | false => exact ih st₁ hissued

/-- Below its bound a round whose replacement is accepted comes to what the replacing comes to. -/
theorem roundAt_of_accepted (hallows : options.Allows x.replacements) {st st' : σ} {a' : Arena}
    (hfind : (rule.findMatch x.arena x.root).run x.state = .ok (some m, st))
    (hm : x.arena.view.HasStmt m)
    (hgenerate : ((rule.generate x.arena).run st).result = .ok ((.ok r, a'), st'))
    (haccepted : a'.refusal? m r = .ok none) :
    rule.roundAt options x = (a'.replace m r).map fun e => .replaced m r e.arena st' := by
  rcases Arena.exists_kind_iff.2 hm with ⟨k, hk⟩
  have hreport : (reportMatch x.arena m).result = .ok () := by
    rw [reportMatch, Arena.kind_eq_ok.2 hk]
    rfl
  rw [roundAt, round_of_allows hallows, Rule.round, Logged.bind_of_ok hfind]
  simp only [Logged.result_bind, hreport, ok_bind]
  exact substitute_of_accepted hgenerate haccepted

/-! ## The pass, round by round -/

/-- A position of a run that has the matches `ms` of its tree `ss` still to replace, which will
leave `ts`. -/
structure Stage (p : Kind → Bool) (b : BlockId) (ts : List StmtId) (x : Position σ)
    (ss ms : List StmtId) : Prop where
  root : x.root = .block b
  arises : x.arena.Arises
  valid : x.arena.view.Valid (.block b) ss
  contracts : x.arena.view.Contracts p x.arena.view.stmtCount ss ms ts
  unread : ∀ m ∈ ms, ∀ segment, x.arena.view.Meets [m] segment →
    x.arena.view.UnreadBut m segment

/-- What is live in `a'` is live in `a`, and what it reads is renamed by `f`. -/
def Renames (a a' : Arena) (f : StmtId → StmtId) : Prop :=
  ∀ s, a'.view.erased s = false →
    a.view.erased s = false ∧ a'.view.operands s = (a.view.operands s).map f

/-- Each round of the run is one round of the pass. -/
theorem Stage.next (h : Stage p b ts x ss (m :: ms)) (hslots : ∀ k f, p (k.mapSlots f) = p k)
    (htest : rule.TestsKind p) (hbound : options.maxRestarts = none)
    (hleaves : rule.LeavesFrom options p x) :
    ∃ y ss', rule.roundAt options x =
        .ok (.replaced m ⟨x.arena.view.stmtCount⟩ y.arena y.state) ∧
      rule.Next options x y ∧ y.replacements = x.replacements + 1 ∧
      y.arena.view.stmtCount = x.arena.view.stmtCount + 1 ∧ Stage p b ts y ss' ms ∧
      Renames x.arena y.arena (View.turn m ⟨x.arena.view.stmtCount⟩) := by
  have hindexed := h.arises.indexed
  have hmeets := h.valid.meets
  have hnodup := h.valid.nodup h.arises.linked
  have hm : m ∈ ss := h.contracts.sublist.subset List.mem_cons_self
  have hissued := (Visits.enter_of_mem hmeets.2 hm).1
  rcases h.contracts.exists_segment List.mem_cons_self with ⟨_, segment, hsegment, _⟩
  have howns := h.valid.owns_segment hm hsegment
  have hunread := h.unread m List.mem_cons_self segment hsegment
  -- The traversal finds the first match of the pass, and the generator makes a leaf for it.
  rcases htest.findMatch hmeets x.state with ⟨st, hfind⟩
  rw [h.contracts.find?_eq, ← h.root] at hfind
  rcases hleaves x m st .refl hfind with ⟨k, ty, r, a', st', hk, hpk, hcreate, hgenerate⟩
  rcases h.arises.replace_leaf h.valid hm hsegment (h.unread m List.mem_cons_self segment hsegment)
    hk hcreate with ⟨haccepted, e, hreplace, hview, harises, ss', hvalid⟩
  have hallows : options.Allows x.replacements := by
    intro limit hlimit
    rw [hbound] at hlimit
    cases hlimit
  have hround := roundAt_of_accepted hallows hfind hissued hgenerate haccepted
  rw [hreplace] at hround
  have hcreated := (h.arises.drafted_leaf hk hcreate m).drafts.arises h.arises
  rcases Arena.of_createStmt hcreate with ⟨rfl, _, _, _, hcreateView⟩
  have hlinked : (x.arena.view.createStmt k ty).Linked := hcreateView ▸ hcreated.linked
  have hleaf := hindexed.leafFor_replaced hslots hk hpk hlinked (h.valid.live m hm) segment
  have hfresh : ⟨x.arena.view.stmtCount⟩ ∉ ss := fun hmem =>
    Nat.lt_irrefl _ (Visits.enter_of_mem hmeets.2 hmem).1
  rw [← hview] at hleaf
  -- What is left is the rest of the pass, over the tree that the replacement made.
  rcases hleaf.contracts hmeets hnodup hfresh h.contracts with ⟨ss'', hmeets', hcontracts⟩
  cases hvalid.meets.2.unique hmeets'.2
  have hcount : e.arena.view.stmtCount = x.arena.view.stmtCount + 1 := by
    rw [hview, View.stmtCount_replaced]
    rfl
  refine ⟨⟨x.replacements + 1, e.arena, st', .block b⟩, ss', hround, ⟨m, _, hround, rfl, ?_⟩, rfl,
    hcount, ⟨rfl, harises, hvalid, hcount ▸ hcontracts, ?_⟩, ?_⟩
  · rw [h.root]
    rfl
  · intro m' hm' segment' hsegment'
    rcases h.contracts.exists_segment (List.mem_cons_of_mem m hm') with
      ⟨_, segment₀, hsegment₀, hsub⟩
    -- What goes with `m'` does not meet `m`, so the round leaves it and its readers alone.
    have hapart : m ∉ segment₀ := by
      intro hin
      cases h.contracts.eq_of_mem_segment hnodup (List.mem_cons_of_mem m hm') hsegment₀
        List.mem_cons_self hin
      exact (List.nodup_cons.1 (h.contracts.sublist.nodup hnodup)).1 hm'
    rw [hsegment'.unique (hleaf.meets hsegment₀ hapart), hview]
    have hbefore := h.unread m' (List.mem_cons_of_mem m hm') segment₀ hsegment₀
    exact ((hindexed.unreadBut_createStmt hk ty).2 hbefore).replaced (fun hin => hfresh (hsub hin)) m
      segment
  · intro s hlive
    rw [hview] at hlive
    have hlive' : (x.arena.view.createStmt k ty).erased s = false := (View.live_replaced.1 hlive).2
    refine ⟨hlive', ?_⟩
    rw [hview, View.operands_replaced hlive', hindexed.operands_createStmt hk]

/-- The run makes all rounds of the pass and then settles. -/
theorem Stage.reaches (h : Stage p b ts x ss ms) (hslots : ∀ k f, p (k.mapSlots f) = p k)
    (htest : rule.TestsKind p) (hbound : options.maxRestarts = none)
    (hleaves : rule.LeavesFrom options p x) :
    ∃ y st, rule.Reaches options x y ∧ y.replacements = x.replacements + ms.length ∧
      y.root = .block b ∧ rule.roundAt options y = .ok (.settled st) ∧
      y.arena.collect (.block b) = .ok ts ∧
      (∀ i (hi : i < ms.length), ∃ z a' st', rule.Reaches options x z ∧
        z.replacements = x.replacements + i ∧
        rule.roundAt options z = .ok (.replaced ms[i] ⟨x.arena.view.stmtCount + i⟩ a' st')) ∧
      Renames x.arena y.arena (renamed x.arena.view.stmtCount ms) := by
  -- The matches that are left get fewer, while what they will leave stays the same.
  induction ms generalizing x ss with
  | nil =>
      rcases htest.findMatch h.valid.meets x.state with ⟨st, hfind⟩
      rcases h.contracts.of_nil with ⟨rfl, hnone⟩
      have hnoMatch : ts.find? (x.arena.view.hits p) = none :=
        List.find?_eq_none.2 fun s hs => by simp [hnone s hs]
      rw [hnoMatch, ← h.root] at hfind
      refine ⟨x, st, .refl, rfl, h.root, roundAt_eq_settled.2 hfind,
        Arena.collect_eq_ok.2 h.valid.meets, fun i hi => (nomatch hi), ?_⟩
      intro s hlive
      exact ⟨hlive, by rw [renamed_nil, List.map_id]⟩
  | cons m ms ih =>
      rcases h.next hslots htest hbound hleaves with
        ⟨x₁, ss₁, hround, hnext, hreplacements, hcount, hstage, hrenames⟩
      have hleaves₁ : rule.LeavesFrom options p x₁ :=
        fun y s st hreach => hleaves y s st (.head hnext hreach)
      rcases ih hstage hleaves₁ with
        ⟨y, st, hreach, hy, hroot, hsettled, hcollect, hrounds, hrest⟩
      have hfresh : ⟨x.arena.view.stmtCount⟩ ∉ ms := fun hmem =>
        Nat.lt_irrefl _ (Visits.enter_of_mem h.valid.meets.2
          (h.contracts.sublist.subset (List.mem_cons_of_mem m hmem))).1
      refine ⟨y, st, .head hnext hreach, ?_, hroot, hsettled, hcollect, ?_, ?_⟩
      · rw [hy, hreplacements, List.length_cons]
        omega
      · rintro (_ | i) hi
        · exact ⟨x, _, _, .refl, rfl, hround⟩
        · rcases hrounds i (Nat.lt_of_succ_lt_succ hi) with ⟨z, a', st', hz, hi', hround'⟩
          refine ⟨z, a', st', .head hnext hz, by omega, ?_⟩
          rw [hround', hcount, Nat.add_right_comm]
          rfl
      · intro s hlive
        rcases hrest s hlive with ⟨hlive₁, hoperands⟩
        rcases hrenames s hlive₁ with ⟨hlive₀, hoperands₁⟩
        refine ⟨hlive₀, ?_⟩
        rw [hoperands, hoperands₁, hcount, List.map_map]
        exact List.map_congr_left fun t _ => renamed_cons hfresh t

/-- A rule that replaces statements of certain kinds by fresh leaves of other kinds, on a valid tree
in which what is below an outermost match is read only from there: its run is one pass over the
outermost matches. It ends well after one round for each, in pre-order; the tree that is left is the
old one with each of them, and all that is below it, contracted to its replacement; and what is left
reads the replacements where it read the matches. -/
theorem run_outermost {a : Arena} {st : σ} (hslots : ∀ k f, p (k.mapSlots f) = p k)
    (htest : rule.TestsKind p) (hbound : options.maxRestarts = none) (harises : a.Arises)
    (hpasses : a.Passes (.block b)) (hcollect : a.collect (.block b) = .ok ss)
    (hleaves : rule.LeavesFrom options p (start a st (.block b)))
    (hunread : ∀ m, a.view.Outermost p ss m → ∀ doomed, a.owned m = .ok doomed →
      a.view.UnreadBut m doomed) :
    ∃ ms ts a' st', ms.Sublist ss ∧ (∀ m, m ∈ ms ↔ a.view.Outermost p ss m) ∧
      (ms.length < options.budget → (rule.run options a st (.block b)).result =
        .ok ⟨.ok ⟨ms.length, ms.length + 1, .block b⟩, a', st'⟩) ∧
      (∀ i (hi : i < ms.length), ∃ x a₁ st₁,
        rule.Reaches options (start a st (.block b)) x ∧ x.replacements = i ∧
          rule.roundAt options x = .ok (.replaced ms[i] ⟨a.stmts.size + i⟩ a₁ st₁)) ∧
      a'.collect (.block b) = .ok ts ∧ a.view.Contracts p a.stmts.size ss ms ts ∧
      ∀ s, a'.isErased s = false → a.isErased s = false ∧
        a'.view.operands s = (a.view.operands s).map (renamed a.stmts.size ms) := by
  rcases harises.exists_valid_of_passes hpasses with ⟨ss', hvalid⟩
  cases hvalid.meets.2.unique (Arena.collect_eq_ok.1 hcollect).2
  have hnodup := hvalid.nodup harises.linked
  -- What the pass will replace and leave is read off the tree before the run starts.
  rcases View.Contracts.exists_of_meets (p := p) hvalid.meets.2 a.stmts.size with
    ⟨ms, ts, hcontracts⟩
  have houtermost := fun m => hcontracts.mem_iff_outermost (m := m) hnodup
  have hstage : Stage p b ts (start a st (.block b)) ss ms := by
    refine ⟨rfl, harises, hvalid, hcontracts, ?_⟩
    intro m hm segment hsegment
    have howns := hvalid.owns_segment (hcontracts.sublist.subset hm) hsegment
    exact hunread m ((houtermost m).1 hm) segment (Arena.owned_eq_ok.2 howns)
  rcases hstage.reaches hslots htest hbound hleaves with
    ⟨y, st', hreach, hy, hroot, hsettled, hcollect', hrounds, hrenames⟩
  have hy' : y.replacements = ms.length := hy.trans (Nat.zero_add _)
  refine ⟨ms, ts, y.arena, st', hcontracts.sublist, houtermost, ?_, ?_, hcollect', hcontracts,
    hrenames⟩
  · intro hbudget
    have hends : rule.Ends options y ⟨.ok ⟨ms.length, ms.length + 1, .block b⟩, y.arena, st'⟩ := by
      rw [← hy', ← hroot]
      exact .settled hsettled
    exact run_eq_ok.2 ⟨y, hreach, hy' ▸ hbudget, hends⟩
  · intro i hi
    rcases hrounds i hi with ⟨x, a₁, st₁, hx, hi', hround⟩
    exact ⟨x, a₁, st₁, hx, hi'.trans (Nat.zero_add i), hround⟩

/-! ## Loops that become constants -/

/-- Whether a kind is a loop on a condition in its body. -/
def isLoop (k : Kind) : Bool :=
  k.name == "while"

/-- Loops become constants. -/
def constForLoop : Rule Unit where
  test a s := (do return isLoop (← a.kind s) : Except Fault Bool)
  generate a := do
    let (s, a) ← (a.createStmt (.const (.int 0)) .i32 : Except Fault _)
    return (.ok s, a)

/-- A loop with a loop in it that reads from the outer one, a statement that reads the outer loop,
and a loop without a body. -/
def loopInLoop : List Edit :=
  [.createBlock, .createBlock, .createBlock, .createBlock,
    .createStmt (.whileLoop ⟨1⟩) .void, .push ⟨0⟩ ⟨0⟩,
    .createStmt (.const (.int 1)) .i32, .push ⟨1⟩ ⟨1⟩,
    .createStmt (.whileLoop ⟨2⟩) .void, .push ⟨1⟩ ⟨2⟩,
    .createStmt (.print ⟨1⟩) .void, .push ⟨2⟩ ⟨3⟩,
    .createStmt (.print ⟨0⟩) .void, .push ⟨0⟩ ⟨4⟩,
    .createStmt (.whileLoop ⟨3⟩) .void, .push ⟨0⟩ ⟨5⟩]

/-- The same with constants for the first loop and the last. -/
def constForLoops : List Edit :=
  loopInLoop ++ [.createStmt (.const (.int 0)) .i32, .replace ⟨0⟩ ⟨6⟩,
    .createStmt (.const (.int 0)) .i32, .replace ⟨5⟩ ⟨7⟩]

theorem run_outermost_loop_in_loop :
    (Arena.ofEdits loopInLoop).collect (.block ⟨0⟩) = .ok [⟨0⟩, ⟨1⟩, ⟨2⟩, ⟨3⟩, ⟨4⟩, ⟨5⟩] ∧
      (∀ m, m ∈ [⟨0⟩, ⟨5⟩] ↔
        (Arena.ofEdits loopInLoop).view.Outermost isLoop [⟨0⟩, ⟨1⟩, ⟨2⟩, ⟨3⟩, ⟨4⟩, ⟨5⟩] m) ∧
      (constForLoop.run ⟨none, 5⟩ (Arena.ofEdits loopInLoop) () (.block ⟨0⟩)).result =
        .ok ⟨.ok ⟨2, 3, .block ⟨0⟩⟩, Arena.ofEdits constForLoops, ()⟩ ∧
      (Arena.ofEdits constForLoops).collect (.block ⟨0⟩) = .ok [⟨6⟩, ⟨4⟩, ⟨7⟩] ∧
      (Arena.ofEdits constForLoops).view.operands ⟨4⟩ = [⟨6⟩] := by
  have harises := Arena.arises_ofEdits loopInLoop
  have hvalidate : (Arena.ofEdits loopInLoop).validate (.block ⟨0⟩) = .ok ⟨[], [], [], []⟩ := by
    decide +kernel
  have hcollect : (Arena.ofEdits loopInLoop).collect (.block ⟨0⟩) =
      .ok [⟨0⟩, ⟨1⟩, ⟨2⟩, ⟨3⟩, ⟨4⟩, ⟨5⟩] := by decide +kernel
  have hrun : (constForLoop.run ⟨none, 5⟩ (Arena.ofEdits loopInLoop) () (.block ⟨0⟩)).result =
      .ok ⟨.ok ⟨2, 3, .block ⟨0⟩⟩, Arena.ofEdits constForLoops, ()⟩ := by decide +kernel
  have hslots : ∀ k f, isLoop (k.mapSlots f) = isLoop k := by
    intro k f
    cases k <;> rfl
  have htest : constForLoop.TestsKind isLoop := by
    intro a s k st hk
    refine ⟨st, ?_⟩
    show (liftM (do return isLoop (← a.kind s) : Except Fault Bool) :
      StateT Unit (Except Fault) Bool).run st = _
    rw [hk]
    rfl
  have hleaves : constForLoop.LeavesFrom ⟨none, 5⟩ isLoop
      (start (Arena.ofEdits loopInLoop) () (.block ⟨0⟩)) :=
    fun _ _ _ _ _ => ⟨.const (.int 0), .i32, _, _, (), ⟨rfl, rfl⟩, rfl, rfl, rfl⟩
  -- What is below a loop is read from below it, by what the lists of uses say.
  have huses : ∀ m ∈ ([⟨0⟩, ⟨1⟩, ⟨2⟩, ⟨3⟩, ⟨4⟩, ⟨5⟩] : List StmtId),
      (Arena.ofEdits loopInLoop).view.hits isLoop m = true →
        ∀ t ∈ ((Arena.ofEdits loopInLoop).owned m).toOption.getD [], t ≠ m →
          ∀ u ∈ (Arena.ofEdits loopInLoop).view.uses t,
            u.user ∈ ((Arena.ofEdits loopInLoop).owned m).toOption.getD [] := by
    decide +kernel
  have hunread : ∀ m, (Arena.ofEdits loopInLoop).view.Outermost isLoop
      [⟨0⟩, ⟨1⟩, ⟨2⟩, ⟨3⟩, ⟨4⟩, ⟨5⟩] m → ∀ doomed, (Arena.ofEdits loopInLoop).owned m = .ok doomed →
        (Arena.ofEdits loopInLoop).view.UnreadBut m doomed := by
    intro m hm doomed howned t ht hne u hu
    have hread := huses m hm.mem hm.hit
    rw [howned] at hread
    exact hread t ht hne u ((harises.indexed.mem_uses t u).2 hu)
  rcases run_outermost hslots htest rfl harises ⟨_, hvalidate, rfl⟩ hcollect hleaves hunread with
    ⟨ms, ts, a', st', hsublist, houtermost, hends, _, hcollect', hcontracts, hoperands⟩
  have hpass : (Arena.ofEdits loopInLoop).view.Contracts isLoop 6
      [⟨0⟩, ⟨1⟩, ⟨2⟩, ⟨3⟩, ⟨4⟩, ⟨5⟩] [⟨0⟩, ⟨5⟩] [⟨6⟩, ⟨4⟩, ⟨7⟩] := by
    have houter : (Arena.ofEdits loopInLoop).view.Meets [⟨0⟩] [⟨0⟩, ⟨1⟩, ⟨2⟩, ⟨3⟩] :=
      Arena.collectWithin_maxDepth_eq_ok.1 (by decide +kernel)
    have hlast : (Arena.ofEdits loopInLoop).view.Meets [⟨5⟩] [⟨5⟩] :=
      Arena.collectWithin_maxDepth_eq_ok.1 (by decide +kernel)
    exact .swap (by decide +kernel) houter
      (.keep (by decide +kernel) (.swap (by decide +kernel) hlast .nil))
  have hcount : (Arena.ofEdits loopInLoop).stmts.size = 6 := by decide +kernel
  rw [hcount] at hcontracts hoperands
  rcases hcontracts.unique hpass with ⟨rfl, rfl⟩
  cases hrun.symm.trans (hends (by decide))
  refine ⟨hcollect, houtermost, hrun, hcollect', ?_⟩
  rw [(hoperands ⟨4⟩ (by decide +kernel)).2]
  decide +kernel

end Rule

end KernelIR
