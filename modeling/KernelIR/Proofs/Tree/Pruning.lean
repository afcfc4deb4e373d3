import KernelIR.Proofs.Arena.Nesting
import KernelIR.Proofs.Arena.Reach

/-!
# Walks as passages through the pre-order

A walk goes down a tree and comes back from it, and its visitor says where it leaves something out.
The same statements are asked about in a passage through a list, the pre-order of the tree: where
the visitor skips, the passage leaves out as many entries as there are statements below the one that
it asked about, and it ends where the visitor stops. So what a walk asks about is the pre-order,
pruned by the answers.
-/

namespace KernelIR

variable {σ β : Type}

@[simp] theorem lift_ok_bind {α β : Type} (x : α) (f : α → StateT σ (Except Fault) β) :
    (liftM (Except.ok x : Except Fault α) : StateT σ (Except Fault) α) >>= f = f x :=
  rfl

/-! ## Pruning -/

/-- The value that a walk ends with if this is an answer. -/
def Verdict.value? : Verdict β → Option β
  | .stop value => some value
  | _ => none

/-- The statements of a pre-order that are asked about if these are the answers: behind a statement
`s` that is skipped `below s` of them are left out, and at a stop all that are left. If there are no
more answers, the next statement is still to be asked about. -/
def pruned (below : StmtId → Nat) : List StmtId → List (Verdict β) → List StmtId
  | [], _ => []
  | s :: _, [] => [s]
  | s :: _, .stop _ :: _ => [s]
  | s :: ss, .skip :: answers => s :: pruned below (ss.drop (below s)) answers
  | s :: ss, .advance :: answers => s :: pruned below ss answers

/-- Asks about the statements of a pre-order in turn. -/
def passage (visit : StmtId → StateT σ (Except Fault) (Verdict β)) (below : StmtId → Nat) :
    List StmtId → StateT σ (Except Fault) (Option β)
  | [] => pure none
  | s :: ss => do
    match ← visit s with
    | .stop value => return some value
    | .skip => passage visit below (ss.drop (below s))
    | .advance => passage visit below ss
termination_by ss => ss.length
decreasing_by
  · simp only [List.length_drop, List.length_cons]
    omega
  · simp

/-- The visitor, with a record of what it was asked about and what it answered. -/
def recording (visit : StmtId → StateT σ (Except Fault) (Verdict β)) (s : StmtId) :
    StateT (σ × List (StmtId × Verdict β)) (Except Fault) (Verdict β) := fun (st, calls) => do
  let (verdict, st) ← (visit s).run st
  return (verdict, (st, calls ++ [(s, verdict)]))

section Passage

variable {visit : StmtId → StateT σ (Except Fault) (Verdict β)} {below : StmtId → Nat}
  {ss : List StmtId} {s : StmtId} {st st' : σ} {found : Option β}

theorem passage_cons (s : StmtId) (ss : List StmtId) :
    passage visit below (s :: ss) = (visit s >>= fun verdict => match verdict with
      | .stop value => pure (some value)
      | .skip => passage visit below (ss.drop (below s))
      | .advance => passage visit below ss) := by
  rw [passage]

/-- A passage faults only where its visitor does. -/
theorem exists_of_passage_eq_error {fault : Fault}
    (h : (passage visit below ss).run st = .error fault) :
    ∃ s ∈ ss, ∃ now, (visit s).run now = .error fault := by
  induction ss using passage.induct below generalizing st with
  | case1 =>
      rw [passage] at h
      cases h
  | case2 s ss ihSkip ihAdvance =>
      rw [passage_cons, StateT.run_bind] at h
      rcases bind_eq_error.1 h with hvisit | ⟨⟨verdict, st₁⟩, _, hrest⟩
      · exact ⟨s, List.mem_cons_self, st, hvisit⟩
      · cases verdict with
        | stop value => cases hrest
        | skip =>
            rcases ihSkip hrest with ⟨t, ht, hfault⟩
            exact ⟨t, List.mem_cons_of_mem s (List.mem_of_mem_drop ht), hfault⟩
        | advance =>
            rcases ihAdvance hrest with ⟨t, ht, hfault⟩
            exact ⟨t, List.mem_cons_of_mem s ht, hfault⟩

/-- A passage asks about what its answers leave of the list. -/
theorem passage_recording (h : (passage visit below ss).run st = .ok (found, st'))
    (before : List (StmtId × Verdict β)) :
    ∃ calls, (passage (recording visit) below ss).run (st, before) =
        .ok (found, (st', before ++ calls)) ∧
      calls.map Prod.fst = pruned below ss (calls.map Prod.snd) ∧
      found = calls.findSome? fun call => call.2.value? := by
  induction ss using passage.induct below generalizing st before with
  | case1 =>
      rw [passage] at h
      cases h
      exact ⟨[], by rw [passage, List.append_nil]; rfl, rfl, rfl⟩
  | case2 s ss ihSkip ihAdvance =>
      rw [passage_cons, StateT.run_bind] at h
      rcases bind_eq_ok.1 h with ⟨⟨verdict, st₁⟩, hvisit, hrest⟩
      have hrecord : (recording visit s).run (st, before) =
          .ok (verdict, (st₁, before ++ [(s, verdict)])) := by
        show (visit s).run st >>= _ = _
        rw [hvisit]
        rfl
      -- The first call is recorded, and what the others add comes behind it.
      rw [passage_cons, StateT.run_bind, hrecord, ok_bind]
      cases verdict with
      | stop value =>
          cases hrest
          exact ⟨[(s, .stop value)], rfl, rfl, rfl⟩
      | skip =>
          rcases ihSkip hrest (before ++ [(s, .skip)]) with ⟨calls, hrun, hcalls, hfound⟩
          rw [List.append_assoc] at hrun
          exact ⟨(s, .skip) :: calls, hrun, congrArg (s :: ·) hcalls, hfound⟩
      | advance =>
          rcases ihAdvance hrest (before ++ [(s, .advance)]) with ⟨calls, hrun, hcalls, hfound⟩
          rw [List.append_assoc] at hrun
          exact ⟨(s, .advance) :: calls, hrun, congrArg (s :: ·) hcalls, hfound⟩

end Passage

/-- Without a skip or a stop nothing is left out. -/
theorem pruned_of_advance {below : StmtId → Nat} {ss : List StmtId}
    {calls : List (StmtId × Verdict β)}
    (h : calls.map Prod.fst = pruned below ss (calls.map Prod.snd))
    (hadvance : ∀ call ∈ calls, call.2 = .advance) : calls.map Prod.fst = ss := by
  induction calls generalizing ss with
  | nil =>
      cases ss with
      | nil => rfl
      | cons s ss => cases h
  | cons call calls ih =>
      rcases call with ⟨t, verdict⟩
      rcases List.forall_mem_cons.1 hadvance with ⟨rfl, hrest⟩
      cases ss with
      | nil => cases h
      | cons s ss =>
          rcases List.cons.inj h with ⟨rfl, htail⟩
          exact congrArg (t :: ·) (ih htail hrest)

/-- A passage that stops where a test passes ends at the first statement that passes it. -/
theorem passage_find (test : StmtId → Bool) (below : StmtId → Nat) (ss : List StmtId) (st : σ) :
    (passage (fun s => pure (if test s then .stop s else .advance)) below ss).run st =
      .ok (ss.find? test, st) := by
  induction ss with
  | nil =>
      rw [passage]
      rfl
  | cons s ss ih =>
      rw [passage_cons, pure_bind, List.find?_cons]
      cases test s with
      | true => rfl
      | false => exact ih

/-! ## Walking -/

namespace Arena

variable {a : Arena} {depth : Nat} {s : StmtId} {ss : List StmtId} {root : Node}
  {visit : StmtId → StateT σ (Except Fault) (Verdict β)}

/-- The number of statements that the descent from a statement meets below it. -/
def countBelow (a : Arena) (s : StmtId) : Nat :=
  match a.collect (.stmt s) with
  | .ok ss => ss.length - 1
  | .error _ => 0

theorem countBelow_of_collect {inner : List StmtId} (h : a.collect (.stmt s) = .ok (s :: inner)) :
    a.countBelow s = inner.length := by
  rw [countBelow, h]
  exact Nat.add_sub_cancel ..

/-- Walking block by block is walking all that the blocks list. -/
theorem foldr_blocks (f : StmtId → StateT σ (Except Fault) β → StateT σ (Except Fault) β)
    {bs : List BlockId} (hissued : ∀ b ∈ bs, a.view.HasBlock b)
    (rest : StateT σ (Except Fault) β) :
    bs.foldr (fun b rest => do (← a.listing b).foldr f rest) rest =
      (bs.flatMap a.view.listed).foldr f rest := by
  induction bs with
  | nil => rfl
  | cons b bs ih =>
      have hlisting := listing_eq_ok.2 ⟨hissued b List.mem_cons_self, rfl⟩
      rw [List.foldr_cons, hlisting, lift_ok_bind, List.flatMap_cons, List.foldr_append,
        ih fun c hc => hissued c (List.mem_cons_of_mem b hc)]

/-- Walking one place after another is the passage through what the descent from them lists, as soon
as this holds for each of the places. -/
theorem foldr_walkWithin_eq_passage {xs ss : List StmtId}
    (hwalk : ∀ x here ts, a.collectWithin depth x = .ok here →
      a.walkWithin visit depth x (passage visit a.countBelow ts) =
        passage visit a.countBelow (here ++ ts))
    (h : gather (a.collectWithin depth) xs = .ok ss) (ts : List StmtId) :
    xs.foldr (a.walkWithin visit depth) (passage visit a.countBelow ts) =
      passage visit a.countBelow (ss ++ ts) := by
  induction xs generalizing ss with
  | nil =>
      cases h
      rfl
  | cons x xs ih =>
      rcases gather_cons_eq_ok.1 h with ⟨here, hx, others, hxs, rfl⟩
      rw [List.foldr_cons, ih hxs, hwalk x here _ hx, List.append_assoc]

theorem walkWithin_eq_passage (h : a.collectWithin depth s = .ok ss) (ts : List StmtId) :
    a.walkWithin visit depth s (passage visit a.countBelow ts) =
      passage visit a.countBelow (ss ++ ts) := by
  induction depth generalizing s ss ts with
  | zero => cases h
  | succ depth ih =>
      have hmeets : a.view.Meets [s] ss := a.descends_collectWithin.visits h
      rcases (a.descends_collectWithin.succ depth s ss).1 h with ⟨⟨hs, hissued⟩, inner, hinner, rfl⟩
      rcases exists_kind_iff.2 hs with ⟨k, hk⟩
      rw [View.children_of_kind hk] at hissued
      have hbelow := foldr_walkWithin_eq_passage (fun x here ts hx => ih hx ts) hinner ts
      -- To skip is to go on behind everything below `s`.
      have hskip : (inner ++ ts).drop (a.countBelow s) = ts := by
        rw [countBelow_of_collect (collectWithin_maxDepth_eq_ok.2 hmeets)]
        exact List.drop_left
      rw [List.cons_append, passage_cons, walkWithin]
      refine congrArg _ (funext fun verdict => ?_)
      cases verdict with
      | stop value => rfl
      | skip => exact congrArg _ hskip.symm
      | advance =>
          simp only [kind_eq_ok.2 hk, lift_ok_bind, foldr_blocks _ hissued, ← hbelow, View.below,
            View.children_of_kind hk]

/-- Where the descent ends, a walk is the passage through what it meets. -/
theorem walk_eq_passage (h : a.collect root = .ok ss)
    (visit : StmtId → StateT σ (Except Fault) (Verdict β)) :
    a.walk visit root = passage visit a.countBelow ss := by
  -- A walk is granted more levels than the list needs.
  have hdepth : a.maxDepth ≤ a.walkDepth := Nat.le_add_right ..
  have hmeets := (collect_eq_ok.1 h).2
  have hcollect : gather (a.collectWithin a.walkDepth) (a.view.tops root) = .ok ss :=
    Descends.gather_eq_ok_of_forall hmeets fun s _ here hhere _ =>
      a.descends_collectWithin.mono hdepth (collectWithin_maxDepth_eq_ok.2 hhere)
  have hpassage : (a.view.tops root).foldr (a.walkWithin visit a.walkDepth)
      (passage visit a.countBelow []) = passage visit a.countBelow (ss ++ []) :=
    foldr_walkWithin_eq_passage (fun x here ts hx => walkWithin_eq_passage hx ts) hcollect []
  rw [List.append_nil, passage] at hpassage
  cases root with
  | stmt s =>
      rw [View.tops, List.foldr_cons, List.foldr_nil] at hpassage
      rw [walk, hpassage]
  | block b =>
      have hlisting := listing_eq_ok.2 ⟨(collect_eq_ok.1 h).1 b rfl, rfl⟩
      rw [View.tops] at hpassage
      rw [walk, hlisting, lift_ok_bind, hpassage]

/-- Where the descent ends, a walk asks about what is left of its pre-order: behind a statement that
is skipped what is below it is left out, and behind a stop everything. The value of the stop is what
the walk ends with. A walk faults only where its visitor does, it asks about the whole pre-order if
nothing is skipped or stopped at, and as a search it finds the first statement that passes. -/
theorem walk_pruned (h : a.collect root = .ok ss)
    (visit : StmtId → StateT σ (Except Fault) (Verdict β)) (st : σ) :
    (∀ front s back, ss = front ++ s :: back → ∃ inner rest,
      a.collect (.stmt s) = .ok (s :: inner) ∧ a.countBelow s = inner.length ∧
        back = inner ++ rest) ∧
      (∀ fault, (a.walk visit root).run st = .error fault →
        ∃ s ∈ ss, ∃ now, (visit s).run now = .error fault) ∧
      (∀ found st', (a.walk visit root).run st = .ok (found, st') → ∃ calls,
        (a.walk (recording visit) root).run (st, []) = .ok (found, (st', calls)) ∧
          calls.map Prod.fst = pruned a.countBelow ss (calls.map Prod.snd) ∧
          found = calls.findSome? (fun call => call.2.value?) ∧
          ((∀ call ∈ calls, call.2 = .advance) → calls.map Prod.fst = ss)) ∧
      ∀ test : StmtId → Bool,
        (a.walk (fun s => pure (if test s then .stop s else .advance)) root).run st =
          .ok (ss.find? test, st) := by
  refine ⟨?_, ?_, ?_, ?_⟩
  · rintro front s back rfl
    rcases Visits.of_split (collect_eq_ok.1 h).2 with ⟨henter, inner, rest, hinner, rfl⟩
    have hcollect : a.collect (.stmt s) = .ok (s :: inner) :=
      collect_eq_ok.2 (View.meetsFrom_stmt.2 (Visits.singleton_iff.2 ⟨henter, inner, hinner, rfl⟩))
    exact ⟨inner, rest, hcollect, countBelow_of_collect hcollect, rfl⟩
  · intro fault hfault
    rw [walk_eq_passage h] at hfault
    exact exists_of_passage_eq_error hfault
  · intro found st' hfound
    rw [walk_eq_passage h] at hfound
    rcases passage_recording hfound [] with ⟨calls, hrun, hcalls, hvalue⟩
    rw [List.nil_append] at hrun
    exact ⟨calls, by rw [walk_eq_passage h, hrun], hcalls, hvalue, pruned_of_advance hcalls⟩
  · intro test
    rw [walk_eq_passage h, passage_find]

/-! ## A walk that skips and then stops -/

/-- Skips branches, and stops at the fourth call. The state counts the calls. -/
def skipBranch (a : Arena) (s : StmtId) : StateT Nat (Except Fault) (Verdict StmtId) := do
  modify (· + 1)
  if (← get) = 4 then
    return .stop s
  match ← a.kind s with
  | .ifElse _ _ _ => return .skip
  | _ => return .advance

/-- A constant, a loop around a branch with a statement in each body, and two statements behind the
loop. -/
def branchToSkip : Arena := ofEdits
  [.createBlock, .createBlock, .createBlock, .createBlock,
    .createStmt (.const (.bool true)) .i1, .push ⟨0⟩ ⟨0⟩,
    .createStmt (.whileLoop ⟨1⟩) .void, .push ⟨0⟩ ⟨1⟩,
    .createStmt (.ifElse ⟨0⟩ ⟨2⟩ (some ⟨3⟩)) .void, .push ⟨1⟩ ⟨2⟩,
    .createStmt .alloca .i32, .push ⟨2⟩ ⟨3⟩, .createStmt .alloca .i64, .push ⟨3⟩ ⟨4⟩,
    .createStmt (.print ⟨0⟩) .void, .push ⟨0⟩ ⟨5⟩, .createStmt (.print ⟨1⟩) .void, .push ⟨0⟩ ⟨6⟩]

theorem walk_pruned_branch_skipped :
    branchToSkip.collect (.block ⟨0⟩) = .ok [⟨0⟩, ⟨1⟩, ⟨2⟩, ⟨3⟩, ⟨4⟩, ⟨5⟩, ⟨6⟩] ∧
      ∃ calls, (branchToSkip.walk (recording (skipBranch branchToSkip)) (.block ⟨0⟩)).run (0, []) =
          .ok (some ⟨5⟩, (4, calls)) ∧
        calls.map Prod.snd = [.advance, .advance, .skip, .stop ⟨5⟩] ∧
        calls.map Prod.fst = [⟨0⟩, ⟨1⟩, ⟨2⟩, ⟨5⟩] ∧
        [⟨0⟩, ⟨1⟩, ⟨2⟩, ⟨5⟩] = pruned branchToSkip.countBelow
          [⟨0⟩, ⟨1⟩, ⟨2⟩, ⟨3⟩, ⟨4⟩, ⟨5⟩, ⟨6⟩]
          [.advance, .advance, .skip, .stop (⟨5⟩ : StmtId)] := by
  have hcollect : branchToSkip.collect (.block ⟨0⟩) =
      .ok [⟨0⟩, ⟨1⟩, ⟨2⟩, ⟨3⟩, ⟨4⟩, ⟨5⟩, ⟨6⟩] := by decide +kernel
  have hwalk : (branchToSkip.walk (skipBranch branchToSkip) (.block ⟨0⟩)).run 0 =
      .ok (some ⟨5⟩, 4) := by decide +kernel
  have hrecord :
      (branchToSkip.walk (recording (skipBranch branchToSkip)) (.block ⟨0⟩)).run (0, []) =
        .ok (some ⟨5⟩,
          (4, [(⟨0⟩, .advance), (⟨1⟩, .advance), (⟨2⟩, .skip), (⟨5⟩, .stop ⟨5⟩)])) := by
    decide +kernel
  rcases walk_pruned hcollect (skipBranch branchToSkip) 0 with ⟨_, _, hcalls, _⟩
  rcases hcalls _ _ hwalk with ⟨calls, hrun, hpruned, _⟩
  cases hrecord.symm.trans hrun
  exact ⟨hcollect, _, hrecord, rfl, rfl, hpruned⟩

end Arena

end KernelIR
